import ModuleSource.Disk.Path
import ModuleSource.Format

/-! Reports of runs, and their two written forms. -/

namespace ModuleSource

namespace Text

def hexDigit (n : Nat) : Char :=
  if n < 10 then Char.ofNat (48 + n) else Char.ofNat (87 + n)

/-- One character inside quotes. Quotes, backslashes and the control characters below the space are
escaped, the common ones by a letter and the others by their code. -/
def escape (c : Char) : List Char :=
  if c = '"' then ['\\', '"']
  else if c = '\\' then ['\\', '\\']
  else if c = '\n' then ['\\', 'n']
  else if c = '\r' then ['\\', 'r']
  else if c = '\t' then ['\\', 't']
  else if c.toNat = 8 then ['\\', 'b']
  else if c.toNat = 12 then ['\\', 'f']
  else if c.toNat < 32 then
    ['\\', 'u', '0', '0', hexDigit (c.toNat / 16), hexDigit (c.toNat % 16)]
  else [c]

def quote (s : String) : String :=
  String.ofList ('"' :: (s.toList.flatMap escape ++ ['"']))

end Text

/-- What became of a file. -/
inductive Outcome where
  | written (format : Format) (output : Path)
  | skipped (signature : String)
  | failed (error : String) (line : Option Nat)
  | cancelled
deriving DecidableEq

structure FileRecord where
  input : Path
  outcome : Outcome
deriving DecidableEq

inductive Status where
  | completed
  | completedWithErrors
  | aborted
  | cancelled
deriving DecidableEq

structure Report where
  engine : Engine
  status : Status
  files : List FileRecord
deriving DecidableEq

namespace Outcome

def isWritten : Outcome → Bool
  | written .. => true
  | _ => false

def isSkipped : Outcome → Bool
  | skipped .. => true
  | _ => false

def isFailed : Outcome → Bool
  | failed .. => true
  | _ => false

def isCancelled : Outcome → Bool
  | cancelled => true
  | _ => false

def name : Outcome → String
  | written .. => "written"
  | skipped .. => "skipped"
  | failed .. => "failed"
  | cancelled => "cancelled"

end Outcome

namespace Status

def all : List Status := [completed, completedWithErrors, aborted, cancelled]

def name : Status → String
  | completed => "completed"
  | completedWithErrors => "completed_with_errors"
  | aborted => "aborted"
  | cancelled => "cancelled"

def label : Status → String
  | completed => "completed"
  | completedWithErrors => "completed with errors"
  | aborted => "aborted"
  | cancelled => "cancelled"

end Status

/-- The name of the file at a path, or the path if it has none. -/
def Path.shortText (path : Path) : String := path.leaf?.getD path.text

namespace FileRecord

def text (file : FileRecord) : String :=
  let input := file.input.shortText
  match file.outcome with
  | .written _ output => s!"  [ok]        {input} -> {output.shortText}\n"
  | .skipped signature => s!"  [skipped]   {input}: unknown format `{signature}`\n"
  | .failed error _ => s!"  [failed]    {input}: {error}\n"
  | .cancelled => s!"  [cancelled] {input}\n"

/-- The members of the JSON object for a file, with their values written out. -/
def members (file : FileRecord) : List (String × String) :=
  [("input", Text.quote file.input.text), ("outcome", Text.quote file.outcome.name)] ++
    match file.outcome with
    | .written format output =>
      [("format", Text.quote format.name), ("output", Text.quote output.text)]
    | .skipped signature => [("signature", Text.quote signature)]
    | .failed error line =>
      [("error", Text.quote error), ("line", (line.map toString).getD "null")]
    | .cancelled => []

def json (file : FileRecord) : String :=
  "    \x7b\n" ++
    String.intercalate ",\n" (file.members.map fun (key, value) =>
      "      " ++ Text.quote key ++ ": " ++ value) ++
    "\n    \x7d"

end FileRecord

namespace Report

def count (report : Report) (p : Outcome → Bool) : Nat :=
  (report.files.filter fun file => p file.outcome).length

def written (report : Report) : Nat := report.count (·.isWritten)

def skipped (report : Report) : Nat := report.count (·.isSkipped)

def failed (report : Report) : Nat := report.count (·.isFailed)

/-- The report for people: a line for each file between a heading and the totals. -/
def text (report : Report) : String :=
  s!"Decompilation ({report.engine.name})\n" ++ String.join (report.files.map (·.text)) ++
    s!"Status: {report.status.label} ({report.written} written, {report.skipped} skipped, " ++
    s!"{report.failed} failed)\n"

/-- The report as JSON, indented by two spaces. -/
def json (report : Report) : String :=
  "\x7b\n  \"mode\": " ++ Text.quote report.engine.name ++
    ",\n  \"status\": " ++ Text.quote report.status.name ++
    ",\n  \"files\": " ++
    (if report.files.isEmpty then "[]"
      else "[\n" ++ String.intercalate ",\n" (report.files.map (·.json)) ++ "\n  ]") ++
    "\n\x7d"

end Report

end ModuleSource
