import ModuleSource.Disk.Basic
import ModuleSource.Format
import ModuleSource.Name.Extract
import ModuleSource.Run.Error

/-! Files on a disk: the names they define, and one file made into a module. -/

namespace ModuleSource

open Text

/-- The names in the file at a path. -/
def NameRule.namesAt (rule : NameRule) (disk : Disk) (path : Path) : Except ReadFailure NameTable :=
  match disk.read path with
  | .error e => .error (.access e)
  | .ok bytes => rule.names bytes

/-- The names that the files of a directory define. A file that is missing or does not give names
leaves its kind of entity without any. -/
def Lexicon.ofDirectory (disk : Disk) (directory : Path) : Lexicon :=
  Entity.all.foldl (fun lexicon entity =>
    let path := directory.join entity.dataFile
    if disk.isFile path then
      match entity.rule.namesAt disk path with
      | .ok names => lexicon.insert entity names
      | .error _ => lexicon
    else lexicon) .empty

/-- The first line of a file and the rest of it. A file without a line has an empty one. -/
def openFile (bytes : ByteArray) : Except ReadFailure (String × Source) :=
  match (Source.ofBytes bytes).takeLine with
  | (.ok line, source) => .ok (line, source)
  | (.error (.endOfStream _), source) => .ok ("", source)
  | (.error e, _) => .error e

/-- The module generated from the bytes of a file, after one look has been made for it. -/
def moduleOfBytes (context : Context) (signal : StopSignal) (input : Path) (bytes : ByteArray) :
    Except RunFailure (Format × String) :=
  match openFile bytes with
  | .error e => .error (.decode input (.read e))
  | .ok (line, source) =>
    match Format.ofSignature? line with
    | none => .error (.unknownFormat input (String.ofList (trim line.toList)))
    | some format =>
      match (format.generate context signal 1 source).1 with
      | .ok text => .ok (format, text)
      | .error .cancelled => .error .cancelled
      | .error e => .error (.decode input e)

/-- Makes the file at `input` into a module in the directory `output`. The module is written when
the whole file is decoded, so a failure leaves the disk as it was. -/
def produceModule (context : Context) (signal : StopSignal) (input output : Path) (disk : Disk)
    (mishaps : Disk.Mishaps := {}) : Except RunFailure (Format × Path) × Disk :=
  if signal 0 0 then (.error .cancelled, disk)
  else
    match disk.find input with
    | .error e => (.error (.access input e), disk)
    | .ok (_, .directory) => (.error (.decode input (.read (.access .isADirectory))), disk)
    | .ok (_, .file bytes _) =>
      match moduleOfBytes context signal input bytes with
      | .error e => (.error e, disk)
      | .ok (format, text) =>
        let target := output.join format.moduleFile
        match disk.publish output format.moduleFile text.toUTF8 mishaps with
        | .error e => (.error (.access target e), disk)
        | .ok disk => (.ok (format, target), disk)

end ModuleSource
