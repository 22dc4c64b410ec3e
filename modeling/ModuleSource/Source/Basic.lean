import ModuleSource.Source.Error
import ModuleSource.Text.Blank
import ModuleSource.Text.Line

/-!
A source of tokens. Tokens are the words of the physical lines of a file, in order. A line that does
not decode is reported once, by the read that reaches it, and is not counted in line numbers.
-/

namespace ModuleSource

open Text

/-- One physical line, without its ending. -/
inductive PhysicalLine where
  | text (chars : List Char)
  | undecodable
deriving DecidableEq

namespace PhysicalLine

def ofBytes (bytes : List UInt8) : PhysicalLine :=
  match decode? bytes with
  | some chars => .text (dropReturns chars)
  | none => .undecodable

/-- The lines without the byte order mark at the start of the first one that decodes. -/
def unmark : List PhysicalLine → List PhysicalLine
  | [] => []
  | .undecodable :: lines => .undecodable :: unmark lines
  | .text chars :: lines => .text (dropMark chars) :: lines

end PhysicalLine

/-- A position in a file: the unread part `rest` of the current line `text`, whose number is `line`,
and the lines after it. `fetched` counts the physical lines taken so far, those that do not decode
included; `line` counts only the others, and is zero before the first. -/
structure Source where
  pending : List PhysicalLine
  fetched : Nat := 0
  line : Nat := 0
  text : List Char := []
  rest : List Char := []
deriving DecidableEq

namespace Source

def ofBytes (bytes : ByteArray) : Source where
  pending := PhysicalLine.unmark ((breakAt (· == lineFeed) bytes.toList).map .ofBytes)

/-- The first word of the pending lines. Lines without a word are passed over. -/
def wordOfPending (fetched line : Nat) : List PhysicalLine → Except ReadFailure (List Char) × Source
  | [] => (.error (.endOfStream line), { pending := [], fetched, line })
  | .undecodable :: pending =>
    (.error (.access .invalidText), { pending, fetched := fetched + 1, line })
  | .text chars :: pending =>
    match firstWord? chars with
    | some (word, rest) =>
      (.ok word, { pending, fetched := fetched + 1, line := line + 1, text := chars, rest })
    | none => wordOfPending (fetched + 1) (line + 1) pending

/-- The next word, wherever its line is. -/
def takeWord (s : Source) : Except ReadFailure (List Char) × Source :=
  match firstWord? s.rest with
  | some (word, rest) => (.ok word, { s with rest })
  | none => wordOfPending s.fetched s.line s.pending

/-- The next token, read as the given kind. A token of another kind is consumed all the same. -/
def read (kind : TokenForm) (s : Source) : Except ReadFailure kind.Value × Source :=
  match s.takeWord with
  | (.error e, s) => (.error e, s)
  | (.ok word, s) =>
    match kind.parse? word with
    | some value => (.ok value, s)
    | none => (.error (.malformed s.line (String.ofList word) kind), s)

/-- What remains of the current line, trimmed, or else the next physical line as it stands. -/
def takeLine (s : Source) : Except ReadFailure String × Source :=
  match trim s.rest with
  | c :: cs => (.ok (String.ofList (c :: cs)), { s with rest := [] })
  | [] =>
    match s.pending with
    | [] => (.error (.endOfStream s.line), { s with text := [], rest := [] })
    | .undecodable :: pending =>
      (.error (.access .invalidText),
        { s with pending, fetched := s.fetched + 1, text := [], rest := [] })
    | .text chars :: pending =>
      (.ok (String.ofList chars),
        { pending, fetched := s.fetched + 1, line := s.line + 1, text := chars, rest := [] })

end Source

end ModuleSource
