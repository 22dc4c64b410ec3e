/-!
Lines. The physical lines of a file are the pieces between line feeds; a file that ends in a line
feed has no further, empty line.
-/

namespace ModuleSource.Text

/-- The pieces of a list that its breaks end; the last one may lack its break, and is then not
empty. -/
def breakAt {α : Type} (isBreak : α → Bool) : List α → List (List α) :=
  go []
where
  go (piece : List α) : List α → List (List α)
    | [] => if piece.isEmpty then [] else [piece.reverse]
    | a :: rest => if isBreak a then piece.reverse :: go [] rest else go (a :: piece) rest

def lineFeed : UInt8 := 0x0A

/-- The byte order mark, as a character. -/
def byteOrderMark : Char := '\uFEFF'

/-- The text without one byte order mark at its start. -/
def dropMark : List Char → List Char
  | [] => []
  | c :: cs => if c = byteOrderMark then cs else c :: cs

/-- The text without the carriage returns at its end. -/
def dropReturns (cs : List Char) : List Char :=
  (cs.reverse.dropWhile (· == '\r')).reverse

/-- The lines of a text. A line feed ends a line, and one carriage return before it belongs to the
ending; a last line without a line feed is kept as it stands. -/
def lines (cs : List Char) : List (List Char) :=
  go [] cs
where
  go (line : List Char) : List Char → List (List Char)
    | [] => if line.isEmpty then [] else [line.reverse]
    | '\n' :: rest => (dropReturn line).reverse :: go [] rest
    | c :: rest => go (c :: line) rest
  dropReturn : List Char → List Char
    | '\r' :: line => line
    | line => line

/-- The characters that a run of bytes encodes in UTF-8. -/
def decode? (bytes : List UInt8) : Option (List Char) :=
  (String.fromUTF8? ⟨bytes.toArray⟩).map String.toList

end ModuleSource.Text
