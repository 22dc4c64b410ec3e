import ModuleSource.Text.Line

/-!
Paths as they are written. A path is its text; joining keeps the text, and only the ways to take a
path apart look past doubled slashes and single dots.
-/

namespace ModuleSource

structure Path where
  text : String
deriving DecidableEq

namespace Path

/-- The pieces between slashes, empty ones left out. -/
def segments (path : Path) : List String :=
  ((Text.breakAt (· == '/') path.text.toList).filter (!·.isEmpty)).map String.ofList

def isAbsolute (path : Path) : Bool := path.text.toList.head? == some '/'

def endsInSlash (path : Path) : Bool := path.text.toList.getLast? == some '/'

/-- A name below a directory. The empty path adds nothing to it. -/
def join (path : Path) (name : String) : Path :=
  if path.text.isEmpty then ⟨name⟩
  else if path.endsInSlash then ⟨path.text ++ name⟩
  else ⟨path.text ++ "/" ++ name⟩

/-- The segments that count: a single dot does so only at the start of a relative path. -/
def components (path : Path) : List String :=
  match path.segments with
  | [] => []
  | first :: rest =>
    (if first = "." ∧ path.isAbsolute then [] else [first]) ++ rest.filter (· ≠ ".")

/-- The last component, if it is a name. -/
def leaf? (path : Path) : Option String :=
  path.components.getLast?.filter fun name => name ≠ "." ∧ name ≠ ".."

/-- What stands before the pieces of a path: the slash of an absolute one, or the dot that a
relative one starts with. -/
def lead (path : Path) : List Char :=
  if path.isAbsolute then ['/']
  else if path.segments.head? = some "." then ['.']
  else []

/-- Whether a piece between slashes leads nowhere else. -/
def isIdle (piece : List Char) : Bool := piece.isEmpty || piece == ['.']

/-- The text before the last component, without the slashes and single dots at its end. Those
further to the front stay as they are written. -/
def parent? (path : Path) : Option Path :=
  let pieces := Text.breakAt (· == '/') (path.text.toList.drop path.lead.length)
  match pieces.reverse.dropWhile isIdle with
  | [] => if path.lead = ['.'] then some ⟨""⟩ else none
  | _ :: before =>
    let kept := (before.dropWhile isIdle).reverse
    some ⟨String.ofList (path.lead ++ ['/'].intercalate kept)⟩

end Path

end ModuleSource
