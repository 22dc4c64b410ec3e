import ModuleSource.Disk.Path
import ModuleSource.Source.Error

/-!
The files and directories of a system, without links. A location is the list of names from the root;
a path leads to one from the working directory, if everything on the way is a directory. The system
limits the bytes of a name and those of a path, and takes no path with a null character. A file may
be one that is not to be written.
-/

namespace ModuleSource

abbrev Location := List String

/-- The most bytes that a name can have. -/
def maxNameBytes : Nat := 255

/-- The most bytes that a path can have. -/
def maxPathBytes : Nat := 4095

/-- Refuses a path that the system does not take, wherever it leads. -/
def Path.accept (path : Path) : Except AccessFailure Unit :=
  if path.text.toList.contains '\x00' then .error .nulInName
  else if maxPathBytes < path.text.utf8ByteSize then .error .nameTooLong
  else .ok ()

/-- The path of a location from the root. -/
def Path.ofLocation (location : Location) : Path := ⟨"/" ++ String.intercalate "/" location⟩

inductive Entry where
  | file (bytes : ByteArray) (readOnly : Bool := false)
  | directory

instance : DecidableEq Entry
  | .directory, .directory => isTrue rfl
  | .directory, .file .. => isFalse nofun
  | .file .., .directory => isFalse nofun
  | .file a x, .file b y =>
    match ByteArray.instDecidableEq a b, decEq x y with
    | isTrue h, isTrue h' => isTrue (h ▸ h' ▸ rfl)
    | isFalse h, _ => isFalse fun e => h (Entry.file.inj e).1
    | _, isFalse h => isFalse fun e => h (Entry.file.inj e).2

structure Disk where
  entries : List (Location × Entry)
  here : Location
deriving DecidableEq

namespace Disk

/-- The root is always there. -/
def get? (disk : Disk) (location : Location) : Option Entry :=
  if location.isEmpty then some .directory else disk.entries.lookup location

/-- Puts an entry at a location, in the place of the one that was there. -/
def insertEntry (location : Location) (entry : Entry) :
    List (Location × Entry) → List (Location × Entry)
  | [] => [(location, entry)]
  | (other, found) :: rest =>
    if other = location then (location, entry) :: rest
    else (other, found) :: insertEntry location entry rest

def insert (disk : Disk) (location : Location) (entry : Entry) : Disk :=
  { disk with entries := insertEntry location entry disk.entries }

/-- One step of a path. The place it starts from has to be a directory, which is seen before the
length of the name. -/
def step (disk : Disk) (location : Location) (segment : String) : Except AccessFailure Location :=
  match disk.get? location with
  | none => .error .notFound
  | some (.file ..) => .error .notADirectory
  | some .directory =>
    if segment = "." then .ok location
    else if segment = ".." then .ok location.dropLast
    else if maxNameBytes < segment.utf8ByteSize then .error .nameTooLong
    else .ok (location ++ [segment])

def start (disk : Disk) (path : Path) : Location :=
  if path.isAbsolute then [] else disk.here

def walk (disk : Disk) (start : Location) (segments : List String) :
    Except AccessFailure Location :=
  segments.foldlM disk.step start

/-- Where a path leads, whether or not something is there. The empty path leads nowhere, and a path
that ends in a slash only to a directory. -/
def reach (disk : Disk) (path : Path) : Except AccessFailure Location :=
  if path.text.isEmpty then .error .notFound
  else disk.walk (disk.start path) (path.segments ++ if path.endsInSlash then ["."] else [])

/-- Where a path leads that is given to the system as a whole. -/
def locate (disk : Disk) (path : Path) : Except AccessFailure Location :=
  match path.accept with
  | .error e => .error e
  | .ok () => disk.reach path

/-- What is at the end of a path, with its location. -/
def find (disk : Disk) (path : Path) : Except AccessFailure (Location × Entry) :=
  match disk.locate path with
  | .error e => .error e
  | .ok location =>
    match disk.get? location with
    | some entry => .ok (location, entry)
    | none => .error .notFound

def isFile (disk : Disk) (path : Path) : Bool :=
  match disk.find path with
  | .ok (_, .file ..) => true
  | _ => false

def isDirectory (disk : Disk) (path : Path) : Bool :=
  match disk.find path with
  | .ok (_, .directory) => true
  | _ => false

/-- The bytes of a file. -/
def read (disk : Disk) (path : Path) : Except AccessFailure ByteArray :=
  match disk.find path with
  | .error e => .error e
  | .ok (_, .directory) => .error .isADirectory
  | .ok (_, .file bytes _) => .ok bytes

/-- One step on the way to the path that a thing has from the root. What a name leads to is looked
up by that path, which has to be one that the system takes. -/
def resolveStep (disk : Disk) (location : Location) (segment : String) :
    Except AccessFailure Location :=
  match disk.step location segment with
  | .error e => .error e
  | .ok next =>
    if location.length < next.length ∧ maxPathBytes < (Path.ofLocation next).text.utf8ByteSize then
      .error .nameTooLong
    else .ok next

/-- Where a path leads, if it can be followed by paths from the root. Its own length does not
matter, but that of its end and of every place on the way does. -/
def resolve (disk : Disk) (path : Path) : Except AccessFailure Location :=
  if path.text.isEmpty then .error .notFound
  else
    (path.segments ++ if path.endsInSlash then ["."] else []).foldlM disk.resolveStep
      (disk.start path)

/-- Whether two paths are seen to lead to the same thing. Where one of them cannot be resolved, they
are taken for different. -/
def same (disk : Disk) (a b : Path) : Bool :=
  match disk.resolve a, disk.resolve b with
  | .ok x, .ok y => x == y && (disk.get? x).isSome
  | _, _ => false

/-- Writes a file as a whole, or changes nothing. -/
def write (disk : Disk) (path : Path) (bytes : ByteArray) (readOnly : Bool := false) :
    Except AccessFailure Disk :=
  match disk.locate path with
  | .error e => .error e
  | .ok location =>
    match disk.get? location with
    | some .directory => .error .isADirectory
    | some (.file _ true) => .error .permissionDenied
    | _ => .ok (disk.insert location (.file bytes readOnly))

/-- Copies the file at a location to the end of a path, and with it whether it may be written, or
changes nothing. The copy is emptied before it is filled, so a file is lost that is copied to its
own place. -/
def copy (disk : Disk) (origin : Location) (bytes : ByteArray) (readOnly : Bool) (target : Path) :
    Except AccessFailure Disk :=
  let bytes := if (disk.locate target).toOption = some origin then .empty else bytes
  disk.write target bytes readOnly

/-- A name such as files have before they are complete. -/
def passingName : String := ".tmp000000"

/-- A path from the root. -/
def fromRoot (disk : Disk) (path : Path) : Path :=
  if path.isAbsolute then path else (Path.ofLocation disk.here).join path.text

/-- What goes wrong with a file in passing for reasons that the disk does not show, such as want of
room: when it is made, when it is filled, where it has got some of its bytes, and when it is given
its name. -/
structure Mishaps where
  create : Option AccessFailure := none
  fill : Option (AccessFailure × ByteArray) := none
  rename : Option AccessFailure := none

/-- Puts a file in the place of what is at the end of a path, unless that is a directory. -/
def replace (disk : Disk) (path : Path) (bytes : ByteArray) : Except AccessFailure Disk :=
  match disk.locate path with
  | .error e => .error e
  | .ok location =>
    if disk.get? location = some .directory then .error .isADirectory
    else .ok (disk.insert location (.file bytes))

/-- Puts a complete file into a directory, or changes nothing. The file has a passing name at first,
by a path from the root, which has to be a path that the system takes. -/
def publish (disk : Disk) (directory : Path) (name : String) (bytes : ByteArray)
    (mishaps : Mishaps := {}) : Except AccessFailure Disk :=
  match mishaps.create, ((disk.fromRoot directory).join passingName).accept,
    disk.reach (directory.join passingName), mishaps.fill, mishaps.rename with
  | some e, _, _, _, _ => .error e
  | none, .error e, _, _, _ => .error e
  | none, .ok (), .error e, _, _ => .error e
  | none, .ok (), .ok _, some (e, _), _ => .error e
  | none, .ok (), .ok _, none, some e => .error e
  | none, .ok (), .ok _, none, none => disk.replace (directory.join name) bytes

/-- Makes one directory. What is there already, and a path that ends in dots, exists. -/
def makeDirectory (disk : Disk) (start : Location) (segments : List String) :
    Except AccessFailure Disk :=
  match disk.walk start segments with
  | .error e => .error e
  | .ok location =>
    if segments.getLast? = some "." ∨ segments.getLast? = some ".." then .error .alreadyExists
    else if (disk.get? location).isSome then .error .alreadyExists
    else .ok (disk.insert location .directory)

/-- Makes a directory unless it is there, after the directories that it lies in if one of them is
missing. `before` holds the components of its parent, the last first. -/
def makeWithParents (disk : Disk) (start : Location) (segments : List String) :
    (before : List String) → Except AccessFailure Unit × Disk
  | [] => attempt disk
  | last :: before =>
    match disk.makeDirectory start segments with
    | .error .notFound =>
      match disk.makeWithParents start (last :: before).reverse before with
      | (.error e, disk) => (.error e, disk)
      | (.ok (), disk) => attempt disk
    | _ => attempt disk
where
  attempt (disk : Disk) : Except AccessFailure Unit × Disk :=
    match disk.makeDirectory start segments with
    | .ok disk => (.ok (), disk)
    | .error e =>
      match disk.walk start (segments ++ ["."]) with
      | .ok _ => (.ok (), disk)
      | .error _ => (.error e, disk)

/-- Makes a directory and all that it lies in. Those made before a failure stay. -/
def makeDirectories (disk : Disk) (path : Path) : Except AccessFailure Unit × Disk :=
  if path.text.isEmpty then (.ok (), disk)
  else
    match path.accept with
    | .error e => (.error e, disk)
    | .ok () => disk.makeWithParents (disk.start path) path.segments path.components.reverse.tail

/-- Whether a directory has nothing in it. -/
def isEmptyAt (disk : Disk) (location : Location) : Bool :=
  disk.entries.all fun (other, _) => other.dropLast ≠ location

/-- What there is to tell of a location that has changed. -/
inductive Change where
  | file (bytes : ByteArray)
  | directory

/-- The files that were not there before or had other contents, and the new directories that are
empty. -/
def changesSince (disk before : Disk) : List (Location × Change) :=
  disk.entries.filterMap fun (location, entry) =>
    match entry, before.get? location with
    | .file bytes _, some (.file old _) =>
      if Entry.file bytes = .file old then none else some (location, .file bytes)
    | .file bytes _, _ => some (location, .file bytes)
    | .directory, none => if disk.isEmptyAt location then some (location, .directory) else none
    | .directory, some _ => none

end Disk

end ModuleSource
