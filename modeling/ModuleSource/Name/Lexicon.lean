import ModuleSource.Name.Entity

/-!
Names of entities by number. A number without a name is written as it is, since the places that hold
references also hold plain numbers.
-/

namespace ModuleSource

abbrev NameTable := Array String

namespace NameTable

def get? (table : NameTable) (index : Int) : Option String :=
  match index with
  | .ofNat i => table[i]?
  | .negSucc _ => none

/-- The tagged name at an index, or the index itself. -/
def spell (table : NameTable) (tag : String) (index : Int) : String :=
  match table.get? index with
  | some name => tag ++ name
  | none => toString index

end NameTable

/-- The names of every kind of entity. -/
structure Lexicon where
  table : Entity → NameTable

namespace Lexicon

def empty : Lexicon := ⟨fun _ => #[]⟩

def insert (lexicon : Lexicon) (entity : Entity) (names : NameTable) : Lexicon :=
  ⟨fun e => if e = entity then names else lexicon.table e⟩

def spell (lexicon : Lexicon) (entity : Entity) (index : Int) : String :=
  (lexicon.table entity).spell entity.tag index

end Lexicon

end ModuleSource
