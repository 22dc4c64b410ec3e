import ModuleSource.Name.Lexicon

/-!
Packed flag words, spelt as names joined by bars. A layout first spells bit fields, then at most one
group of bits that are all set, whose bits are then taken away, then single flags. Bits that no part
of the layout covers are left out, and a word without anything to spell is `0`.
-/

namespace ModuleSource

/-- How a value of a bit field that is not zero is spelt. -/
inductive FieldStyle where
  /-- The name, and the value in brackets. -/
  | applied (name : String)
  /-- The entity of that number. -/
  | entity (kind : Entity)
  /-- The name, and the entity in brackets. -/
  | appliedTo (name : String) (kind : Entity)
  /-- One of the names, the first for the value one; a value past them is a number. -/
  | oneOf (names : List String)
deriving DecidableEq

structure BitField where
  mask : UInt64
  shift : UInt64
  style : FieldStyle
  /-- A value with a name of its own. -/
  special : Option (UInt64 × String) := none
deriving DecidableEq

namespace BitField

def value (field : BitField) (word : UInt64) : UInt64 := (word &&& field.mask) >>> field.shift

/-- The greatest number that an entity can have. -/
def maxIndex : Nat := 0x7FFFFFFFFFFFFFFF

def spellValue (style : FieldStyle) (lexicon : Lexicon) (value : Nat) : String :=
  let index : Int := min value maxIndex
  match style with
  | .applied name => name ++ "(" ++ toString value ++ ")"
  | .entity kind => lexicon.spell kind index
  | .appliedTo name kind => name ++ "(" ++ lexicon.spell kind index ++ ")"
  | .oneOf names => (names[value - 1]?).getD (toString value)

def spell (field : BitField) (lexicon : Lexicon) (word : UInt64) : Option String :=
  let value := field.value word
  if value = 0 then none
  else match field.special with
    | some (number, name) =>
      if value = number then some name else some (spellValue field.style lexicon value.toNat)
    | none => some (spellValue field.style lexicon value.toNat)

end BitField

structure FlagLayout where
  fields : List BitField := []
  /-- Groups of bits; the first group whose bits are all set is spelt. -/
  groups : List (UInt64 × String) := []
  flags : List (UInt64 × String) := []
deriving DecidableEq

namespace FlagLayout

def group? (layout : FlagLayout) (word : UInt64) : Option (UInt64 × String) :=
  layout.groups.find? fun (mask, _) => word &&& mask == mask

/-- The names of a word, in the order in which they are written. -/
def names (layout : FlagLayout) (lexicon : Lexicon) (word : UInt64) : List String :=
  let fields := layout.fields.filterMap (·.spell lexicon word)
  let (group, rest) :=
    match layout.group? word with
    | some (mask, name) => ([name], word &&& ~~~mask)
    | none => ([], word)
  let flags := (layout.flags.filter fun (mask, _) => rest &&& mask != 0).map Prod.snd
  fields ++ group ++ flags

/-- Names joined by bars, `0` if there are none. -/
def join (names : List String) : String :=
  if names.isEmpty then "0" else String.intercalate "|" names

def spell (layout : FlagLayout) (lexicon : Lexicon) (word : UInt64) : String :=
  join (layout.names lexicon word)

end FlagLayout

end ModuleSource
