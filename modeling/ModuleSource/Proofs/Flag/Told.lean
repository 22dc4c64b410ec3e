import ModuleSource.Flag.Basic
import ModuleSource.Proofs.Statement.Invocation

/-!
What the spelling of a flag word tells. Each part of a layout has a rule of its own: a bit field
that is not zero is told by its value, the first group whose bits are all set is told and taken
away, and of what remains each flag that has a bit in it is told. The spelling follows these rules.
-/

namespace ModuleSource

/-- How a value of a bit field is told. An index past the greatest one stands for that one. -/
inductive FieldStyle.Told (lexicon : Lexicon) : FieldStyle → Nat → String → Prop
  | applied {name : String} {value : Nat} :
    Told lexicon (.applied name) value (name ++ "(" ++ toString value ++ ")")
  | entity {kind : Entity} {value : Nat} {text : String}
    (resolved : lexicon.Resolves kind (min value 0x7FFFFFFFFFFFFFFF : Nat) text) :
    Told lexicon (.entity kind) value text
  | appliedTo {name : String} {kind : Entity} {value : Nat} {text : String}
    (resolved : lexicon.Resolves kind (min value 0x7FFFFFFFFFFFFFFF : Nat) text) :
    Told lexicon (.appliedTo name kind) value (name ++ "(" ++ text ++ ")")
  | listed {names : List String} {i : Nat} {name : String} (found : names[i]? = some name) :
    Told lexicon (.oneOf names) (i + 1) name
  | unlisted {names : List String} {value : Nat} (past : names.length < value) :
    Told lexicon (.oneOf names) value (toString value)

/-- The texts of a bit field: none if it is zero, and otherwise one. -/
inductive BitField.Told (field : BitField) (lexicon : Lexicon) (word : UInt64) :
    List String → Prop
  | zero (value_eq : (word &&& field.mask) >>> field.shift = 0) : Told field lexicon word []
  | special {name : String} (value_ne : (word &&& field.mask) >>> field.shift ≠ 0)
    (named : field.special = some ((word &&& field.mask) >>> field.shift, name)) :
    Told field lexicon word [name]
  | styled {text : String} (value_ne : (word &&& field.mask) >>> field.shift ≠ 0)
    (unnamed : ∀ name, field.special ≠ some ((word &&& field.mask) >>> field.shift, name))
    (told : field.style.Told lexicon ((word &&& field.mask) >>> field.shift).toNat text) :
    Told field lexicon word [text]

/-- The first group whose bits are all set, with what is left of the word without them. -/
inductive GroupTold (word : UInt64) : List (UInt64 × String) → List String → UInt64 → Prop
  | none {groups : List (UInt64 × String)} (unset : ∀ group ∈ groups, word &&& group.1 ≠ group.1) :
    GroupTold word groups [] word
  | first {before after : List (UInt64 × String)} {mask : UInt64} {name : String}
    (unset : ∀ group ∈ before, word &&& group.1 ≠ group.1) (set : word &&& mask = mask) :
    GroupTold word (before ++ (mask, name) :: after) [name] (word &&& ~~~mask)

/-- The flags that have a bit in the word. -/
inductive FlagsTold (word : UInt64) : List (UInt64 × String) → List String → Prop
  | nil : FlagsTold word [] []
  | set {mask : UInt64} {name : String} {flags : List (UInt64 × String)} {names : List String}
    (met : word &&& mask ≠ 0) (tail : FlagsTold word flags names) :
    FlagsTold word ((mask, name) :: flags) (name :: names)
  | unset {mask : UInt64} {name : String} {flags : List (UInt64 × String)} {names : List String}
    (missed : word &&& mask = 0) (tail : FlagsTold word flags names) :
    FlagsTold word ((mask, name) :: flags) names

/-- Names between bars, or a nought for none. -/
inductive Barred : List String → String → Prop
  | none : Barred [] "0"
  | some {names : List String} (ne_nil : names ≠ []) : Barred names (String.intercalate "|" names)

/-- The spelling of a word: its fields in order, at most one group, and the flags in what the group
leaves. -/
inductive FlagLayout.Told (layout : FlagLayout) (lexicon : Lexicon) (word : UInt64) :
    String → Prop
  | mk {fields : List (List String)} {group flags : List String} {rest : UInt64} {text : String}
    (fields_told : List.Forall₂ (fun field texts => field.Told lexicon word texts) layout.fields
      fields)
    (group_told : GroupTold word layout.groups group rest)
    (flags_told : FlagsTold rest layout.flags flags)
    (barred : Barred (fields.flatten ++ group ++ flags) text) : Told layout lexicon word text

theorem BitField.told_spellValue (style : FieldStyle) (lexicon : Lexicon) {value : Nat}
    (hpos : value ≠ 0) : style.Told lexicon value (spellValue style lexicon value) := by
  have hindex : min (value : Int) maxIndex = ((min value 0x7FFFFFFFFFFFFFFF : Nat) : Int) := by
    unfold maxIndex
    omega
  cases style with
  | applied name => exact .applied
  | entity kind =>
    rw [spellValue, hindex]
    exact .entity (lexicon.resolves_spell kind _)
  | appliedTo name kind =>
    rw [spellValue, hindex]
    exact .appliedTo (lexicon.resolves_spell kind _)
  | oneOf names =>
    obtain ⟨i, rfl⟩ := Nat.exists_eq_succ_of_ne_zero hpos
    rw [spellValue, Nat.succ_sub_one]
    cases hget : names[i]? with
    | some name => exact .listed hget
    | none => exact .unlisted (Nat.lt_succ_of_le (List.getElem?_eq_none_iff.mp hget))

theorem BitField.told_spell (field : BitField) (lexicon : Lexicon) (word : UInt64) :
    field.Told lexicon word (field.spell lexicon word).toList := by
  unfold spell value
  by_cases hzero : (word &&& field.mask) >>> field.shift = 0
  · rw [if_pos hzero]
    exact .zero hzero
  have hpos : ((word &&& field.mask) >>> field.shift).toNat ≠ 0 :=
    fun h => hzero (UInt64.toNat_inj.mp h)
  have htold := told_spellValue field.style lexicon hpos
  rw [if_neg hzero]
  cases hspecial : field.special with
  | none => exact .styled hzero (by simp [hspecial]) htold
  | some named =>
    obtain ⟨number, name⟩ := named
    dsimp only
    split
    · next heq => exact .special hzero (by rw [hspecial, heq])
    · next hne => exact .styled hzero (by simp [hspecial, Ne.symm hne]) htold

theorem flagsTold_filter (word : UInt64) (flags : List (UInt64 × String)) :
    FlagsTold word flags ((flags.filter fun (mask, _) => word &&& mask != 0).map Prod.snd) := by
  induction flags with
  | nil => exact .nil
  | cons flag flags ih =>
    obtain ⟨mask, name⟩ := flag
    by_cases hmissed : word &&& mask = 0
    · rw [List.filter_cons_of_neg (by simp [hmissed])]
      exact .unset hmissed ih
    · rw [List.filter_cons_of_pos (by simp [hmissed])]
      exact .set hmissed ih

theorem barred_join (names : List String) : Barred names (FlagLayout.join names) := by
  unfold FlagLayout.join
  cases names with
  | nil => exact .none
  | cons name names => exact .some (List.cons_ne_nil name names)

theorem FlagLayout.told_spell (layout : FlagLayout) (lexicon : Lexicon) (word : UInt64) :
    layout.Told lexicon word (layout.spell lexicon word) := by
  have hfields := Decoder.forall₂_map_self (R := fun (field : BitField) texts =>
    field.Told lexicon word texts) (fun field => field.told_spell lexicon word) layout.fields
  have hflatten : (layout.fields.map fun field => (field.spell lexicon word).toList).flatten =
      layout.fields.filterMap (·.spell lexicon word) := by
    rw [← List.flatMap_def, List.filterMap_eq_flatMap_toList]
  unfold spell names
  rw [← hflatten]
  cases hgroup : layout.group? word with
  | none =>
    have hunset : ∀ group ∈ layout.groups, word &&& group.1 ≠ group.1 := by
      simpa [group?] using hgroup
    exact .mk hfields (.none hunset) (flagsTold_filter word layout.flags) (barred_join _)
  | some group =>
    obtain ⟨mask, name⟩ := group
    obtain ⟨hset, before, after, hsplit, hunset⟩ := List.find?_eq_some_iff_append.mp hgroup
    have htold : GroupTold word layout.groups [name] (word &&& ~~~mask) := by
      rw [hsplit]
      exact .first (by simpa using hunset) (by simpa using hset)
    exact .mk hfields htold (flagsTold_filter _ layout.flags) (barred_join _)

end ModuleSource
