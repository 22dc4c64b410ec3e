import ModuleSource.Proofs.Flag.Parts

/-!
A flag word is spelt by the bits that its layout covers. The masks of a layout may overlap in any
way: fields and groups are read from the whole word, flags from what the group leaves of it. Words
that agree on every mask go through these stages in step, and a word without a covered bit is spelt
as the word zero is.
-/

namespace ModuleSource

theorem BitField.spell_congr {field : BitField} {a b : UInt64} (lexicon : Lexicon)
    (h : a &&& field.mask = b &&& field.mask) : field.spell lexicon a = field.spell lexicon b := by
  apply spell_of_value_eq
  rw [value, value, h]

theorem BitField.spell_zero (field : BitField) (lexicon : Lexicon) :
    field.spell lexicon 0 = none := by
  rw [spell_eq_none_iff, value, UInt64.zero_and, UInt64.zero_shiftRight]

namespace FlagLayout

/-- The first group without bits, which is set in every word. -/
def emptyGroup? (layout : FlagLayout) : Option (UInt64 × String) :=
  layout.groups.find? fun group => group.1 = 0

variable {layout : FlagLayout} {a b : UInt64}

theorem emptyGroup?_eq_none (h : ∀ group ∈ layout.groups, group.1 ≠ 0) :
    layout.emptyGroup? = none := by
  rw [emptyGroup?, List.find?_eq_none]
  simpa using h

theorem names_congr (lexicon : Lexicon) (h : a &&& layout.covered = b &&& layout.covered) :
    layout.names lexicon a = layout.names lexicon b := by
  obtain ⟨hfields, hgroups, hflags⟩ := and_covered_eq_iff.mp h
  have hspelt : layout.fields.filterMap (·.spell lexicon a) =
      layout.fields.filterMap (·.spell lexicon b) :=
    List.filterMap_congr fun field hfield => field.spell_congr lexicon (hfields field hfield)
  rw [names_eq_append_chosen, names_eq_append_chosen, hspelt, chosen_congr hgroups hflags]

theorem group?_zero (layout : FlagLayout) : layout.group? 0 = layout.emptyGroup? := by
  apply List.find?_congr
  intro group _
  change (0 &&& group.1 == group.1) = decide (group.1 = 0)
  rw [UInt64.zero_and, beq_eq_decide, decide_eq_decide]
  exact eq_comm

theorem remainder_zero (layout : FlagLayout) : layout.remainder 0 = 0 := by
  rw [remainder]
  cases layout.group? 0 with
  | none => rfl
  | some group => exact UInt64.zero_and

/-- The word zero has no bits to name, but has all bits of a group without any. -/
theorem names_zero (layout : FlagLayout) (lexicon : Lexicon) :
    layout.names lexicon 0 = layout.emptyGroup?.toList.map Prod.snd := by
  have hfields : layout.fields.filterMap (·.spell lexicon 0) = [] :=
    List.filterMap_eq_nil_iff.mpr fun field _ => field.spell_zero lexicon
  have hflags : (layout.flags.filter fun flag => layout.remainder 0 &&& flag.1 != 0) = [] := by
    apply List.filter_eq_nil_iff.mpr
    intro flag _
    rw [remainder_zero, UInt64.zero_and]
    decide
  rw [names_eq_append_chosen, hfields, chosen, hflags, group?_zero, List.append_nil,
    List.nil_append]

theorem spell_zero (layout : FlagLayout) (lexicon : Lexicon) :
    layout.spell lexicon 0 = layout.emptyGroup?.elim "0" Prod.snd := by
  rw [spell, names_zero]
  cases layout.emptyGroup? with
  | none => rfl
  | some group => rfl

/-- Nothing is named of a word exactly if its fields are zero, no group is set as a whole and no
flag is met. -/
theorem names_eq_nil_iff (lexicon : Lexicon) (word : UInt64) :
    layout.names lexicon word = [] ↔
      (∀ field ∈ layout.fields, field.value word = 0) ∧
        (∀ group ∈ layout.groups, word &&& group.1 ≠ group.1) ∧
        ∀ flag ∈ layout.flags, word &&& flag.1 = 0 := by
  have hfields : layout.fields.filterMap (·.spell lexicon word) = [] ↔
      ∀ field ∈ layout.fields, field.value word = 0 := by
    simp only [List.filterMap_eq_nil_iff, BitField.spell_eq_none_iff]
  have hgroup : layout.group? word = none ↔
      ∀ group ∈ layout.groups, word &&& group.1 ≠ group.1 := by
    simp only [group?, List.find?_eq_none, beq_iff_eq, ne_eq]
  rw [names_eq_append_chosen, List.append_eq_nil_iff, hfields, List.map_eq_nil_iff, chosen,
    List.append_eq_nil_iff, Option.toList_eq_nil_iff, ← hgroup]
  refine and_congr_right fun _ => and_congr_right fun hnone => ?_
  -- Without a group the flags are looked for in the whole word.
  have hrest : layout.remainder word = word := by
    rw [remainder, hnone]
    rfl
  simp only [hrest, List.filter_eq_nil_iff, bne_iff_ne, ne_eq, not_not]

/-- The spelling of a word is told by its covered bits, for fields, groups and flags that may share
bits in any way. Without a covered bit it is the name of the first group without bits, and `0` where
there is no such group. In general nothing is named exactly if the fields are zero, no group is set
as a whole and no flag is met. -/
theorem spell_of_covered_bits (layout : FlagLayout) (lexicon : Lexicon) :
    (∀ a b, a &&& layout.covered = b &&& layout.covered →
      layout.spell lexicon a = layout.spell lexicon b) ∧
    (∀ word, word &&& layout.covered = 0 →
      layout.spell lexicon word = layout.emptyGroup?.elim "0" Prod.snd ∧
      ((∀ group ∈ layout.groups, group.1 ≠ 0) → layout.spell lexicon word = "0")) ∧
    ∀ word, layout.names lexicon word = [] ↔
      (∀ field ∈ layout.fields, field.value word = 0) ∧
        (∀ group ∈ layout.groups, word &&& group.1 ≠ group.1) ∧
        ∀ flag ∈ layout.flags, word &&& flag.1 = 0 := by
  have hcovered : ∀ a b, a &&& layout.covered = b &&& layout.covered →
      layout.spell lexicon a = layout.spell lexicon b := by
    intro a b hagree
    rw [spell, spell, names_congr lexicon hagree]
  refine ⟨hcovered, fun word huncovered => ?_, names_eq_nil_iff lexicon⟩
  have hspell : layout.spell lexicon word = layout.emptyGroup?.elim "0" Prod.snd := by
    rw [← spell_zero layout lexicon]
    apply hcovered
    rw [huncovered, UInt64.zero_and]
  refine ⟨hspell, fun hgroups => ?_⟩
  rw [hspell, emptyGroup?_eq_none hgroups]
  rfl

/-- Two fields, a group and a flag share bits, and the shift of the second field drops some of its
own. Bits that are not covered change nothing; alone they are spelt as `0`, or as the group without
bits if there is one. -/
theorem spell_of_covered_bits_overlapping :
    let lexicon := Lexicon.empty.insert .troop #["player", "guard", "ramun", "knight"]
    let layout : FlagLayout :=
      { fields := [{ mask := 0xF0, shift := 4, style := .applied "goods" },
          { mask := 0x1F8, shift := 6, style := .appliedTo "other" .troop,
            special := some (7, "anyone") }],
        groups := [(0x30, "both"), (0x10, "low")],
        flags := [(0x18, "wide"), (0x10, "bit_low"), (0x200, "extra")] }
    let withEmpty : FlagLayout := { layout with groups := layout.groups ++ [(0, "none")] }
    layout.covered = 0x3F8 ∧
      layout.spell lexicon 0x2D8 = "goods(13)|other(trp_knight)|low|wide|extra" ∧
      layout.spell lexicon 0x80000000000006DF = layout.spell lexicon 0x2D8 ∧
      layout.spell lexicon 0x8000000000000407 = "0" ∧
      withEmpty.spell lexicon 0x8000000000000407 = "none" := by
  intro lexicon layout withEmpty
  have hcovered : layout.covered = 0x3F8 := by decide
  have hcovered' : withEmpty.covered = 0x3F8 := by decide
  obtain ⟨hagree, huncovered, -⟩ := spell_of_covered_bits layout lexicon
  refine ⟨hcovered, by decide +kernel, ?_, ?_, ?_⟩
  · apply hagree
    rw [hcovered]
    decide
  · exact (huncovered _ (by rw [hcovered]; decide)).2 (by decide)
  · exact ((spell_of_covered_bits withEmpty lexicon).2.1 _ (by rw [hcovered']; decide)).1

end FlagLayout

end ModuleSource
