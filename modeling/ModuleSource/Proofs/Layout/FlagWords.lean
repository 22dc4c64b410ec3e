import ModuleSource.Layout.Dialog
import ModuleSource.Layout.PartyTemplate
import ModuleSource.Proofs.Flag.Parts

/-!
The flag words of parties, spawn points and dialogs, which have bit fields. The texts of the first
two tell every bit that is covered. In a dialog both what the line is repeated for and the partner
may be a bare number, and a single number does not say which of the two it is; that is all that can
be mistaken.
-/

namespace ModuleSource.Layout

open FlagWord

theorem PartyTemplate.discerning_flagLayout :
    flagLayout.Discerning ∧ flagLayout.fronts.Pairwise FrontsApart := by
  decide +kernel

theorem Spawn.discerning_flagLayout :
    flagLayout.Discerning ∧ flagLayout.fronts.Pairwise FrontsApart := by
  decide +kernel

/-- The flags of a party and of a spawn point are spelt alike exactly if they agree on every bit
that is covered: the map icon, the goods, the gold and the flags of the one, the team and the flags
of the other. -/
theorem party_and_spawn_flags_told {lexicon : Lexicon} (h : lexicon.Joinable .mapIcon) :
    (PartyTemplate.flagLayout.covered = 0xFFFF0000067F77FF ∧ ∀ a b : UInt64,
      PartyTemplate.flagLayout.spell lexicon a = PartyTemplate.flagLayout.spell lexicon b ↔
        a &&& 0xFFFF0000067F77FF = b &&& 0xFFFF0000067F77FF) ∧
    (Spawn.flagLayout.covered = 0x030FF7DF ∧ ∀ a b : UInt32,
      Spawn.flagLayout.spell lexicon a.toUInt64 = Spawn.flagLayout.spell lexicon b.toUInt64 ↔
        a &&& 0x030FF7DF = b &&& 0x030FF7DF) := by
  have hparty : PartyTemplate.flagLayout.covered = 0xFFFF0000067F77FF := by decide
  have hspawn : Spawn.flagLayout.covered = (0x030FF7DF : UInt32).toUInt64 := by decide
  obtain ⟨hdiscerning, hapart⟩ := PartyTemplate.discerning_flagLayout
  obtain ⟨hdiscerning', hapart'⟩ := Spawn.discerning_flagLayout
  constructor
  · refine ⟨hparty, fun a b => ?_⟩
    have hlexicon : ∀ kind ∈ PartyTemplate.flagLayout.kinds, lexicon.Joinable kind :=
      List.forall_mem_singleton.mpr h
    rw [← hparty]
    exact hdiscerning.spell_eq_spell_iff hlexicon hapart
  · refine ⟨hspawn, fun a b => ?_⟩
    have hlexicon : ∀ kind ∈ Spawn.flagLayout.kinds, lexicon.Joinable kind :=
      fun kind hkind => (nomatch hkind)
    rw [hdiscerning'.spell_eq_spell_iff hlexicon hapart', hspawn, ← UInt32.toUInt64_and,
      ← UInt32.toUInt64_and, UInt32.toUInt64_inj]

/-- An icon with a name, goods, gold and flags; and a team with flags. A bit that is not covered
makes no difference. -/
theorem party_and_spawn_flags_told_uncovered :
    let lexicon := Lexicon.empty.insert .mapIcon #["player", "gray_knight"]
    lexicon.Joinable .mapIcon ∧
      PartyTemplate.flagLayout.spell lexicon 0x0A05000000004101 =
        "icon_gray_knight|carries_goods(5)|carries_gold(10)|pf_disabled|pf_always_visible" ∧
      PartyTemplate.flagLayout.spell lexicon 0x0A05000000004901 =
        PartyTemplate.flagLayout.spell lexicon 0x0A05000000004101 ∧
      Spawn.flagLayout.spell lexicon 0x8041 = "mtef_team_member_2|mtef_enemy_party|mtef_defenders" ∧
      Spawn.flagLayout.spell lexicon 0x8041 ≠ Spawn.flagLayout.spell lexicon 0x9041 := by
  intro lexicon
  have hlexicon : lexicon.Joinable .mapIcon := ⟨by decide, by decide⟩
  obtain ⟨⟨-, hparty⟩, ⟨-, hspawn⟩⟩ := party_and_spawn_flags_told hlexicon
  refine ⟨hlexicon, by decide +kernel, ?_, by decide +kernel, ?_⟩
  · exact (hparty 0x0A05000000004901 0x0A05000000004101).mpr (by decide)
  · intro heq
    exact absurd ((hspawn 0x8041 0x9041).mp heq) (by decide)

namespace Dialog

/-- What a line is repeated for. -/
def repeatField : BitField := { mask := 0x7000, shift := 12, style := .oneOf repeatNames }

def partnerField : BitField :=
  { mask := 0xFFF, shift := 0, style := .entity .troop, special := some (0xFFF, "anyone") }

/-- The first two fields of the partner word. -/
def whoLayout : FlagLayout := { fields := [repeatField, partnerField] }

/-- The second troop and the flags of the partner word. -/
def restLayout : FlagLayout :=
  { fields := [{ mask := 0xFFF00000, shift := 20, style := .appliedTo "other" .troop }],
    flags := partnerLayout.flags }

/-- The two halves of the partner word can be told, each part of the second half from all others,
and the names of what a line is repeated for from all partners. -/
theorem discerning_halves : whoLayout.Discerning ∧ restLayout.Discerning ∧
    FrontsApart repeatField.nameFronts partnerField.fronts ∧
    ((repeatField.fronts ++ partnerField.fronts) :: restLayout.fronts).Pairwise FrontsApart := by
  decide +kernel

theorem discerning_whoLayout : whoLayout.Discerning := discerning_halves.1

theorem discerning_restLayout : restLayout.Discerning := discerning_halves.2.1

theorem parts_whoLayout (lexicon : Lexicon) :
    whoLayout.parts lexicon = [repeatField.part lexicon, partnerField.part lexicon] := rfl

theorem parts_partnerLayout (lexicon : Lexicon) :
    partnerLayout.parts lexicon = whoLayout.parts lexicon ++ restLayout.parts lexicon := rfl

/-- The parts of the partner word, the first two fields taken together. -/
def mergedParts (lexicon : Lexicon) : List FlagPart :=
  (repeatField.part lexicon).merge (partnerField.part lexicon) :: restLayout.parts lexicon

theorem names_partnerLayout (lexicon : Lexicon) (word : UInt64) :
    partnerLayout.names lexicon word = (mergedParts lexicon).flatMap (·.texts word) := by
  rw [FlagLayout.names_eq_flatMap rfl, parts_partnerLayout, List.flatMap_append, mergedParts,
    List.flatMap_cons, parts_whoLayout, List.flatMap_cons, List.flatMap_singleton]
  rfl

theorem apart_mergedParts (lexicon : Lexicon) :
    ((mergedParts lexicon).map FlagPart.fronts).Pairwise FrontsApart := by
  rw [mergedParts, List.map_cons, FlagLayout.map_fronts_parts]
  exact discerning_halves.2.2.2

section

variable {lexicon : Lexicon} (h : lexicon.Joinable .troop)
include h

theorem whoLayout_spell_eq_iff {a b : UInt64} :
    repeatField.spell lexicon a = repeatField.spell lexicon b ∧
        partnerField.spell lexicon a = partnerField.spell lexicon b ↔
      a &&& 0x7FFF = b &&& 0x7FFF := by
  have hkinds : ∀ kind ∈ whoLayout.kinds, lexicon.Joinable kind := List.forall_mem_singleton.mpr h
  have hcovered : whoLayout.covered = 0x7FFF := by decide
  rw [← hcovered, ← discerning_whoLayout.texts_eq_iff hkinds,
    ← BitField.part_texts_eq_iff, ← BitField.part_texts_eq_iff, parts_whoLayout,
    List.forall_mem_cons, List.forall_mem_singleton]

theorem restLayout_texts_eq_iff {a b : UInt64} :
    (∀ part ∈ restLayout.parts lexicon, part.texts a = part.texts b) ↔
      a &&& 0xFFFF0000 = b &&& 0xFFFF0000 := by
  have hkinds : ∀ kind ∈ restLayout.kinds, lexicon.Joinable kind := List.forall_mem_singleton.mpr h
  have hcovered : restLayout.covered = 0xFFFF0000 := by decide
  rw [← hcovered]
  exact discerning_restLayout.texts_eq_iff hkinds

/-- The texts of the first two fields may be mixed up, the others not. -/
theorem partnerLayout_spell_eq_iff {a b : UInt64} :
    partnerLayout.spell lexicon a = partnerLayout.spell lexicon b ↔
      (repeatField.spell lexicon a).toList ++ (partnerField.spell lexicon a).toList =
        (repeatField.spell lexicon b).toList ++ (partnerField.spell lexicon b).toList ∧
      a &&& 0xFFFF0000 = b &&& 0xFFFF0000 := by
  have hwho : ∀ part ∈ whoLayout.parts lexicon, part.Plain :=
    discerning_whoLayout.plain_parts (List.forall_mem_singleton.mpr h)
  have hrest : ∀ part ∈ restLayout.parts lexicon, part.Plain :=
    discerning_restLayout.plain_parts (List.forall_mem_singleton.mpr h)
  have hplain : ∀ part ∈ mergedParts lexicon, part.Plain := by
    rw [parts_whoLayout, List.forall_mem_cons, List.forall_mem_singleton] at hwho
    obtain ⟨hrepeat, hpartner⟩ := hwho
    exact List.forall_mem_cons.mpr ⟨hrepeat.merge hpartner, hrest⟩
  rw [FlagLayout.spell, FlagLayout.spell, names_partnerLayout, names_partnerLayout,
    FlagPart.join_texts_eq_iff hplain (apart_mergedParts lexicon), ← restLayout_texts_eq_iff h]
  exact List.forall_mem_cons

end

/-- The number of `a` is what its line is repeated for, the same number of `b` is its partner; it
has no name as either, and in all else the two words agree. -/
structure Mistaken (lexicon : Lexicon) (a b : UInt32) : Prop where
  number : ∃ n : UInt32, (n = 6 ∨ n = 7) ∧ (lexicon.table .troop).size ≤ n.toNat ∧
    a &&& 0x7FFF = n <<< (12 : UInt32) ∧ b &&& 0x7FFF = n
  rest : a &&& 0xFFFF0000 = b &&& 0xFFFF0000

variable {lexicon : Lexicon} {a b : UInt32} {text : String}

theorem toUInt64_and_eq_iff (mask : UInt32) :
    a.toUInt64 &&& mask.toUInt64 = b.toUInt64 &&& mask.toUInt64 ↔ a &&& mask = b &&& mask := by
  rw [← UInt32.toUInt64_and, ← UInt32.toUInt64_and, UInt32.toUInt64_inj]

theorem agree_covered_iff : a &&& 0xFFFF7FFF = b &&& 0xFFFF7FFF ↔
    a &&& 0x7FFF = b &&& 0x7FFF ∧ a &&& 0xFFFF0000 = b &&& 0xFFFF0000 := by
  have hunion := and_union_eq_iff [0x7FFF, 0xFFFF0000] (a := a.toUInt64) (b := b.toUInt64)
  rw [List.forall_mem_cons, List.forall_mem_singleton] at hunion
  rw [← toUInt64_and_eq_iff, ← toUInt64_and_eq_iff, ← toUInt64_and_eq_iff]
  exact hunion

/-- The first fields of a word are spelt as a number without a name exactly if it is there, and
nothing else. -/
theorem spell_number_iff (h : lexicon.Joinable .troop) {n : UInt32} (hn : n = 6 ∨ n = 7)
    (hsize : (lexicon.table .troop).size ≤ n.toNat) :
    (repeatField.spell lexicon a.toUInt64 = some (toString n.toNat) ∧
        partnerField.spell lexicon a.toUInt64 = none ↔
      a &&& 0x7FFF = n <<< (12 : UInt32)) ∧
    (repeatField.spell lexicon a.toUInt64 = none ∧
        partnerField.spell lexicon a.toUInt64 = some (toString n.toNat) ↔
      a &&& 0x7FFF = n) := by
  have hget : (lexicon.table .troop).get? n.toNat = none := Array.getElem?_eq_none hsize
  have htroop : lexicon.spell .troop n.toNat = toString n.toNat := Lexicon.spell_of_get?_none hget
  have hagree (bits : UInt32) (hbits : bits &&& 0x7FFF = bits) :
      repeatField.spell lexicon a.toUInt64 = repeatField.spell lexicon bits.toUInt64 ∧
          partnerField.spell lexicon a.toUInt64 = partnerField.spell lexicon bits.toUInt64 ↔
        a &&& 0x7FFF = bits := by
    rw [whoLayout_spell_eq_iff h]
    nth_rewrite 2 [← hbits]
    exact toUInt64_and_eq_iff 0x7FFF
  rcases hn with rfl | rfl
  · refine ⟨hagree 0x6000 (by decide), ?_⟩
    rw [← htroop]
    exact hagree 6 (by decide)
  · refine ⟨hagree 0x7000 (by decide), ?_⟩
    rw [← htroop]
    exact hagree 7 (by decide)

/-- A text that is the repeat selector of one word and the partner of another is a number without a
name. -/
theorem exists_number (hrepeat : repeatField.spell lexicon a.toUInt64 = some text)
    (hpartner : partnerField.spell lexicon b.toUInt64 = some text) :
    ∃ n : UInt32, (n = 6 ∨ n = 7) ∧ (lexicon.table .troop).size ≤ n.toNat ∧
      text = toString n.toNat := by
  have hfields := discerning_whoLayout.fields
  have hfield : repeatField.Discerning := hfields _ List.mem_cons_self
  have hfield' : partnerField.Discerning := hfields _ (List.mem_cons_of_mem _ List.mem_cons_self)
  obtain ⟨-, -, hapart, -⟩ := discerning_halves
  rcases hfield.startsIn_or_numeral hrepeat with hnamed | ⟨hpast, htext⟩
  · exact absurd rfl (hapart.ne hnamed (hfield'.startsIn_fronts hpartner))
  · rcases hfield'.startsIn_or_numeral hpartner with hnamed | ⟨hsize, htext'⟩
    · rw [htext] at hnamed
      exact absurd rfl (hfield'.apart.ne hnamed (startsIn_toString _))
    · have hvalue : (repeatField.value a.toUInt64).toNat = (partnerField.value b.toUInt64).toNat :=
        Text.toString_nat_inj (htext.symm.trans htext')
      have hlimit : (repeatField.value a.toUInt64).toNat ≤ 7 := repeatField.toNat_value_le _
      have hlength : 5 < (repeatField.value a.toUInt64).toNat := hpast
      have htroop : (lexicon.table .troop).size ≤ (partnerField.value b.toUInt64).toNat := hsize
      rw [← hvalue] at htroop
      obtain hn | hn : (repeatField.value a.toUInt64).toNat = 6 ∨
          (repeatField.value a.toUInt64).toNat = 7 := by omega
      · rw [hn] at htroop htext
        exact ⟨6, Or.inl rfl, htroop, htext⟩
      · rw [hn] at htroop htext
        exact ⟨7, Or.inr rfl, htroop, htext⟩

/-- Two texts at most, of which each may be missing: where one is missing in each pair, the other
may be in the other's place. -/
theorem append_toList_cases {α : Type} {x y x' y' : Option α}
    (h : x.toList ++ y.toList = x'.toList ++ y'.toList) :
    (x = x' ∧ y = y') ∨ (y = none ∧ x' = none ∧ x = y') ∨ (y' = none ∧ x = none ∧ x' = y) := by
  cases x <;> cases y <;> cases x' <;> cases y' <;> simp_all

/-- Where the one text of the first fields is the repeat selector of `a` and the partner of `b`,
there is none, or the words are mistaken. -/
theorem agree_or_mistaken (h : lexicon.Joinable .troop)
    (hnone : partnerField.spell lexicon a.toUInt64 = none)
    (hnone' : repeatField.spell lexicon b.toUInt64 = none)
    (hsame : repeatField.spell lexicon a.toUInt64 = partnerField.spell lexicon b.toUInt64)
    (hrest : a &&& 0xFFFF0000 = b &&& 0xFFFF0000) :
    a &&& 0x7FFF = b &&& 0x7FFF ∨ Mistaken lexicon a b := by
  cases hrepeat : repeatField.spell lexicon a.toUInt64 with
  | none =>
    left
    have hpartner := hsame.symm.trans hrepeat
    rw [← toUInt64_and_eq_iff]
    exact (whoLayout_spell_eq_iff h).mp ⟨hrepeat.trans hnone'.symm, hnone.trans hpartner.symm⟩
  | some text =>
    right
    have hpartner := hsame.symm.trans hrepeat
    obtain ⟨n, hn, hsize, rfl⟩ := exists_number hrepeat hpartner
    have ha := (spell_number_iff h hn hsize).1.mp ⟨hrepeat, hnone⟩
    have hb := (spell_number_iff h hn hsize).2.mp ⟨hnone', hpartner⟩
    exact ⟨⟨n, hn, hsize, ha, hb⟩, hrest⟩

theorem Mistaken.spell_eq (h : lexicon.Joinable .troop) (hmistaken : Mistaken lexicon a b) :
    partnerLayout.spell lexicon a.toUInt64 = partnerLayout.spell lexicon b.toUInt64 := by
  obtain ⟨⟨n, hn, hsize, ha, hb⟩, hrest⟩ := hmistaken
  obtain ⟨hrepeat, hnone⟩ := (spell_number_iff h hn hsize).1.mpr ha
  obtain ⟨hnone', hpartner⟩ := (spell_number_iff h hn hsize).2.mpr hb
  rw [partnerLayout_spell_eq_iff h, hrepeat, hnone, hnone', hpartner]
  exact ⟨rfl, (toUInt64_and_eq_iff 0xFFFF0000).mpr hrest⟩

/-- Two partner words are spelt alike exactly if they agree on every bit that is covered, or one is
mistaken for the other. -/
theorem partner_told_or_mistaken (h : lexicon.Joinable .troop) (a b : UInt32) :
    partnerLayout.covered = 0xFFFF7FFF ∧
      (partnerLayout.spell lexicon a.toUInt64 = partnerLayout.spell lexicon b.toUInt64 ↔
        a &&& 0xFFFF7FFF = b &&& 0xFFFF7FFF ∨ Mistaken lexicon a b ∨ Mistaken lexicon b a) := by
  refine ⟨by decide, ?_⟩
  constructor
  · intro hspell
    obtain ⟨htexts, hrest⟩ := (partnerLayout_spell_eq_iff h).mp hspell
    have hbits := (toUInt64_and_eq_iff 0xFFFF0000).mp hrest
    rcases append_toList_cases htexts with hsame | ⟨hnone, hnone', hsame⟩ | ⟨hnone, hnone', hsame⟩
    · left
      have hwho := (toUInt64_and_eq_iff 0x7FFF).mp ((whoLayout_spell_eq_iff h).mp hsame)
      exact agree_covered_iff.mpr ⟨hwho, hbits⟩
    · rcases agree_or_mistaken h hnone hnone' hsame hbits with hwho | hmistaken
      · exact Or.inl (agree_covered_iff.mpr ⟨hwho, hbits⟩)
      · exact Or.inr (Or.inl hmistaken)
    · rcases agree_or_mistaken h hnone hnone' hsame hbits.symm with hwho | hmistaken
      · exact Or.inl (agree_covered_iff.mpr ⟨hwho.symm, hbits⟩)
      · exact Or.inr (Or.inr hmistaken)
  · intro hcases
    rcases hcases with hagree | hmistaken | hmistaken
    · obtain ⟨hwho, hrest⟩ := agree_covered_iff.mp hagree
      have hsame := (whoLayout_spell_eq_iff h).mpr ((toUInt64_and_eq_iff 0x7FFF).mpr hwho)
      rw [partnerLayout_spell_eq_iff h, hsame.1, hsame.2]
      exact ⟨rfl, (toUInt64_and_eq_iff 0xFFFF0000).mpr hrest⟩
    · exact hmistaken.spell_eq h
    · exact (hmistaken.spell_eq h).symm

/-- All fields at once, of two words that differ in a bit that is not covered, and of two that
differ in what the line is repeated for. -/
theorem partner_told_or_mistaken_named :
    let lexicon := Lexicon.empty.insert .troop #["player", "guard", "ramun"]
    lexicon.Joinable .troop ∧
      partnerLayout.spell lexicon (0x00212002 : UInt32).toUInt64 =
        "repeat_for_parties|trp_ramun|other(trp_ramun)|plyr" ∧
      partnerLayout.spell lexicon (0x0021A002 : UInt32).toUInt64 =
        partnerLayout.spell lexicon (0x00212002 : UInt32).toUInt64 ∧
      partnerLayout.spell lexicon (0x00216002 : UInt32).toUInt64 ≠
        partnerLayout.spell lexicon (0x00212002 : UInt32).toUInt64 := by
  intro lexicon
  have hlexicon : lexicon.Joinable .troop := ⟨by decide, by decide⟩
  refine ⟨hlexicon, by decide +kernel, ?_, ?_⟩
  · exact (partner_told_or_mistaken hlexicon 0x0021A002 0x00212002).2.mpr (Or.inl (by decide))
  · intro hspell
    rcases (partner_told_or_mistaken hlexicon 0x00216002 0x00212002).2.mp hspell with
      hagree | ⟨⟨n, rfl | rfl, -, ha, -⟩, -⟩ | ⟨⟨n, rfl | rfl, -, ha, -⟩, -⟩
    · exact absurd hagree (by decide)
    all_goals exact absurd ha (by decide)

/-- A line that is repeated for the number six, and a line whose partner is the troop of number six,
which has no name. -/
theorem partner_mistaken_six :
    let lexicon := Lexicon.empty.insert .troop #["player", "ramun"]
    (lexicon.table .troop).toList.Nodup ∧
      (∀ name ∈ lexicon.table .troop, ∀ c ∈ name.toList,
        Text.isBlank c = false ∧ c ∉ ['|', '(', ')', '[', ']', '{', '}']) ∧
      partnerLayout.spell lexicon (0x6000 : UInt32).toUInt64 = "6" ∧
      partnerLayout.spell lexicon (0x0006 : UInt32).toUInt64 = "6" ∧
      (0x6000 : UInt32).toUInt64 &&& partnerLayout.covered ≠
        (0x0006 : UInt32).toUInt64 &&& partnerLayout.covered := by
  intro lexicon
  -- A check of each character of a name, since a rule for all characters would be decided on all.
  have hplain : ∀ name ∈ lexicon.table .troop, (name.toList.all fun c =>
      !Text.isBlank c && !(['|', '(', ')', '[', ']', '{', '}'].contains c)) = true := by
    decide +kernel
  refine ⟨by decide +kernel, ?_, by decide +kernel⟩
  intro name hname c hc
  have hchecked := List.all_eq_true.mp (hplain name hname) c hc
  simpa using hchecked

end Dialog

end ModuleSource.Layout
