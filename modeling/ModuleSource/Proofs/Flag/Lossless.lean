import Mathlib.Data.List.Find
import Mathlib.Data.List.Nodup
import Mathlib.Tactic.MkIffOfInductiveProp
import ModuleSource.Layout.MissionTemplate

/-!
Flag words are spelt without loss. A layout without bit fields names single bits and groups of them.
Read back, the names between the bars stand for masks that do not overlap and that make up the bits
of the word for which the layout has flags.
-/

namespace ModuleSource

namespace FlagWord

/-- The bit of a word at a position. -/
def bit (word : UInt64) (i : Nat) : Bool := word.toBitVec.getLsbD i

@[simp]
theorem bit_zero (i : Nat) : bit 0 i = false := by simp [bit]

@[simp]
theorem bit_and (a b : UInt64) (i : Nat) : bit (a &&& b) i = (bit a i && bit b i) := by simp [bit]

@[simp]
theorem bit_or (a b : UInt64) (i : Nat) : bit (a ||| b) i = (bit a i || bit b i) := by simp [bit]

theorem bit_not {i : Nat} (hi : i < 64) (a : UInt64) : bit (~~~a) i = !bit a i := by
  simp [bit, hi]

theorem bit_shiftLeft_one {i : Nat} (hi : i < 64) (j : Nat) :
    bit (1 <<< UInt64.ofNat i) j = decide (j = i) := by
  have hmod : i % 64 = i := Nat.mod_eq_of_lt hi
  have hbit : bit (1 <<< UInt64.ofNat i) j =
      (decide (j < 64) && !decide (j < i) && decide (j - i = 0)) := by
    simp [bit, hmod]
  rw [hbit]
  by_cases hji : j = i
  · subst hji
    simp [hi]
  · by_cases hlt : j < i
    · simp [hlt, hji]
    · have hpast : j - i ≠ 0 := by omega
      simp [hpast, hji]

theorem eq_of_bit {a b : UInt64} (h : ∀ i < 64, bit a i = bit b i) : a = b :=
  UInt64.toBitVec_inj.mp (BitVec.eq_of_getLsbD_eq h)

theorem and_eq_left_iff {a b : UInt64} :
    a &&& b = a ↔ ∀ i < 64, bit a i = true → bit b i = true := by
  constructor
  · intro h i _ hbit
    rw [← h, bit_and, Bool.and_eq_true] at hbit
    exact hbit.2
  · intro h
    apply eq_of_bit
    intro i hi
    rw [bit_and]
    have hsub := h i hi
    grind

theorem and_eq_zero_iff {a b : UInt64} :
    a &&& b = 0 ↔ ∀ i < 64, bit a i = true → bit b i = false := by
  constructor
  · intro h i _ hbit
    have hzero := congrArg (bit · i) h
    simpa [hbit] using hzero
  · intro h
    apply eq_of_bit
    intro i hi
    rw [bit_and, bit_zero]
    have hsub := h i hi
    grind

theorem and_single_ne_zero_iff {i : Nat} (hi : i < 64) {a : UInt64} :
    a &&& 1 <<< UInt64.ofNat i ≠ 0 ↔ bit a i = true := by
  rw [Ne, and_eq_zero_iff]
  constructor
  · intro h
    by_contra hunset
    apply h
    intro j _ hbit
    rw [bit_shiftLeft_one hi, decide_eq_false_iff_not]
    rintro rfl
    exact hunset hbit
  · intro hset h
    have hclear := h i hi hset
    rw [bit_shiftLeft_one hi] at hclear
    simp at hclear

/-- The bits of all the masks together. -/
def union (masks : List UInt64) : UInt64 := masks.foldr (· ||| ·) 0

theorem bit_union (masks : List UInt64) (i : Nat) :
    bit (union masks) i = masks.any (bit · i) := by
  induction masks with
  | nil => exact bit_zero i
  | cons mask masks ih =>
    rw [List.any_cons, ← ih]
    exact bit_or mask (union masks) i

end FlagWord

namespace FlagLayout

open FlagWord

/-- The bits for which a layout has flags. -/
def known (layout : FlagLayout) : UInt64 := union (layout.flags.map Prod.fst)

/-- All that a layout has names for. -/
def named (layout : FlagLayout) : List (UInt64 × String) := layout.groups ++ layout.flags

/-- A layout of single bits, and of groups made up of them, whose names can be told apart. -/
@[mk_iff]
structure Separable (layout : FlagLayout) : Prop where
  noFields : layout.fields = []
  single : ∀ flag ∈ layout.flags, ∃ i < 64, flag.1 = 1 <<< UInt64.ofNat i
  distinct : (layout.flags.map Prod.fst).Nodup
  nonzero : ∀ group ∈ layout.groups, group.1 ≠ 0
  covered : ∀ group ∈ layout.groups, group.1 &&& layout.known = group.1
  apart : (layout.named.map Prod.snd).Nodup
  plain : ∀ entry ∈ layout.named, entry.2 ≠ "" ∧ entry.2 ≠ "0" ∧ '|' ∉ entry.2.toList

instance (layout : FlagLayout) : Decidable layout.Separable :=
  decidable_of_iff _ layout.separable_iff.symm

/-- The words between the bars. -/
def tokens (spelling : String) : List String :=
  (spelling.toList.splitOn '|').map String.ofList

/-- The bits that a word between bars stands for. -/
def mask? (layout : FlagLayout) (token : String) : Option UInt64 :=
  if token = "0" then some 0 else (layout.named.find? (·.2 = token)).map Prod.fst

/-- What remains of a word when the bits of its group are taken away. -/
def remainder (layout : FlagLayout) (word : UInt64) : UInt64 :=
  (layout.group? word).elim word fun group => word &&& ~~~group.1

/-- What is spelt of a word by name. -/
def chosen (layout : FlagLayout) (word : UInt64) : List (UInt64 × String) :=
  (layout.group? word).toList ++
    layout.flags.filter fun flag => layout.remainder word &&& flag.1 != 0

variable {layout : FlagLayout} {word : UInt64}

theorem names_eq_append_chosen (layout : FlagLayout) (lexicon : Lexicon) (word : UInt64) :
    layout.names lexicon word =
      layout.fields.filterMap (·.spell lexicon word) ++ (layout.chosen word).map Prod.snd := by
  unfold names chosen remainder
  cases layout.group? word with
  | none => simp
  | some group => simp

theorem names_eq_chosen (h : layout.fields = []) (lexicon : Lexicon) (word : UInt64) :
    layout.names lexicon word = (layout.chosen word).map Prod.snd := by
  rw [names_eq_append_chosen, h]
  rfl

section Agreement

variable {a b : UInt64} (hgroups : ∀ group ∈ layout.groups, a &&& group.1 = b &&& group.1)
include hgroups

theorem group?_congr : layout.group? a = layout.group? b := by
  apply List.find?_congr
  intro group hgroup
  change (a &&& group.1 == group.1) = (b &&& group.1 == group.1)
  rw [hgroups group hgroup]

/-- The same group is taken away from both words, so that these still agree on a mask. -/
theorem remainder_and_congr {mask : UInt64} (hmask : a &&& mask = b &&& mask) :
    layout.remainder a &&& mask = layout.remainder b &&& mask := by
  rw [remainder, remainder, group?_congr hgroups]
  cases layout.group? b with
  | none => exact hmask
  | some group =>
    change a &&& ~~~group.1 &&& mask = b &&& ~~~group.1 &&& mask
    rw [UInt64.and_assoc, UInt64.and_assoc, UInt64.and_comm (~~~group.1), ← UInt64.and_assoc,
      ← UInt64.and_assoc, hmask]

theorem chosen_congr (hflags : ∀ flag ∈ layout.flags, a &&& flag.1 = b &&& flag.1) :
    layout.chosen a = layout.chosen b := by
  rw [chosen, chosen, group?_congr hgroups]
  congr 1
  apply List.filter_congr
  intro flag hflag
  rw [remainder_and_congr hgroups (hflags flag hflag)]

end Agreement

theorem tokens_join {names : List String} (h : ∀ name ∈ names, '|' ∉ name.toList) :
    tokens (join names) = if names = [] then ["0"] else names := by
  by_cases hnames : names = []
  · subst hnames
    decide
  · have hsplit : ((String.intercalate "|" names).toList).splitOn '|' =
        names.map String.toList := by
      rw [String.toList_intercalate]
      apply List.splitOn_intercalate
      · simpa using h
      · simpa using hnames
    rw [join, if_neg (by simpa using hnames), if_neg hnames, tokens, hsplit]
    simp

theorem group?_eq_some_iff {mask : UInt64} {name : String} :
    layout.group? word = some (mask, name) ↔ ∃ before after,
      layout.groups = before ++ (mask, name) :: after ∧ word &&& mask = mask ∧
        ∀ earlier ∈ before, word &&& earlier.1 ≠ earlier.1 := by
  unfold group?
  rw [List.find?_eq_some_iff_append]
  grind

theorem mem_named_of_mem_chosen {entry : UInt64 × String} (h : entry ∈ layout.chosen word) :
    entry ∈ layout.named := by
  obtain hgroup | hflag := List.mem_append.mp h
  · have hfound := Option.mem_toList.mp hgroup
    exact List.mem_append_left _ (List.mem_of_find?_eq_some hfound)
  · exact List.mem_append_right _ (List.mem_filter.mp hflag).1

namespace Separable

variable (h : layout.Separable)
include h

theorem mask?_of_mem {entry : UInt64 × String} (hentry : entry ∈ layout.named) :
    layout.mask? entry.2 = some entry.1 := by
  rw [mask?, if_neg (h.plain entry hentry).2.1]
  obtain ⟨found, hfound⟩ : ∃ found, layout.named.find? (·.2 = entry.2) = some found := by
    rw [← Option.isSome_iff_exists, List.find?_isSome]
    exact ⟨entry, hentry, by simp⟩
  have hname : found.2 = entry.2 := by simpa using List.find?_some hfound
  have hmem := List.mem_of_find?_eq_some hfound
  rw [hfound, List.inj_on_of_nodup_map h.apart hmem hentry hname]
  rfl

/-- The tokens of a word. -/
theorem tokens_spell (lexicon : Lexicon) (word : UInt64) :
    tokens (layout.spell lexicon word) =
      if layout.chosen word = [] then ["0"] else (layout.chosen word).map Prod.snd := by
  rw [spell, names_eq_chosen h.noFields, tokens_join]
  · simp only [List.map_eq_nil_iff]
  · intro name hname
    obtain ⟨entry, hentry, rfl⟩ := List.mem_map.mp hname
    exact (h.plain entry (mem_named_of_mem_chosen hentry)).2.2

/-- A flag is named where its bit is set. -/
theorem union_flags (rest : UInt64) :
    union ((layout.flags.filter fun flag => rest &&& flag.1 != 0).map Prod.fst) =
      rest &&& layout.known := by
  apply eq_of_bit
  intro j _
  have hnamed : ∀ flag ∈ layout.flags, bit flag.1 j = true →
      (rest &&& flag.1 ≠ 0 ↔ bit rest j = true) := by
    intro flag hflag hbit
    obtain ⟨i, hi, heq⟩ := h.single flag hflag
    rw [heq, bit_shiftLeft_one hi, decide_eq_true_eq] at hbit
    rw [heq, and_single_ne_zero_iff hi, hbit]
  rw [bit_and, known, bit_union, bit_union, Bool.eq_iff_iff]
  simp only [List.any_map, List.any_filter, List.any_eq_true, Bool.and_eq_true, bne_iff_ne,
    Function.comp_apply]
  constructor
  · intro ⟨flag, hflag, hmeets, hbit⟩
    exact ⟨(hnamed flag hflag hbit).mp hmeets, flag, hflag, hbit⟩
  · intro ⟨hrest, flag, hflag, hbit⟩
    exact ⟨flag, hflag, (hnamed flag hflag hbit).mpr hrest, hbit⟩

theorem flags_disjoint : layout.flags.Pairwise fun a b => a.1 &&& b.1 = 0 := by
  have hdistinct := List.pairwise_map.mp h.distinct
  apply hdistinct.imp_of_mem
  intro a b ha hb hne
  obtain ⟨i, hi, hai⟩ := h.single a ha
  obtain ⟨j, hj, hbj⟩ := h.single b hb
  by_contra hmeets
  rw [hbj] at hmeets
  have hbit := (and_single_ne_zero_iff hj).mp hmeets
  rw [hai, bit_shiftLeft_one hi, decide_eq_true_eq] at hbit
  apply hne
  rw [hai, hbj, hbit]

/-- A group of which all bits are set is among the known bits of the word. -/
theorem group_within {group : UInt64 × String} (hgroup : layout.group? word = some group) :
    word &&& group.1 = group.1 ∧ group.1 &&& layout.known = group.1 := by
  have hmem := List.mem_of_find?_eq_some hgroup
  have hset := List.find?_some hgroup
  exact ⟨beq_iff_eq.mp hset, h.covered group hmem⟩

theorem union_chosen (word : UInt64) :
    union ((layout.chosen word).map Prod.fst) = word &&& layout.known := by
  have hflags := h.union_flags (layout.remainder word)
  cases hgroup : layout.group? word with
  | none =>
    have hrest : layout.remainder word = word := by
      rw [remainder, hgroup]
      rfl
    rw [chosen, hgroup, Option.toList_none, List.nil_append, hflags, hrest]
  | some group =>
    have hrest : layout.remainder word = word &&& ~~~group.1 := by
      rw [remainder, hgroup]
      rfl
    obtain ⟨hset, hcovered⟩ := h.group_within hgroup
    have hunion : union ((layout.chosen word).map Prod.fst) =
        group.1 ||| (word &&& ~~~group.1) &&& layout.known := by
      rw [← hrest, ← hflags, chosen, hgroup]
      rfl
    rw [hunion]
    apply eq_of_bit
    intro i hi
    have hword := congrArg (bit · i) hset
    have hknown := congrArg (bit · i) hcovered
    simp only [bit_and] at hword hknown
    simp only [bit_or, bit_and, bit_not hi]
    grind

theorem chosen_disjoint (word : UInt64) :
    (layout.chosen word).Pairwise fun a b => a.1 &&& b.1 = 0 := by
  apply List.pairwise_append.mpr
  refine ⟨?_, h.flags_disjoint.filter _, ?_⟩
  · cases layout.group? word with
    | none => exact List.Pairwise.nil
    | some group => exact List.pairwise_singleton _ group
  · -- A flag is looked for in the remainder, where the bits of the group are taken away.
    intro group hgroup flag hflag
    have hfound := Option.mem_toList.mp hgroup
    obtain ⟨hmem, hmeets⟩ := List.mem_filter.mp hflag
    obtain ⟨i, hi, heq⟩ := h.single flag hmem
    rw [remainder, hfound, bne_iff_ne, heq, and_single_ne_zero_iff hi] at hmeets
    change bit (word &&& ~~~group.1) i = true at hmeets
    rw [bit_and, bit_not hi, Bool.and_eq_true, Bool.not_eq_true'] at hmeets
    by_contra hoverlap
    rw [heq, ← Ne, and_single_ne_zero_iff hi, hmeets.2] at hoverlap
    cases hoverlap

/-- The masks of the tokens of a word do not overlap and make up its known bits. -/
theorem exists_masks (lexicon : Lexicon) (word : UInt64) :
    ∃ masks, (tokens (layout.spell lexicon word)).map layout.mask? = masks.map some ∧
      masks.Pairwise (fun a b => a &&& b = 0) ∧ union masks = word &&& layout.known := by
  rw [h.tokens_spell, ← h.union_chosen word]
  by_cases hchosen : layout.chosen word = []
  · rw [if_pos hchosen, hchosen]
    exact ⟨[0], rfl, List.pairwise_singleton _ 0, rfl⟩
  · rw [if_neg hchosen]
    refine ⟨_, ?_, List.pairwise_map.mpr (h.chosen_disjoint word), rfl⟩
    rw [List.map_map, List.map_map]
    apply List.map_congr_left
    intro entry hentry
    exact h.mask?_of_mem (mem_named_of_mem_chosen hentry)

omit h in
theorem flag_within {flag : UInt64 × String} (hflag : flag ∈ layout.flags) :
    flag.1 &&& layout.known = flag.1 := by
  apply and_eq_left_iff.mpr
  intro i _ hbit
  rw [known, bit_union, List.any_eq_true]
  exact ⟨flag.1, List.mem_map_of_mem hflag, hbit⟩

/-- Only the known bits of a word are looked at. -/
theorem chosen_and_known (word : UInt64) :
    layout.chosen (word &&& layout.known) = layout.chosen word := by
  apply chosen_congr
  · intro group hgroup
    rw [UInt64.and_assoc, UInt64.and_comm layout.known, h.covered group hgroup]
  · intro flag hflag
    rw [UInt64.and_assoc, UInt64.and_comm layout.known, flag_within hflag]

/-- A spelling tells the known bits of a word, and nothing else. -/
theorem spell_eq_spell_iff (lexicon lexicon' : Lexicon) (word word' : UInt64) :
    layout.spell lexicon word = layout.spell lexicon' word' ↔
      word &&& layout.known = word' &&& layout.known := by
  constructor
  · intro hspell
    obtain ⟨masks, hmasks, -, hunion⟩ := h.exists_masks lexicon word
    obtain ⟨masks', hmasks', -, hunion'⟩ := h.exists_masks lexicon' word'
    have hsame : masks = masks' := by
      apply List.map_injective_iff.mpr fun _ _ => Option.some.inj
      rw [← hmasks, ← hmasks', hspell]
    rw [← hunion, ← hunion', hsame]
  · intro hbits
    have hchosen : layout.chosen word = layout.chosen word' := by
      rw [← h.chosen_and_known word, hbits, h.chosen_and_known word']
    rw [spell, spell, names_eq_chosen h.noFields, names_eq_chosen h.noFields, hchosen]

theorem flag_name_not_mem {flag : UInt64 × String} (hflag : flag ∈ layout.flags) :
    flag.2 ∉ layout.groups.map Prod.snd := by
  have hapart := h.apart
  rw [named, List.map_append, List.nodup_append] at hapart
  intro hgroup
  exact hapart.2.2 _ hgroup _ (List.mem_map_of_mem hflag) rfl

/-- The group of a word is the only one that is named. -/
theorem filter_tokens_spell (lexicon : Lexicon) (word : UInt64) :
    (tokens (layout.spell lexicon word)).filter (· ∈ layout.groups.map Prod.snd) =
      ((layout.group? word).map Prod.snd).toList := by
  have hzero : "0" ∉ layout.groups.map Prod.snd := by
    intro hmem
    obtain ⟨group, hgroup, hname⟩ := List.mem_map.mp hmem
    exact (h.plain group (List.mem_append_left _ hgroup)).2.1 hname
  have hchosen : (tokens (layout.spell lexicon word)).filter (· ∈ layout.groups.map Prod.snd) =
      ((layout.chosen word).map Prod.snd).filter (· ∈ layout.groups.map Prod.snd) := by
    rw [h.tokens_spell]
    split
    · next hnone =>
      rw [hnone, List.filter_cons_of_neg (by simpa using hzero)]
      rfl
    · rfl
  have hflags : ((layout.flags.filter fun flag => layout.remainder word &&& flag.1 != 0).map
      Prod.snd).filter (· ∈ layout.groups.map Prod.snd) = [] := by
    apply List.filter_eq_nil_iff.mpr
    intro name hname
    obtain ⟨flag, hflag, rfl⟩ := List.mem_map.mp hname
    simpa using h.flag_name_not_mem (List.mem_filter.mp hflag).1
  rw [hchosen, chosen, List.map_append, List.filter_append, hflags, List.append_nil]
  cases hgroup : layout.group? word with
  | none => rfl
  | some group =>
    have hmem := List.mem_map_of_mem (f := Prod.snd) (List.mem_of_find?_eq_some hgroup)
    exact List.filter_cons_of_pos (by simpa using hmem)

theorem countP_tokens_spell_le (lexicon : Lexicon) (word : UInt64) :
    (tokens (layout.spell lexicon word)).countP (· ∈ layout.groups.map Prod.snd) ≤ 1 := by
  rw [List.countP_eq_length_filter, h.filter_tokens_spell]
  cases layout.group? word with
  | none => exact Nat.zero_le 1
  | some group => exact Nat.le_refl 1

theorem group_mem_tokens_iff (lexicon : Lexicon) (word : UInt64) (name : String) :
    name ∈ tokens (layout.spell lexicon word) ∧ name ∈ layout.groups.map Prod.snd ↔
      ∃ mask, layout.group? word = some (mask, name) := by
  have hfilter : name ∈ tokens (layout.spell lexicon word) ∧ name ∈ layout.groups.map Prod.snd ↔
      name ∈ ((layout.group? word).map Prod.snd).toList := by
    rw [← h.filter_tokens_spell lexicon word, List.mem_filter, decide_eq_true_eq]
  rw [hfilter, Option.mem_toList, Option.map_eq_some_iff]
  constructor
  · intro ⟨group, hgroup, hname⟩
    exact ⟨group.1, by rw [hgroup, ← hname]⟩
  · intro ⟨mask, hgroup⟩
    exact ⟨(mask, name), hgroup, rfl⟩

end Separable

end FlagLayout

namespace Layout

theorem MissionTemplate.separable_flagLayout : MissionTemplate.flagLayout.Separable := by
  decide +kernel

theorem Spawn.separable_equipmentLayout : Spawn.equipmentLayout.Separable := by
  decide +kernel

end Layout

/-- Spelling a flag word loses only the bits that the layout does not know. Each token stands for a
mask, these do not overlap, and together they are the known bits of the word. One group at most is
named: the first of which all bits are set. The flags of missions and the equipment of spawn points
have such layouts, so that their spellings tell the known bits and nothing else. -/
theorem FlagLayout.spell_lossless :
    (∀ (layout : FlagLayout) (lexicon : Lexicon) (word : UInt64), layout.Separable →
      let tokens := tokens (layout.spell lexicon word)
      (∃ masks, tokens.map layout.mask? = masks.map some ∧
        masks.Pairwise (fun a b => a &&& b = 0) ∧ FlagWord.union masks = word &&& layout.known) ∧
      tokens.countP (· ∈ layout.groups.map Prod.snd) ≤ 1 ∧
      ∀ name, name ∈ tokens ∧ name ∈ layout.groups.map Prod.snd ↔
        ∃ mask before after, layout.groups = before ++ (mask, name) :: after ∧
          word &&& mask = mask ∧ ∀ earlier ∈ before, word &&& earlier.1 ≠ earlier.1) ∧
    ∀ layout ∈ [Layout.MissionTemplate.flagLayout, Layout.Spawn.equipmentLayout],
      layout.Separable ∧ ∀ lexicon lexicon' word word',
        layout.spell lexicon word = layout.spell lexicon' word' ↔
          word &&& layout.known = word' &&& layout.known := by
  constructor
  · intro layout lexicon word h
    refine ⟨h.exists_masks lexicon word, h.countP_tokens_spell_le lexicon word, ?_⟩
    intro name
    rw [h.group_mem_tokens_iff]
    exact exists_congr fun mask => group?_eq_some_iff
  · intro layout hlayout
    have hseparable : layout.Separable := by
      rcases List.mem_pair.mp hlayout with rfl | rfl
      · exact Layout.MissionTemplate.separable_flagLayout
      · exact Layout.Spawn.separable_equipmentLayout
    exact ⟨hseparable, hseparable.spell_eq_spell_iff⟩

/-- Of two groups that overlap and are both set the first is named, and what it leaves of the other
is named as a flag. A bit past the known ones makes no difference. -/
theorem FlagLayout.spell_lossless_overlapping :
    let layout : FlagLayout :=
      { groups := [(3, "ab"), (6, "bc")], flags := [(1, "a"), (2, "b"), (4, "c")] }
    let tokens := tokens (layout.spell .empty 0x17)
    layout.Separable ∧ tokens = ["ab", "c"] ∧
      (∃ masks, tokens.map layout.mask? = masks.map some ∧
        masks.Pairwise (fun a b => a &&& b = 0) ∧ FlagWord.union masks = 7) ∧
      Layout.Spawn.equipmentLayout.spell .empty 0x4CF =
        Layout.Spawn.equipmentLayout.spell .empty 0xCF := by
  intro layout tokens
  have hseparable : layout.Separable := by decide +kernel
  have hknown : 0x4CF &&& Layout.Spawn.equipmentLayout.known =
      0xCF &&& Layout.Spawn.equipmentLayout.known := by
    decide +kernel
  refine ⟨hseparable, by decide +kernel, ?_, ?_⟩
  · have hbits : 0x17 &&& layout.known = 7 := by decide +kernel
    rw [← hbits]
    exact (spell_lossless.1 layout .empty 0x17 hseparable).1
  · exact ((spell_lossless.2 _ (by simp)).2 .empty .empty 0x4CF 0xCF).mpr hknown

end ModuleSource
