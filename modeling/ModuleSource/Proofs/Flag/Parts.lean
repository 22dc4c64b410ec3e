import ModuleSource.Proofs.Flag.Lossless
import ModuleSource.Proofs.Statement.Legible
import ModuleSource.Proofs.Text.Encoding

/-!
Flag words with bit fields. A layout is a row of parts, each of which looks at bits of its own and
writes one text for them or none. If the texts of no two parts start alike, the texts between the
bars tell which part wrote each of them; if each part tells its bits from its text, the spelling
tells all the bits that the layout covers.
-/

namespace ModuleSource

open Text

namespace FlagWord

theorem bit_shiftRight {shift : UInt64} (hshift : shift < 64) (a : UInt64) (i : Nat) :
    bit (a >>> shift) i = bit a (shift.toNat + i) := by
  have hmod : shift.toNat % 64 = shift.toNat := Nat.mod_eq_of_lt (UInt64.lt_iff_toNat_lt.mp hshift)
  simp [bit, hmod]

theorem and_eq_and_iff {a b mask : UInt64} :
    a &&& mask = b &&& mask ↔ ∀ i < 64, bit mask i = true → bit a i = bit b i := by
  constructor
  · intro h i _ hmask
    have hbit := congrArg (bit · i) h
    simpa [hmask] using hbit
  · intro h
    apply eq_of_bit
    intro i hi
    rw [bit_and, bit_and]
    have hagree := h i hi
    grind

theorem and_union_eq_iff (masks : List UInt64) {a b : UInt64} :
    a &&& union masks = b &&& union masks ↔ ∀ mask ∈ masks, a &&& mask = b &&& mask := by
  simp only [and_eq_and_iff, bit_union, List.any_eq_true]
  constructor
  · intro h mask hmask i hi hbit
    exact h i hi ⟨mask, hmask, hbit⟩
  · intro h i hi ⟨mask, hmask, hbit⟩
    exact h mask hmask i hi hbit

end FlagWord

section Fronts

/-- The bytes of a text, by which names are compared. -/
def bytesOf (text : String) : List UInt8 := text.toUTF8.data.toList

theorem bytesOf_append (s t : String) : bytesOf (s ++ t) = bytesOf s ++ bytesOf t := by
  simp [bytesOf]

/-- The byte of a bar is that of no other character. -/
theorem not_bar_of_bytes {text : String} (h : 124 ∉ bytesOf text) : '|' ∉ text.toList := by
  rw [bytesOf, ← toList_eq_toList_data, toList_toUTF8] at h
  intro hbar
  exact h (List.mem_flatMap.mpr ⟨'|', hbar, by decide⟩)

/-- The text starts with one of the fronts. -/
def StartsIn (fronts : List String) (text : String) : Prop :=
  ∃ front ∈ fronts, bytesOf front <+: bytesOf text

instance (fronts : List String) (text : String) : Decidable (StartsIn fronts text) :=
  inferInstanceAs (Decidable (∃ front ∈ fronts, bytesOf front <+: bytesOf text))

/-- No front of one list goes on to one of the other. -/
def FrontsApart (fronts fronts' : List String) : Prop :=
  ∀ front ∈ fronts, ∀ front' ∈ fronts',
    ¬bytesOf front <+: bytesOf front' ∧ ¬bytesOf front' <+: bytesOf front

instance (fronts fronts' : List String) : Decidable (FrontsApart fronts fronts') :=
  inferInstanceAs (Decidable (∀ front ∈ fronts, ∀ front' ∈ fronts',
    ¬bytesOf front <+: bytesOf front' ∧ ¬bytesOf front' <+: bytesOf front))

/-- What numerals start with. -/
def digitFronts : List String := ["0", "1", "2", "3", "4", "5", "6", "7", "8", "9"]

variable {fronts fronts' : List String} {text text' : String}

theorem startsIn_of_mem (h : text ∈ fronts) : StartsIn fronts text :=
  ⟨text, h, List.prefix_refl (bytesOf text)⟩

theorem startsIn_append (front rest : String) : StartsIn [front] (front ++ rest) := by
  refine ⟨front, List.mem_singleton_self front, ?_⟩
  rw [bytesOf_append]
  exact List.prefix_append (bytesOf front) (bytesOf rest)

theorem StartsIn.mono (h : StartsIn fronts text) (hsub : fronts ⊆ fronts') :
    StartsIn fronts' text := by
  obtain ⟨front, hfront, hprefix⟩ := h
  exact ⟨front, hsub hfront, hprefix⟩

theorem FrontsApart.mono_left {more : List String} (h : FrontsApart more fronts')
    (hsub : fronts ⊆ more) : FrontsApart fronts fronts' :=
  fun front hfront => h front (hsub hfront)

/-- Two fronts of one text are fronts of each other. -/
theorem FrontsApart.ne (h : FrontsApart fronts fronts') (hleft : StartsIn fronts text)
    (hright : StartsIn fronts' text') : text ≠ text' := by
  intro heq
  subst heq
  obtain ⟨front, hfront, hprefix⟩ := hleft
  obtain ⟨front', hfront', hprefix'⟩ := hright
  have hne := h front hfront front' hfront'
  rcases List.prefix_or_prefix_of_prefix hprefix hprefix' with hgoes | hgoes
  · exact hne.1 hgoes
  · exact hne.2 hgoes

theorem startsIn_toString (n : Nat) : StartsIn digitFronts (toString n) := by
  have hdigit : ∀ code < 58, 48 ≤ code → String.singleton (Char.ofNat code) ∈ digitFronts := by
    decide
  cases hchars : (toString n).toList with
  | nil => exact absurd hchars (toString_nat_ne_nil n)
  | cons c cs =>
    have hc : c.isDigit = true := isDigit_of_mem_toString (by rw [hchars]; exact List.mem_cons_self)
    simp only [Char.isDigit, Bool.and_eq_true, decide_eq_true_eq, ge_iff_le,
      UInt32.le_iff_toNat_le] at hc
    have hmem := hdigit c.toNat (Nat.lt_succ_of_le hc.2) hc.1
    rw [Char.ofNat_toNat] at hmem
    have htext : toString n = String.singleton c ++ String.ofList cs := by
      rw [← String.toList_inj, hchars]
      simp
    rw [htext]
    apply (startsIn_append (String.singleton c) _).mono
    exact List.cons_subset.mpr ⟨hmem, List.nil_subset _⟩

end Fronts

variable {lexicon : Lexicon}

/-- The names of a kind can be told from each other and stand between bars. -/
structure Lexicon.Joinable (lexicon : Lexicon) (kind : Entity) : Prop where
  nodup : (lexicon.table kind).toList.Nodup
  noBar : ∀ name ∈ lexicon.table kind, '|' ∉ name.toList

theorem not_bar_toString (n : Nat) : '|' ∉ (toString n).toList := by
  intro h
  exact absurd (isDigit_of_mem_toString h) (by decide)

theorem not_bar_append {s t : String} (hs : '|' ∉ s.toList) (ht : '|' ∉ t.toList) :
    '|' ∉ (s ++ t).toList := by
  rw [String.toList_append, List.mem_append]
  exact not_or.mpr ⟨hs, ht⟩

namespace FieldStyle

/-- What a text that is no numeral starts with. -/
def fronts : FieldStyle → List String
  | applied name => [name ++ "("]
  | entity kind => [kind.tag]
  | appliedTo name _ => [name ++ "("]
  | oneOf names => names

/-- The kind of the entities that the style names. -/
def kind? : FieldStyle → Option Entity
  | entity kind => some kind
  | appliedTo _ kind => some kind
  | _ => none

/-- The value is written as a number because it has no name. -/
def Unnamed (style : FieldStyle) (lexicon : Lexicon) (value : Nat) : Prop :=
  match style with
  | entity kind => (lexicon.table kind).size ≤ value
  | oneOf names => names.length < value
  | _ => False

variable {style : FieldStyle} {value m n : Nat}

open BitField (spellValue maxIndex)

theorem min_maxIndex (hmax : value ≤ maxIndex) : min (value : Int) maxIndex = value := by omega

theorem spellValue_entity (kind : Entity) (hmax : value ≤ maxIndex) :
    spellValue (.entity kind) lexicon value = lexicon.spell kind value := by
  simp only [spellValue, min_maxIndex hmax]

theorem spellValue_appliedTo (name : String) (kind : Entity) (hmax : value ≤ maxIndex) :
    spellValue (.appliedTo name kind) lexicon value =
      (name ++ "(") ++ (lexicon.spell kind value ++ ")") := by
  simp only [spellValue, min_maxIndex hmax, String.append_assoc]

theorem spellValue_applied (name : String) (value : Nat) :
    spellValue (.applied name) lexicon value = (name ++ "(") ++ (toString value ++ ")") := by
  simp only [spellValue, String.append_assoc]

/-- A value that is not zero is written by a name of the style, or has none and is a numeral. -/
theorem spellValue_cases (style : FieldStyle) (lexicon : Lexicon) (hpos : value ≠ 0)
    (hmax : value ≤ maxIndex) :
    StartsIn style.fronts (spellValue style lexicon value) ∨
      style.Unnamed lexicon value ∧ spellValue style lexicon value = toString value := by
  cases style with
  | applied name =>
    left
    rw [spellValue_applied]
    exact startsIn_append (name ++ "(") _
  | entity kind =>
    rw [spellValue_entity kind hmax]
    cases hget : (lexicon.table kind).get? value with
    | some name =>
      left
      rw [Lexicon.spell_of_get? hget]
      exact startsIn_append kind.tag name
    | none =>
      right
      rw [Lexicon.spell_of_get?_none hget]
      exact ⟨Array.getElem?_eq_none_iff.mp hget, rfl⟩
  | appliedTo name kind =>
    left
    rw [spellValue_appliedTo name kind hmax]
    exact startsIn_append (name ++ "(") _
  | oneOf names =>
    cases hget : names[value - 1]? with
    | some name =>
      left
      simp only [spellValue, hget, Option.getD_some]
      exact startsIn_of_mem (List.mem_of_getElem? hget)
    | none =>
      right
      have hpast := List.getElem?_eq_none_iff.mp hget
      constructor
      · show names.length < value
        omega
      · simp only [spellValue, hget, Option.getD_none]

/-- A value is told by its text. -/
theorem spellValue_inj (hstyle : style.fronts.Nodup) (hapart : FrontsApart style.fronts digitFronts)
    (hkind : style.kind? ≠ some .dialogState)
    (hlexicon : ∀ kind ∈ style.kind?, lexicon.Joinable kind) (hm : m ≠ 0) (hn : n ≠ 0)
    (hm' : m ≤ maxIndex) (hn' : n ≤ maxIndex)
    (heq : spellValue style lexicon m = spellValue style lexicon n) : m = n := by
  have hspell {kind : Entity} (hstyle : style.kind? = some kind)
      (heq : lexicon.spell kind m = lexicon.spell kind n) : m = n := by
    have hne : kind ≠ .dialogState := by
      intro hdialog
      rw [hstyle, hdialog] at hkind
      exact hkind rfl
    exact Int.ofNat.inj (Lexicon.spell_inj (hlexicon kind hstyle).nodup hne heq)
  cases style with
  | applied name =>
    rw [spellValue_applied, spellValue_applied, String.append_right_inj, String.append_left_inj]
      at heq
    exact toString_nat_inj heq
  | entity kind =>
    rw [spellValue_entity kind hm', spellValue_entity kind hn'] at heq
    exact hspell rfl heq
  | appliedTo name kind =>
    rw [spellValue_appliedTo name kind hm', spellValue_appliedTo name kind hn',
      String.append_right_inj, String.append_left_inj] at heq
    exact hspell rfl heq
  | oneOf names =>
    have named {i : Nat} {name : String} (hi : names[i]? = some name) (k : Nat) :
        name ≠ toString k :=
      hapart.ne (startsIn_of_mem (List.mem_of_getElem? hi)) (startsIn_toString k)
    simp only [spellValue] at heq
    cases hgetm : names[m - 1]? with
    | some name =>
      cases hgetn : names[n - 1]? with
      | some other =>
        rw [hgetm, hgetn] at heq
        have hlt := (List.getElem?_eq_some_iff.mp hgetm).1
        have hname : some name = some other := congrArg some heq
        have hindex := (List.getElem?_inj hlt hstyle).mp (hgetm.trans (hname.trans hgetn.symm))
        omega
      | none =>
        rw [hgetm, hgetn] at heq
        exact absurd heq (named hgetm n)
    | none =>
      cases hgetn : names[n - 1]? with
      | some other =>
        rw [hgetm, hgetn] at heq
        exact absurd heq.symm (named hgetn m)
      | none =>
        rw [hgetm, hgetn] at heq
        exact toString_nat_inj heq

theorem not_bar_spellValue (hstyle : ∀ front ∈ style.fronts, '|' ∉ front.toList)
    (hlexicon : ∀ kind ∈ style.kind?, lexicon.Joinable kind) (hmax : value ≤ maxIndex) :
    '|' ∉ (spellValue style lexicon value).toList := by
  have hspell {kind : Entity} (hkind : style.kind? = some kind) :
      '|' ∉ (lexicon.spell kind value).toList := by
    cases hget : (lexicon.table kind).get? value with
    | none =>
      rw [Lexicon.spell_of_get?_none hget]
      exact not_bar_toString value
    | some name =>
      have htag : '|' ∉ kind.tag.toList := by cases kind <;> decide
      have hname := (hlexicon kind hkind).noBar name (Array.mem_of_getElem? hget)
      rw [Lexicon.spell_of_get? hget]
      exact not_bar_append htag hname
  cases style with
  | applied name =>
    rw [spellValue_applied]
    exact not_bar_append (hstyle _ List.mem_cons_self)
      (not_bar_append (not_bar_toString value) (by decide))
  | entity kind =>
    rw [spellValue_entity kind hmax]
    exact hspell rfl
  | appliedTo name kind =>
    rw [spellValue_appliedTo name kind hmax]
    exact not_bar_append (hstyle _ List.mem_cons_self) (not_bar_append (hspell rfl) (by decide))
  | oneOf names =>
    cases hget : names[value - 1]? with
    | some name =>
      simp only [spellValue, hget, Option.getD_some]
      exact hstyle name (List.mem_of_getElem? hget)
    | none =>
      simp only [spellValue, hget, Option.getD_none]
      exact not_bar_toString value

end FieldStyle

namespace BitField

open FlagWord

/-- The greatest value of a field. -/
def limit (field : BitField) : Nat := (field.mask >>> field.shift).toNat

/-- What the texts of a field that are no numerals start with. -/
def nameFronts (field : BitField) : List String :=
  field.style.fronts ++ (field.special.map Prod.snd).toList

/-- Whether some value of the field may be written as a number. -/
def numeric (field : BitField) : Bool :=
  match field.style with
  | .entity _ => true
  | .oneOf names => names.length < field.limit
  | _ => false

/-- What the texts of a field start with. -/
def fronts (field : BitField) : List String :=
  field.nameFronts ++ if field.numeric then digitFronts else []

/-- A field whose values can be told from its texts. -/
@[mk_iff]
structure Discerning (field : BitField) : Prop where
  shift : field.shift < 64
  low : ∀ i < field.shift.toNat, bit field.mask i = false
  limit : field.limit ≤ maxIndex
  apart : FrontsApart field.nameFronts digitFronts
  noBar : ∀ front ∈ field.nameFronts, 124 ∉ bytesOf front
  nodup : field.style.fronts.Nodup
  tagged : field.style.kind? ≠ some .dialogState
  special : ∀ entry ∈ field.special.toList, FrontsApart [entry.2] field.style.fronts

instance (field : BitField) : Decidable field.Discerning :=
  decidable_of_iff _ field.discerning_iff.symm

variable {field : BitField} {word a b : UInt64} {text : String}

theorem toNat_value_le (field : BitField) (word : UInt64) :
    (field.value word).toNat ≤ field.limit := by
  have hand : (word &&& field.mask).toNat ≤ field.mask.toNat := by
    rw [UInt64.toNat_and]
    exact Nat.and_le_right
  simp only [value, limit, UInt64.toNat_shiftRight, Nat.shiftRight_eq_div_pow]
  exact Nat.div_le_div_right hand

theorem numeric_of_unnamed (h : field.style.Unnamed lexicon (field.value word).toNat) :
    field.numeric = true := by
  cases hstyle : field.style with
  | entity kind => rw [numeric, hstyle]
  | oneOf names =>
    rw [hstyle] at h
    have hlength : names.length < (field.value word).toNat := h
    have hlimit := field.toNat_value_le word
    rw [numeric, hstyle]
    exact decide_eq_true (by omega)
  | applied name =>
    rw [hstyle] at h
    exact h.elim
  | appliedTo name kind =>
    rw [hstyle] at h
    exact h.elim

theorem spell_eq_none_iff : field.spell lexicon word = none ↔ field.value word = 0 := by
  unfold spell
  grind

theorem value_ne_zero (h : field.spell lexicon word = some text) :
    (field.value word).toNat ≠ 0 := by
  intro hzero
  rw [spell_eq_none_iff.mpr (UInt64.toNat_inj.mp hzero)] at h
  cases h

theorem spell_of_value_eq (h : field.value a = field.value b) :
    field.spell lexicon a = field.spell lexicon b := by
  unfold spell
  rw [h]

/-- A text is the name of the special value, or else that of the value in the style of the field. -/
theorem spell_cases (h : field.spell lexicon word = some text) :
    field.special = some (field.value word, text) ∨
      (∀ name, field.special ≠ some (field.value word, name)) ∧
        text = spellValue field.style lexicon (field.value word).toNat := by
  have hvalue : field.value word ≠ 0 := fun hzero => value_ne_zero h (congrArg UInt64.toNat hzero)
  cases hspecial : field.special with
  | none =>
    simp only [spell, hvalue, hspecial, ↓reduceIte] at h
    right
    exact ⟨fun _ heq => (nomatch heq), (Option.some.inj h).symm⟩
  | some entry =>
    obtain ⟨number, name⟩ := entry
    simp only [spell, hvalue, hspecial, ↓reduceIte] at h
    by_cases hnumber : field.value word = number
    · rw [if_pos hnumber] at h
      left
      rw [hnumber, Option.some.inj h]
    · rw [if_neg hnumber] at h
      right
      refine ⟨?_, (Option.some.inj h).symm⟩
      intro name' heq
      exact hnumber (Prod.mk.inj (Option.some.inj heq)).1.symm

namespace Discerning

variable (h : field.Discerning)
include h

/-- The bits of a field are told by its value. -/
theorem value_eq_value_iff :
    field.value a = field.value b ↔ a &&& field.mask = b &&& field.mask := by
  constructor
  · intro heq
    apply eq_of_bit
    intro i hi
    by_cases hlow : i < field.shift.toNat
    · rw [bit_and, bit_and, h.low i hlow, Bool.and_false, Bool.and_false]
    · have hbit := congrArg (bit · (i - field.shift.toNat)) heq
      have hplace : field.shift.toNat + (i - field.shift.toNat) = i := by omega
      simpa only [value, bit_shiftRight h.shift, hplace] using hbit
  · intro heq
    rw [value, value, heq]

theorem toNat_value_le_maxIndex (word : UInt64) : (field.value word).toNat ≤ maxIndex :=
  Nat.le_trans (field.toNat_value_le word) h.limit

/-- A text starts with a name of the field, or is the numeral of a value without one. -/
theorem startsIn_or_numeral (hspell : field.spell lexicon word = some text) :
    StartsIn field.nameFronts text ∨
      field.style.Unnamed lexicon (field.value word).toNat ∧
        text = toString (field.value word).toNat := by
  rcases spell_cases hspell with hspecial | ⟨-, rfl⟩
  · left
    apply startsIn_of_mem
    rw [nameFronts, hspecial]
    exact List.mem_append_right _ List.mem_cons_self
  · rcases field.style.spellValue_cases lexicon (value_ne_zero hspell)
      (h.toNat_value_le_maxIndex word) with hstarts | hnumeral
    · left
      exact hstarts.mono (List.subset_append_left _ _)
    · right
      exact hnumeral

theorem startsIn_fronts (hspell : field.spell lexicon word = some text) :
    StartsIn field.fronts text := by
  rcases h.startsIn_or_numeral hspell with hnamed | ⟨hunnamed, rfl⟩
  · exact hnamed.mono (List.subset_append_left _ _)
  · rw [fronts, if_pos (numeric_of_unnamed hunnamed)]
    exact (startsIn_toString _).mono (List.subset_append_right _ _)

theorem ne_zero_text (hspell : field.spell lexicon word = some text) : text ≠ "0" := by
  rcases h.startsIn_or_numeral hspell with hnamed | ⟨-, rfl⟩
  · exact h.apart.ne hnamed (startsIn_toString 0)
  · intro hzero
    exact value_ne_zero hspell (toString_nat_inj hzero)

/-- The name of the special value is the text of no other value. -/
theorem special_ne_spellValue {number : UInt64} {name : String} {value : Nat}
    (hspecial : field.special = some (number, name)) (hpos : value ≠ 0) (hmax : value ≤ maxIndex) :
    name ≠ spellValue field.style lexicon value := by
  have hname : name ∈ field.nameFronts := by
    rw [nameFronts, hspecial]
    exact List.mem_append_right _ List.mem_cons_self
  rcases field.style.spellValue_cases lexicon hpos hmax with hstarts | ⟨-, hnumeral⟩
  · have hapart := h.special (number, name) (Option.mem_toList.mpr hspecial)
    exact hapart.ne (startsIn_of_mem List.mem_cons_self) hstarts
  · rw [hnumeral]
    exact h.apart.ne (startsIn_of_mem hname) (startsIn_toString value)

variable (hlexicon : ∀ kind ∈ field.style.kind?, lexicon.Joinable kind)
include hlexicon

theorem not_bar_text (hspell : field.spell lexicon word = some text) : '|' ∉ text.toList := by
  rcases spell_cases hspell with hspecial | ⟨-, rfl⟩
  · apply not_bar_of_bytes (h.noBar text _)
    rw [nameFronts, hspecial]
    exact List.mem_append_right _ List.mem_cons_self
  · have hstyle : ∀ front ∈ field.style.fronts, '|' ∉ front.toList :=
      fun front hfront => not_bar_of_bytes (h.noBar front (List.mem_append_left _ hfront))
    exact FieldStyle.not_bar_spellValue hstyle hlexicon (h.toNat_value_le_maxIndex word)

/-- A field is spelt alike for the words that agree on its bits, and for no others. -/
theorem spell_eq_spell_iff :
    field.spell lexicon a = field.spell lexicon b ↔ a &&& field.mask = b &&& field.mask := by
  rw [← h.value_eq_value_iff]
  constructor
  · intro heq
    cases hspell : field.spell lexicon a with
    | none =>
      have hspell' := heq.symm.trans hspell
      rw [spell_eq_none_iff.mp hspell, spell_eq_none_iff.mp hspell']
    | some text =>
      have hspell' := heq.symm.trans hspell
      have hpos := value_ne_zero hspell
      have hpos' := value_ne_zero hspell'
      have hmax := h.toNat_value_le_maxIndex a
      have hmax' := h.toNat_value_le_maxIndex b
      rcases spell_cases hspell with hspecial | ⟨-, htext⟩
      · rcases spell_cases hspell' with hspecial' | ⟨-, htext'⟩
        · rw [hspecial] at hspecial'
          exact (Prod.mk.inj (Option.some.inj hspecial')).1
        · exact absurd htext' (h.special_ne_spellValue hspecial hpos' hmax')
      · rcases spell_cases hspell' with hspecial' | ⟨-, htext'⟩
        · exact absurd htext (h.special_ne_spellValue hspecial' hpos hmax)
        · have hapart : FrontsApart field.style.fronts digitFronts :=
            h.apart.mono_left (List.subset_append_left _ _)
          exact UInt64.toNat_inj.mp (FieldStyle.spellValue_inj h.nodup hapart h.tagged hlexicon
            hpos hpos' hmax hmax' (htext.symm.trans htext'))
  · exact spell_of_value_eq

end Discerning

end BitField

/-- A part of a layout: the texts that it writes for a word, and what these start with. -/
structure FlagPart where
  fronts : List String
  texts : UInt64 → List String

namespace FlagPart

/-- The texts of a part start as it says, stand between bars, and are not the text of no bits. -/
structure Plain (part : FlagPart) : Prop where
  starts : ∀ word, ∀ text ∈ part.texts word, StartsIn part.fronts text
  noBar : ∀ word, ∀ text ∈ part.texts word, '|' ∉ text.toList
  nonzero : ∀ word, ∀ text ∈ part.texts word, text ≠ "0"

/-- The texts of one part, then those of another. -/
def merge (part other : FlagPart) : FlagPart where
  fronts := part.fronts ++ other.fronts
  texts word := part.texts word ++ other.texts word

theorem Plain.merge {part other : FlagPart} (h : part.Plain) (hother : other.Plain) :
    (part.merge other).Plain where
  starts word := List.forall_mem_append.mpr
    ⟨fun text htext => (h.starts word text htext).mono (List.subset_append_left _ _),
      fun text htext => (hother.starts word text htext).mono (List.subset_append_right _ _)⟩
  noBar word := List.forall_mem_append.mpr ⟨h.noBar word, hother.noBar word⟩
  nonzero word := List.forall_mem_append.mpr ⟨h.nonzero word, hother.nonzero word⟩

/-- Two lists of texts of which one kind stands before the other are split at the same place. -/
theorem append_inj_of_startsIn {fronts : List String} {us vs us' vs' : List String}
    (hus : ∀ u ∈ us, StartsIn fronts u) (hvs : ∀ v ∈ vs, StartsIn fronts v)
    (hus' : ∀ u ∈ us', ¬StartsIn fronts u) (hvs' : ∀ v ∈ vs', ¬StartsIn fronts v)
    (h : us ++ us' = vs ++ vs') : us = vs ∧ us' = vs' := by
  have hfirst (xs xs' : List String) (hxs : ∀ x ∈ xs, StartsIn fronts x)
      (hxs' : ∀ x ∈ xs', ¬StartsIn fronts x) :
      (xs ++ xs').filter (StartsIn fronts ·) = xs := by
    have hkept : xs.filter (StartsIn fronts ·) = xs := List.filter_eq_self.mpr (by simpa using hxs)
    have hnone : xs'.filter (StartsIn fronts ·) = [] :=
      List.filter_eq_nil_iff.mpr (by simpa using hxs')
    rw [List.filter_append, hkept, hnone, List.append_nil]
  have heq : us = vs := by
    rw [← hfirst us us' hus hus', h, hfirst vs vs' hvs hvs']
  subst heq
  exact ⟨rfl, List.append_cancel_left h⟩

variable {parts : List FlagPart} {a b : UInt64}

/-- Where no two parts write texts that start alike, the texts tell what each part wrote. -/
theorem flatMap_texts_eq_iff (hplain : ∀ part ∈ parts, part.Plain)
    (hapart : (parts.map fronts).Pairwise FrontsApart) :
    parts.flatMap (·.texts a) = parts.flatMap (·.texts b) ↔
      ∀ part ∈ parts, part.texts a = part.texts b := by
  constructor
  · intro h
    induction parts with
    | nil => intro part hpart; cases hpart
    | cons part parts ih =>
      rw [List.forall_mem_cons] at hplain
      rw [List.map_cons, List.pairwise_cons] at hapart
      have hrest (word : UInt64) :
          ∀ text ∈ parts.flatMap (·.texts word), ¬StartsIn part.fronts text := by
        intro text htext hstarts
        obtain ⟨other, hother, htext⟩ := List.mem_flatMap.mp htext
        have hne := hapart.1 other.fronts (List.mem_map_of_mem hother)
        exact hne.ne hstarts ((hplain.2 other hother).starts word text htext) rfl
      obtain ⟨hfirst, hrest⟩ := append_inj_of_startsIn (hplain.1.starts a) (hplain.1.starts b)
        (hrest a) (hrest b) h
      exact List.forall_mem_cons.mpr ⟨hfirst, ih hplain.2 hapart.2 hrest⟩
  · intro h
    exact List.flatMap_congr h

/-- The same holds of the texts joined by bars. -/
theorem join_texts_eq_iff (hplain : ∀ part ∈ parts, part.Plain)
    (hapart : (parts.map fronts).Pairwise FrontsApart) :
    FlagLayout.join (parts.flatMap (·.texts a)) = FlagLayout.join (parts.flatMap (·.texts b)) ↔
      ∀ part ∈ parts, part.texts a = part.texts b := by
  have hnoBar (word : UInt64) : ∀ text ∈ parts.flatMap (·.texts word), '|' ∉ text.toList := by
    intro text htext
    obtain ⟨part, hpart, htext⟩ := List.mem_flatMap.mp htext
    exact (hplain part hpart).noBar word text htext
  have hnonzero (word : UInt64) : parts.flatMap (·.texts word) ≠ ["0"] := by
    intro heq
    have hzero : "0" ∈ parts.flatMap (·.texts word) := by rw [heq]; exact List.mem_cons_self
    obtain ⟨part, hpart, htext⟩ := List.mem_flatMap.mp hzero
    exact (hplain part hpart).nonzero word "0" htext rfl
  rw [← flatMap_texts_eq_iff hplain hapart]
  constructor
  · intro h
    have htokens := congrArg FlagLayout.tokens h
    rw [FlagLayout.tokens_join (hnoBar a), FlagLayout.tokens_join (hnoBar b)] at htokens
    have ha := hnonzero a
    have hb := hnonzero b
    grind
  · intro h
    rw [h]

end FlagPart

/-- What a field writes. -/
def BitField.part (lexicon : Lexicon) (field : BitField) : FlagPart where
  fronts := field.fronts
  texts word := (field.spell lexicon word).toList

theorem BitField.part_texts_eq_iff {field : BitField} {a b : UInt64} :
    (field.part lexicon).texts a = (field.part lexicon).texts b ↔
      field.spell lexicon a = field.spell lexicon b := by
  constructor
  · intro h
    have hhead := congrArg List.head? h
    simpa only [part, Option.head?_toList] using hhead
  · exact congrArg Option.toList

theorem BitField.Discerning.plain {field : BitField} (h : field.Discerning)
    (hlexicon : ∀ kind ∈ field.style.kind?, lexicon.Joinable kind) :
    (field.part lexicon).Plain where
  starts _ _ htext := h.startsIn_fronts (Option.mem_toList.mp htext)
  noBar _ _ htext := h.not_bar_text hlexicon (Option.mem_toList.mp htext)
  nonzero _ _ htext := h.ne_zero_text (Option.mem_toList.mp htext)

namespace FlagLayout

open FlagWord

/-- What a flag writes. -/
def flagPart (flag : UInt64 × String) : FlagPart where
  fronts := [flag.2]
  texts word := if word &&& flag.1 = 0 then [] else [flag.2]

/-- The fields of a layout, then its flags. -/
def parts (layout : FlagLayout) (lexicon : Lexicon) : List FlagPart :=
  layout.fields.map (·.part lexicon) ++ layout.flags.map flagPart

/-- What the texts of each part of a layout start with. -/
def fronts (layout : FlagLayout) : List (List String) :=
  layout.fields.map (·.fronts) ++ layout.flags.map fun flag => [flag.2]

theorem map_fronts_parts (layout : FlagLayout) (lexicon : Lexicon) :
    (layout.parts lexicon).map FlagPart.fronts = layout.fronts := by
  rw [parts, List.map_append, List.map_map, List.map_map]
  rfl

/-- The kinds of entities that a layout names. -/
def kinds (layout : FlagLayout) : List Entity := layout.fields.filterMap (·.style.kind?)

/-- All bits that a layout looks at. -/
def covered (layout : FlagLayout) : UInt64 :=
  union (layout.fields.map (·.mask) ++ layout.groups.map Prod.fst ++ layout.flags.map Prod.fst)

/-- A layout of fields and single bits, each of which can be told by its texts. -/
@[mk_iff]
structure Discerning (layout : FlagLayout) : Prop where
  noGroups : layout.groups = []
  fields : ∀ field ∈ layout.fields, field.Discerning
  single : ∀ flag ∈ layout.flags, ∃ i < 64, flag.1 = 1 <<< UInt64.ofNat i
  plain : ∀ flag ∈ layout.flags, 124 ∉ bytesOf flag.2 ∧ flag.2 ≠ "0"

instance (layout : FlagLayout) : Decidable layout.Discerning :=
  decidable_of_iff _ layout.discerning_iff.symm

variable {layout : FlagLayout} {a b : UInt64}

/-- Words that agree on the covered bits agree on the bits of each part. -/
theorem and_covered_eq_iff : a &&& layout.covered = b &&& layout.covered ↔
    (∀ field ∈ layout.fields, a &&& field.mask = b &&& field.mask) ∧
      (∀ group ∈ layout.groups, a &&& group.1 = b &&& group.1) ∧
      ∀ flag ∈ layout.flags, a &&& flag.1 = b &&& flag.1 := by
  rw [covered, and_union_eq_iff]
  simp only [List.forall_mem_append, List.forall_mem_map, and_assoc]

theorem names_eq_flatMap (h : layout.groups = []) (lexicon : Lexicon) (word : UInt64) :
    layout.names lexicon word = (layout.parts lexicon).flatMap (·.texts word) := by
  have hgroup : layout.group? word = none := by rw [group?, h, List.find?_nil]
  have hfields : layout.fields.filterMap (·.spell lexicon word) =
      layout.fields.flatMap fun field => (field.part lexicon).texts word :=
    List.filterMap_eq_flatMap_toList _ _
  have hflags : (layout.flags.filter fun flag => word &&& flag.1 != 0).map Prod.snd =
      layout.flags.flatMap fun flag => (flagPart flag).texts word := by
    induction layout.flags with
    | nil => rfl
    | cons flag flags ih =>
      rw [List.flatMap_cons, ← ih]
      by_cases hzero : word &&& flag.1 = 0
      · simp [flagPart, hzero]
      · simp [flagPart, hzero]
  rw [parts, List.flatMap_append, List.flatMap_map, List.flatMap_map, ← hfields, ← hflags]
  simp only [names, hgroup, List.append_nil]

/-- A flag is named alike for the words that agree on its bit, and for no others. -/
theorem flagPart_texts_eq_iff {flag : UInt64 × String}
    (hsingle : ∃ i < 64, flag.1 = 1 <<< UInt64.ofNat i) :
    (flagPart flag).texts a = (flagPart flag).texts b ↔ a &&& flag.1 = b &&& flag.1 := by
  obtain ⟨i, hi, hmask⟩ := hsingle
  have hnamed (word : UInt64) :
      (flagPart flag).texts word = if bit word i then [flag.2] else [] := by
    have hbit := and_single_ne_zero_iff hi (a := word)
    rw [← hmask] at hbit
    simp only [flagPart]
    grind
  have hbits : a &&& flag.1 = b &&& flag.1 ↔ bit a i = bit b i := by
    rw [and_eq_and_iff, hmask]
    simp only [bit_shiftLeft_one hi, decide_eq_true_eq]
    grind
  rw [hnamed, hnamed, hbits]
  grind

namespace Discerning

variable (h : layout.Discerning) (hlexicon : ∀ kind ∈ layout.kinds, lexicon.Joinable kind)
include h hlexicon

omit h in
theorem joinable_of_mem {field : BitField} (hfield : field ∈ layout.fields) :
    ∀ kind ∈ field.style.kind?, lexicon.Joinable kind :=
  fun kind hkind => hlexicon kind (List.mem_filterMap.mpr ⟨field, hfield, hkind⟩)

theorem plain_parts : ∀ part ∈ layout.parts lexicon, part.Plain := by
  rw [parts, List.forall_mem_append]
  constructor
  · intro part hpart
    obtain ⟨field, hfield, rfl⟩ := List.mem_map.mp hpart
    exact (h.fields field hfield).plain (joinable_of_mem hlexicon hfield)
  · intro part hpart
    obtain ⟨flag, hflag, rfl⟩ := List.mem_map.mp hpart
    have htext {word : UInt64} {text : String} (htext : text ∈ (flagPart flag).texts word) :
        text = flag.2 := by
      simp only [flagPart] at htext
      grind
    constructor
    · intro word text hmem
      exact startsIn_of_mem (by rw [htext hmem]; exact List.mem_cons_self)
    · intro word text hmem
      rw [htext hmem]
      exact not_bar_of_bytes (h.plain flag hflag).1
    · intro word text hmem
      rw [htext hmem]
      exact (h.plain flag hflag).2

/-- The parts of a layout write alike for the words that agree on the bits it covers. -/
theorem texts_eq_iff : (∀ part ∈ layout.parts lexicon, part.texts a = part.texts b) ↔
    a &&& layout.covered = b &&& layout.covered := by
  have hfields : (∀ field ∈ layout.fields,
      (field.part lexicon).texts a = (field.part lexicon).texts b) ↔
        ∀ field ∈ layout.fields, a &&& field.mask = b &&& field.mask := by
    refine forall₂_congr fun field hfield => ?_
    rw [BitField.part_texts_eq_iff]
    exact (h.fields field hfield).spell_eq_spell_iff (joinable_of_mem hlexicon hfield)
  have hflags : (∀ flag ∈ layout.flags, (flagPart flag).texts a = (flagPart flag).texts b) ↔
      ∀ flag ∈ layout.flags, a &&& flag.1 = b &&& flag.1 :=
    forall₂_congr fun flag hflag => flagPart_texts_eq_iff (h.single flag hflag)
  have hgroups : ∀ group ∈ layout.groups, a &&& group.1 = b &&& group.1 := by
    rw [h.noGroups]
    exact fun group hgroup => nomatch hgroup
  rw [and_covered_eq_iff, parts, List.forall_mem_append, List.forall_mem_map, List.forall_mem_map,
    hfields, hflags, and_iff_right hgroups]

/-- Where the texts of no two parts start alike, a spelling tells the covered bits of a word, and
nothing else. -/
theorem spell_eq_spell_iff (hapart : layout.fronts.Pairwise FrontsApart) :
    layout.spell lexicon a = layout.spell lexicon b ↔
      a &&& layout.covered = b &&& layout.covered := by
  rw [← h.texts_eq_iff hlexicon, spell, spell, names_eq_flatMap h.noGroups,
    names_eq_flatMap h.noGroups]
  rw [← map_fronts_parts layout lexicon] at hapart
  exact FlagPart.join_texts_eq_iff (h.plain_parts hlexicon) hapart

end Discerning

end FlagLayout

end ModuleSource
