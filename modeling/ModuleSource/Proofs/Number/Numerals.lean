import Mathlib.Data.List.Forall2
import Mathlib.Data.List.TakeWhile
import ModuleSource.Number.Decimal
import ModuleSource.Proofs.Text.Legible

/-!
What numerals are made of. A numeral of any integer kind is digits after at most a sign or a mark,
so it starts with one of few characters; and every signed numeral can be read as floating point too,
since the digits of an integer are digits without a point and without an exponent. Every value has a
numeral, the one without a plus sign and without leading zeros.
-/

namespace ModuleSource.Number

open Text

variable {cs : List Char}

/-- Digits that are read one after the other have the value of their place notation. -/
theorem digits?_eq_some_iff {base n : Nat} {digit? : Char → Option Nat} :
    digits? base digit? cs = some n ↔ cs ≠ [] ∧ ∃ digits,
      List.Forall₂ (fun c d => digit? c = some d) cs digits ∧
        n = digits.foldl (fun value d => base * value + d) 0 := by
  -- A value that is already there is multiplied by the base once for each further digit.
  have loop (cs : List Char) (value : Nat) :
      cs.foldlM (fun value c => (digit? c).map (base * value + ·)) value = some n ↔
        ∃ digits, List.Forall₂ (fun c d => digit? c = some d) cs digits ∧
          n = digits.foldl (fun value d => base * value + d) value := by
    induction cs generalizing value with
    | nil => simp [List.forall₂_nil_left_iff, eq_comm]
    | cons c cs ih =>
      rw [List.foldlM_cons]
      simp only [Option.bind_eq_bind, Option.bind_eq_some_iff, Option.map_eq_some_iff, ih]
      constructor
      · rintro ⟨_, ⟨d, hd, rfl⟩, digits, hdigits, rfl⟩
        exact ⟨d :: digits, .cons hd hdigits, rfl⟩
      · rintro ⟨digits, hdigits, rfl⟩
        cases hdigits with
        | @cons _ d _ digits hd hdigits => exact ⟨_, ⟨d, hd, rfl⟩, digits, hdigits, rfl⟩
  unfold digits?
  split
  · next hempty => simp [List.isEmpty_iff.mp hempty]
  · next hne =>
    rw [loop]
    exact (and_iff_right (by simpa using hne)).symm

theorem digits?_eq_some {base n : Nat} {digit? : Char → Option Nat}
    (h : digits? base digit? cs = some n) : cs ≠ [] ∧ ∀ c ∈ cs, (digit? c).isSome := by
  obtain ⟨hne, digits, hdigits, -⟩ := digits?_eq_some_iff.mp h
  have hboth := hdigits.imp fun c d hd => And.intro (Option.isSome_of_eq_some hd) hd
  exact ⟨hne, ((List.forall₂_and_left cs digits).mp hboth).1⟩

theorem decimal?_eq_some {n : Nat} (h : decimal? cs = some n) :
    cs ≠ [] ∧ ∀ c ∈ cs, isDecimalDigit c = true :=
  digits?_eq_some h

/-- Plain digits have their last place at the point. -/
theorem places?_of_decimal? {n : Nat} (h : decimal? cs = some n) : places? cs = some (n, 0) := by
  have hdigits := (decimal?_eq_some h).2
  have hwhole : cs.takeWhile isDecimalDigit = cs := List.takeWhile_eq_self_iff.mpr hdigits
  have hrest : cs.dropWhile isDecimalDigit = [] := List.dropWhile_eq_nil_iff.mpr hdigits
  simp [places?, hwhole, hrest, h, powerOfTen?]

theorem dropPlus_of_ne (h : ∀ ds, cs ≠ '+' :: ds) : dropPlus cs = cs := by
  unfold dropPlus
  split
  · next ds => exact absurd rfl (h ds)
  · rfl

/-- After its sign a signed numeral is digits. -/
theorem signed?_eq_some {v : Int} (h : signed? cs = some v) :
    ∃ n, decimal? (takeSign cs).2 = some n := by
  unfold takeSign
  split
  · next ds =>
    cases hd : decimal? ds with
    | none => simp [signed?, hd] at h
    | some n => exact ⟨n, rfl⟩
  · next ds =>
    obtain ⟨n, hn, -⟩ := Option.map_eq_some_iff.mp h
    exact ⟨n, hn⟩
  · next hminus hplus =>
    rw [signed?.eq_2 cs hminus, dropPlus_of_ne hplus] at h
    obtain ⟨n, hn, -⟩ := Option.map_eq_some_iff.mp h
    exact ⟨n, hn⟩

/-- Every signed numeral is a numeral of floating point. -/
theorem float?_of_int? {v : Int} (h : int? cs = some v) : ∃ x, float? cs = some x := by
  obtain ⟨n, hn⟩ := signed?_eq_some (Option.filter_eq_some_iff.mp h).1
  unfold float?
  split
  next negative body hsign =>
  rw [hsign] at hn
  split
  · exact ⟨_, rfl⟩
  · split
    · exact ⟨_, rfl⟩
    · rw [places?_of_decimal? hn]
      exact ⟨_, rfl⟩

/-- The text starts with a sign or a digit. -/
def startsNumeral (cs : List Char) : Bool :=
  cs.head?.any fun c => c == '-' || c == '+' || isDecimalDigit c

theorem startsNumeral_append {cs : List Char} (h : cs ≠ []) (ds : List Char) :
    startsNumeral (cs ++ ds) = startsNumeral cs := by
  cases cs with
  | nil => exact absurd rfl h
  | cons c cs => rfl

theorem startsNumeral_of_dropPlus {n : Nat} (h : decimal? (dropPlus cs) = some n) :
    startsNumeral cs = true := by
  cases cs with
  | nil => cases h
  | cons c cs =>
    by_cases hc : c = '+'
    · simp [startsNumeral, hc]
    · rw [dropPlus_of_ne fun ds hds => hc (List.cons.inj hds).1] at h
      have hdigit := (decimal?_eq_some h).2 c List.mem_cons_self
      simp [startsNumeral, hdigit]

theorem startsNumeral_of_int? {v : Int} (h : int? cs = some v) : startsNumeral cs = true := by
  have hsigned := (Option.filter_eq_some_iff.mp h).1
  unfold signed? at hsigned
  split at hsigned
  · rfl
  · obtain ⟨n, hn, -⟩ := Option.map_eq_some_iff.mp hsigned
    exact startsNumeral_of_dropPlus hn

theorem startsNumeral_of_word? {α : Type} {bits : Nat} {ofNat : Nat → α} {v : α}
    (h : (word? bits cs).map ofNat = some v) : startsNumeral cs = true := by
  obtain ⟨n, hn, -⟩ := Option.map_eq_some_iff.mp h
  have hunsigned := (Option.filter_eq_some_iff.mp hn).1
  unfold unsigned? at hunsigned
  split at hunsigned
  · rfl
  · rfl
  · exact startsNumeral_of_dropPlus hunsigned

section Canonical

theorem decimalDigit?_of_isDigit {c : Char} (h : c.isDigit = true) :
    decimalDigit? c = some (c.toNat - '0'.toNat) := by
  have hrange : '0' ≤ c ∧ c ≤ '9' := by
    simpa [Char.isDigit, Char.le_def] using h
  exact if_pos hrange

/-- Digits have the value of their place notation. -/
theorem decimal?_of_isDigit (hne : cs ≠ []) (h : ∀ c ∈ cs, c.isDigit = true) :
    decimal? cs = some (Nat.ofDigitChars 10 cs 0) := by
  refine digits?_eq_some_iff.mpr ⟨hne, cs.map (·.toNat - '0'.toNat), ?_, ?_⟩
  · rw [List.forall₂_map_right_iff, List.forall₂_same]
    exact fun c hc => decimalDigit?_of_isDigit (h c hc)
  · rw [List.foldl_map]
    rfl

theorem decimal?_toString (n : Nat) : decimal? (toString n).toList = some n := by
  rw [decimal?_of_isDigit (toString_nat_ne_nil n) fun c hc => isDigit_of_mem_toString hc,
    Nat.toString_eq_repr, Nat.toList_repr, Nat.ofDigitChars_ten_toDigits]

theorem not_mem_toString {c : Char} (hc : c.isDigit = false) (n : Nat) :
    c ∉ (toString n).toList := by
  intro hmem
  rw [isDigit_of_mem_toString hmem] at hc
  cases hc

theorem toString_ne_cons {c : Char} (hc : c.isDigit = false) (n : Nat) (rest : List Char) :
    (toString n).toList ≠ c :: rest :=
  fun h => not_mem_toString hc n (h ▸ List.mem_cons_self)

theorem dropPlus_toString (n : Nat) : dropPlus (toString n).toList = (toString n).toList :=
  dropPlus_of_ne (toString_ne_cons (by decide) n)

theorem signed?_toString (v : Int) : signed? (toString v).toList = some v := by
  cases v with
  | ofNat n =>
    rw [toString_ofNat, signed?.eq_2 _ (toString_ne_cons (by decide) n), dropPlus_toString,
      decimal?_toString]
    rfl
  | negSucc n =>
    rw [toString_negSucc, signed?, decimal?_toString]
    rfl

/-- A value that a signed numeral can have. -/
def Signed64 (v : Int) : Prop := minInt ≤ v ∧ v ≤ maxInt

instance (v : Int) : Decidable (Signed64 v) :=
  inferInstanceAs (Decidable (minInt ≤ v ∧ v ≤ maxInt))

theorem int?_toString {v : Int} (h : Signed64 v) : int? (toString v).toList = some v := by
  rw [int?, signed?_toString]
  exact Option.filter_some_pos (decide_eq_true h)

/-- The mark of a hexadecimal numeral has a letter, which no decimal one has. -/
theorem unsigned?_toString (n : Nat) : unsigned? (toString n).toList = some n := by
  have unmarked {c : Char} (hc : c.isDigit = false) (rest : List Char) :
      (toString n).toList ≠ '0' :: c :: rest :=
    fun h => not_mem_toString hc n (h ▸ List.mem_cons_of_mem _ List.mem_cons_self)
  rw [unsigned?.eq_3 _ (unmarked (by decide)) (unmarked (by decide)), dropPlus_toString,
    decimal?_toString]

theorem word?_toString {bits n : Nat} (h : n < Nat.pow 2 bits) :
    word? bits (toString n).toList = some n := by
  rw [word?, unsigned?_toString]
  exact Option.filter_some_pos (decide_eq_true h)

theorem word32?_toString (v : UInt32) : word32? (toString v.toNat).toList = some v := by
  rw [word32?, word?_toString v.toNat_lt, Option.map_some, UInt32.ofNat_toNat]

theorem word64?_toString (v : UInt64) : word64? (toString v.toNat).toList = some v := by
  rw [word64?, word?_toString v.toNat_lt, Option.map_some, UInt64.ofNat_toNat]

end Canonical

end ModuleSource.Number
