import Mathlib.Data.List.Forall2
import Mathlib.Data.Nat.Digits.Defs
import ModuleSource.Proofs.Number.Numerals
import ModuleSource.Proofs.Source.Tokens

/-!
Integers are read from their numerals and from nothing else. The grammar here gives a numeral its
value by place notation, with no limit on its digits; a read accepts the numerals whose values fit
into its width. Signs and marks are told apart by their first characters, so every numeral has one
value.
-/

namespace ModuleSource

namespace Number

/-- The character stands for a digit of the base. Digits above nine are letters of either case. -/
def IsDigit (base : Nat) (c : Char) (d : Nat) : Prop :=
  d < base ∧ (c = d.digitChar ∨ c = d.digitChar.toUpper)

/-- One or more digits, the most significant first, and their value. -/
def Numeral (base : Nat) (cs : List Char) (n : Nat) : Prop :=
  cs ≠ [] ∧ ∃ digits, List.Forall₂ (IsDigit base) cs digits ∧ n = Nat.ofDigits base digits.reverse

/-- A numeral that may have a plus sign. -/
inductive PlusNumeral (base : Nat) : List Char → Nat → Prop
  | bare {cs : List Char} {n : Nat} (numeral : Numeral base cs n) : PlusNumeral base cs n
  | plus {cs : List Char} {n : Nat} (numeral : Numeral base cs n) : PlusNumeral base ('+' :: cs) n

/-- A decimal numeral that may have a sign. -/
inductive SignedNumeral : List Char → Int → Prop
  | positive {cs : List Char} {n : Nat} (numeral : PlusNumeral 10 cs n) : SignedNumeral cs n
  | minus {cs : List Char} {n : Nat} (numeral : Numeral 10 cs n) : SignedNumeral ('-' :: cs) (-n)

/-- The text starts with the mark of hexadecimal numerals. -/
def HasMark (cs : List Char) : Prop := ['0', 'x'] <+: cs ∨ ['0', 'X'] <+: cs

/-- A hexadecimal numeral after a mark, or a decimal one without; both may have a plus sign. -/
inductive UnsignedNumeral : List Char → Nat → Prop
  | hexadecimal {mark : Char} {cs : List Char} {n : Nat} (isMark : mark = 'x' ∨ mark = 'X')
    (numeral : PlusNumeral 16 cs n) : UnsignedNumeral ('0' :: mark :: cs) n
  | decimal {cs : List Char} {n : Nat} (unmarked : ¬HasMark cs) (numeral : PlusNumeral 10 cs n) :
    UnsignedNumeral cs n

section Digits

variable {c : Char} {d n base : Nat} {cs : List Char}

theorem toNat_digitChar : ∀ d < 16, d.digitChar.toNat = (if d < 10 then 48 + d else 87 + d) ∧
    d.digitChar.toUpper.toNat = if d < 10 then 48 + d else 55 + d := by
  decide

theorem isDigit_iff (hbase : base ≤ 16) : IsDigit base c d ↔
    d < base ∧ (c.toNat = (if d < 10 then 48 + d else 87 + d) ∨
      c.toNat = if d < 10 then 48 + d else 55 + d) := by
  refine and_congr_right fun hd => ?_
  obtain ⟨hlower, hupper⟩ := toNat_digitChar d (by omega)
  rw [← Char.toNat_inj, ← Char.toNat_inj, hlower, hupper]

theorem decimalDigit?_eq_some_iff : decimalDigit? c = some d ↔ IsDigit 10 c d := by
  have hrange : ('0' ≤ c ∧ c ≤ '9') ↔ 48 ≤ c.toNat ∧ c.toNat ≤ 57 := Iff.rfl
  rw [isDigit_iff (by decide), decimalDigit?]
  split
  · next h =>
    rw [hrange] at h
    rw [Option.some.injEq]
    change c.toNat - 48 = d ↔ _
    split <;> omega
  · next h =>
    rw [hrange] at h
    simp only [reduceCtorEq, false_iff]
    split <;> omega

theorem hexDigit?_eq_some_iff : hexDigit? c = some d ↔ IsDigit 16 c d := by
  have hdecimal : ('0' ≤ c ∧ c ≤ '9') ↔ 48 ≤ c.toNat ∧ c.toNat ≤ 57 := Iff.rfl
  have hlower : ('a' ≤ c ∧ c ≤ 'f') ↔ 97 ≤ c.toNat ∧ c.toNat ≤ 102 := Iff.rfl
  have hupper : ('A' ≤ c ∧ c ≤ 'F') ↔ 65 ≤ c.toNat ∧ c.toNat ≤ 70 := Iff.rfl
  rw [isDigit_iff (by decide), hexDigit?]
  simp only [hdecimal, hlower, hupper]
  split
  · rw [Option.some.injEq]
    change c.toNat - 48 = d ↔ _
    split <;> omega
  split
  · rw [Option.some.injEq]
    change c.toNat - 97 + 10 = d ↔ _
    split <;> omega
  split
  · rw [Option.some.injEq]
    change c.toNat - 65 + 10 = d ↔ _
    split <;> omega
  · simp only [reduceCtorEq, false_iff]
    split <;> omega

theorem digits?_eq_some_iff_numeral {digit? : Char → Option Nat}
    (hdigit : ∀ c d, digit? c = some d ↔ IsDigit base c d) :
    digits? base digit? cs = some n ↔ Numeral base cs n := by
  simp only [digits?_eq_some_iff, Numeral, hdigit, Nat.ofDigits_eq_foldr, List.foldr_reverse,
    Nat.cast_id, Nat.add_comm]

theorem decimal?_eq_some_iff : decimal? cs = some n ↔ Numeral 10 cs n :=
  digits?_eq_some_iff_numeral fun _ _ => decimalDigit?_eq_some_iff

theorem hexadecimal?_eq_some_iff : hexadecimal? cs = some n ↔ Numeral 16 cs n :=
  digits?_eq_some_iff_numeral fun _ _ => hexDigit?_eq_some_iff

theorem Numeral.exists_isDigit (h : Numeral base (c :: cs) n) : ∃ d, IsDigit base c d := by
  obtain ⟨-, digits, hdigits, -⟩ := h
  cases hdigits with
  | cons hd _ => exact ⟨_, hd⟩

theorem not_isDigit_sign (hbase : base ≤ 16) {sign : Char} (hsign : sign = '+' ∨ sign = '-')
    (d : Nat) : ¬IsDigit base sign d := by
  rw [isDigit_iff hbase]
  rcases hsign with rfl | rfl
  · change ¬(_ ∧ (43 = _ ∨ 43 = _))
    split <;> omega
  · change ¬(_ ∧ (45 = _ ∨ 45 = _))
    split <;> omega

end Digits

section Signs

variable {base n : Nat} {v : Int} {cs : List Char}

theorem numeral_dropPlus_iff (hbase : base ≤ 16) :
    Numeral base (dropPlus cs) n ↔ PlusNumeral base cs n := by
  fun_cases dropPlus cs with
  | case1 cs =>
    refine ⟨.plus, fun h => ?_⟩
    generalize hcs : '+' :: cs = text at h
    cases h with
    | bare numeral =>
      obtain ⟨d, hd⟩ := (hcs ▸ numeral).exists_isDigit
      exact absurd hd (not_isDigit_sign hbase (Or.inl rfl) d)
    | plus numeral => exact (List.cons.inj hcs).2 ▸ numeral
  | case2 cs hne =>
    refine ⟨.bare, fun h => ?_⟩
    cases h with
    | bare numeral => exact numeral
    | plus numeral => exact absurd rfl (hne _)

/-- A minus sign starts neither digits nor a numeral with a plus sign. -/
theorem not_plusNumeral_minus (hbase : base ≤ 16) : ¬PlusNumeral base ('-' :: cs) n := by
  rw [← numeral_dropPlus_iff hbase]
  intro h
  obtain ⟨d, hd⟩ := Numeral.exists_isDigit h
  exact not_isDigit_sign hbase (Or.inr rfl) d hd

theorem signed?_minus (cs : List Char) :
    signed? ('-' :: cs) = (decimal? cs).map fun n : Nat => -(n : Int) := by
  cases h : decimal? cs <;> simp [signed?, h]

theorem signed?_eq_some_iff : signed? cs = some v ↔ SignedNumeral cs v := by
  by_cases hminus : ∃ ds, cs = '-' :: ds
  · obtain ⟨cs, rfl⟩ := hminus
    simp only [signed?_minus, Option.map_eq_some_iff, decimal?_eq_some_iff]
    constructor
    · rintro ⟨n, hn, rfl⟩
      exact .minus hn
    · intro h
      generalize hcs : '-' :: cs = text at h
      cases h with
      | positive numeral => exact absurd (hcs ▸ numeral) (not_plusNumeral_minus (by decide))
      | minus numeral => exact ⟨_, (List.cons.inj hcs).2 ▸ numeral, rfl⟩
  · rw [signed?.eq_2 cs fun ds hds => hminus ⟨ds, hds⟩]
    have hten : 10 ≤ 16 := by decide
    simp only [Option.map_eq_some_iff, decimal?_eq_some_iff, numeral_dropPlus_iff hten]
    constructor
    · rintro ⟨n, hn, rfl⟩
      exact .positive hn
    · intro h
      cases h with
      | positive numeral => exact ⟨_, numeral, rfl⟩
      | minus numeral => exact absurd ⟨_, rfl⟩ hminus

theorem unsigned?_eq_some_iff : unsigned? cs = some n ↔ UnsignedNumeral cs n := by
  have marked {mark : Char} (hmark : mark = 'x' ∨ mark = 'X') (cs : List Char) :
      hexadecimal? (dropPlus cs) = some n ↔ UnsignedNumeral ('0' :: mark :: cs) n := by
    rw [hexadecimal?_eq_some_iff, numeral_dropPlus_iff (by decide)]
    refine ⟨.hexadecimal hmark, fun h => ?_⟩
    generalize hcs : '0' :: mark :: cs = text at h
    cases h with
    | hexadecimal isMark numeral =>
      exact (List.cons.inj (List.cons.inj hcs).2).2 ▸ numeral
    | decimal unmarked numeral =>
      rw [← hcs] at unmarked
      rcases hmark with rfl | rfl
      · exact absurd (Or.inl (List.prefix_append ['0', 'x'] cs)) unmarked
      · exact absurd (Or.inr (List.prefix_append ['0', 'X'] cs)) unmarked
  fun_cases unsigned? cs with
  | case1 cs => exact marked (Or.inl rfl) cs
  | case2 cs => exact marked (Or.inr rfl) cs
  | case3 cs hlower hupper =>
    rw [decimal?_eq_some_iff, numeral_dropPlus_iff (by decide)]
    constructor
    · refine .decimal ?_
      rintro (⟨rest, rfl⟩ | ⟨rest, rfl⟩)
      · exact hlower rest rfl
      · exact hupper rest rfl
    · intro h
      cases h with
      | decimal unmarked numeral => exact numeral
      | hexadecimal isMark numeral =>
        rcases isMark with rfl | rfl
        · exact absurd rfl (hlower _)
        · exact absurd rfl (hupper _)

theorem int?_eq_some_iff : int? cs = some v ↔
    SignedNumeral cs v ∧ -9223372036854775808 ≤ v ∧ v ≤ 9223372036854775807 := by
  rw [int?, Option.filter_eq_some_iff, signed?_eq_some_iff, decide_eq_true_iff]
  rfl

theorem word?_eq_some_iff {bits : Nat} :
    word? bits cs = some n ↔ UnsignedNumeral cs n ∧ n < Nat.pow 2 bits := by
  rw [word?, Option.filter_eq_some_iff, unsigned?_eq_some_iff, decide_eq_true_iff]

/-- Numbers below the limit are the words of that many bits, one for each. -/
theorem map_word?_eq_some_iff {α : Type} {bits : Nat} {ofNat : Nat → α} {toNat : α → Nat}
    (hlt : ∀ w, toNat w < Nat.pow 2 bits) (hofNat : ∀ w, ofNat (toNat w) = w)
    (htoNat : ∀ n < Nat.pow 2 bits, toNat (ofNat n) = n) {w : α} :
    (word? bits cs).map ofNat = some w ↔ UnsignedNumeral cs (toNat w) := by
  simp only [Option.map_eq_some_iff, word?_eq_some_iff]
  constructor
  · rintro ⟨n, ⟨hn, hsmall⟩, rfl⟩
    rwa [htoNat n hsmall]
  · intro h
    exact ⟨toNat w, ⟨h, hlt w⟩, hofNat w⟩

theorem word32?_eq_some_iff {w : UInt32} : word32? cs = some w ↔ UnsignedNumeral cs w.toNat :=
  map_word?_eq_some_iff UInt32.toNat_lt (fun _ => UInt32.ofNat_toNat)
    fun _ h => UInt32.toNat_ofNat_of_lt' h

theorem word64?_eq_some_iff {w : UInt64} : word64? cs = some w ↔ UnsignedNumeral cs w.toNat :=
  map_word?_eq_some_iff UInt64.toNat_lt (fun _ => UInt64.ofNat_toNat)
    fun _ h => UInt64.toNat_ofNat_of_lt' h

end Signs

end Number

namespace Source

open Number

/-- The next token of a source, read as the given kind, gives a value exactly if the rule gives it
that value, and else is reported as it stands; it is consumed in both cases. -/
structure ReadsBy (kind : TokenForm) (rule : List Char → kind.Value → Prop) (s : Source)
    (token : List Char) (s' : Source) : Prop where
  accepts : ∀ v, s.read kind = (.ok v, s') ↔ rule token v
  rejects : (∀ v, ¬rule token v) →
    s.read kind = (.error (.malformed s'.line (String.ofList token) kind), s')

theorem readsBy_of_takeWord {kind : TokenForm} {rule : List Char → kind.Value → Prop}
    (hrule : ∀ cs v, kind.parse? cs = some v ↔ rule cs v) {s s' : Source} {token : List Char}
    (took : s.takeWord = (.ok token, s')) : ReadsBy kind rule s token s' := by
  constructor
  · intro v
    rw [← hrule]
    refine ⟨fun h => ?_, read_of_takeWord took⟩
    rw [read, took] at h
    dsimp only at h
    split at h
    · next value hvalue =>
      rw [hvalue, Except.ok.inj (Prod.mk.inj h).1]
    · cases h
  · intro hnone
    have hparse : kind.parse? token = none := by
      rw [Option.eq_none_iff_forall_ne_some]
      intro v hv
      exact hnone v ((hrule token v).mp hv)
    simp only [read, took, hparse]

/-- Integers are read from exactly their numerals, of whatever length: a token that is no numeral of
the kind, or whose value does not fit, is reported with the line it stands on. In both cases the
token is taken and nothing else. -/
theorem read_accepts_numerals {s s' : Source} {token : List Char}
    (took : s.takeWord = (.ok token, s')) :
    s.tokens = token :: s'.tokens ∧
      ReadsBy .int (fun cs v => SignedNumeral cs v ∧
        -9223372036854775808 ≤ v ∧ v ≤ 9223372036854775807) s token s' ∧
      ReadsBy .word32 (fun cs v => UnsignedNumeral cs v.toNat) s token s' ∧
      ReadsBy .word64 (fun cs v => UnsignedNumeral cs v.toNat) s token s' := by
  have step := wordStep_takeWord s
  rw [took] at step
  refine ⟨?_, ?_, ?_, ?_⟩
  · cases step with
    | word isWord step => exact step.tokens_eq
  · refine readsBy_of_takeWord (fun cs v => ?_) took
    exact int?_eq_some_iff
  · refine readsBy_of_takeWord (fun cs v => ?_) took
    exact word32?_eq_some_iff
  · refine readsBy_of_takeWord (fun cs v => ?_) took
    exact word64?_eq_some_iff

/-- The greatest value of 32 bits, with a sign after its mark, zeros before its digits and letters
of both cases, on the second line: it is a word and no signed integer. -/
theorem read_accepts_numerals_greatest :
    let s := ofBytes "7\n 0X+000000000fFfFfFfF 8".toUTF8
    let t := s.takeWord.2
    let token := "0X+000000000fFfFfFfF"
    let t' := t.takeWord.2
    t.takeWord = (.ok token.toList, t') ∧ UnsignedNumeral token.toList 4294967295 ∧
      t.tokens = token.toList :: t'.tokens ∧
      t.read .word32 = (.ok 4294967295, t') ∧
      t.read .int = (.error (.malformed 2 token .int), t') := by
  intro s t token t'
  have took : t.takeWord = (.ok token.toList, t') := by decide +kernel
  have hline : t'.line = 2 := by decide +kernel
  have hnumeral : UnsignedNumeral token.toList 4294967295 :=
    unsigned?_eq_some_iff.mp (by decide +kernel)
  have hsigned : ∀ v : Int, ¬(SignedNumeral token.toList v ∧
      -9223372036854775808 ≤ v ∧ v ≤ 9223372036854775807) := by
    have hnone : signed? token.toList = none := by decide +kernel
    intro v hv
    rw [signed?_eq_some_iff.mpr hv.1] at hnone
    cases hnone
  obtain ⟨htokens, hint, hword32, -⟩ := read_accepts_numerals took
  refine ⟨took, hnumeral, htokens, (hword32.accepts 4294967295).mpr hnumeral, ?_⟩
  have hrejected := hint.rejects hsigned
  rwa [hline, String.ofList_toList] at hrejected

end Source

end ModuleSource
