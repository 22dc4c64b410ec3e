import ModuleSource.Proofs.Text.Words

/-!
Texts that can be read back. A way of writing is legible if the text of a value, in front of any
other text, tells both the value and where its text ends. Entries one after the other are legible
if the text that closes them starts no entry; words joined by commas are legible because the blanks
after the commas are not the one at the end of the line.
-/

namespace ModuleSource.Text

variable {α : Type}

/-- The values with the property are written so that no text starts with two of them, and what
follows a value is told from it. -/
def Legible (P : α → Prop) (write : α → List Char) : Prop :=
  ∀ ⦃a b : α⦄, P a → P b → ∀ ⦃r s : List Char⦄, write a ++ r = write b ++ s → a = b ∧ r = s

/-- The first character that breaks a rule marks the same place in equal texts. -/
theorem append_cons_inj {p : Char → Prop} {u v r s : List Char} {a b : Char}
    (hu : ∀ c ∈ u, p c) (hv : ∀ c ∈ v, p c) (ha : ¬p a) (hb : ¬p b)
    (h : u ++ a :: r = v ++ b :: s) : u = v ∧ a = b ∧ r = s := by
  induction u generalizing v with
  | nil =>
    cases v with
    | nil =>
      obtain ⟨hab, hrs⟩ := List.cons.inj h
      exact ⟨rfl, hab, hrs⟩
    | cons d v =>
      obtain ⟨had, -⟩ := List.cons.inj h
      exact absurd (had ▸ hv d List.mem_cons_self) ha
  | cons c u ih =>
    cases v with
    | nil =>
      obtain ⟨hcb, -⟩ := List.cons.inj h
      exact absurd (hcb ▸ hu c List.mem_cons_self) hb
    | cons d v =>
      obtain ⟨hcd, hrest⟩ := List.cons.inj h
      obtain ⟨huv, hab, hrs⟩ := ih (fun e he => hu e (List.mem_cons_of_mem c he))
        (fun e he => hv e (List.mem_cons_of_mem d he)) hrest
      exact ⟨by rw [hcd, huv], hab, hrs⟩

theorem Legible.flatMap {P : α → Prop} {write : α → List Char} (h : Legible P write)
    (stop : List Char) (hstop : ∀ a, P a → ∀ r s, write a ++ r ≠ stop ++ s) :
    Legible (fun as : List α => ∀ a ∈ as, P a) fun as => as.flatMap write ++ stop := by
  intro as bs has hbs r s heq
  induction as generalizing bs with
  | nil =>
    cases bs with
    | nil => exact ⟨rfl, List.append_cancel_left heq⟩
    | cons b bs =>
      simp only [List.flatMap_nil, List.nil_append, List.flatMap_cons, List.append_assoc] at heq
      exact absurd heq.symm (hstop b (hbs b List.mem_cons_self) _ _)
  | cons a as ih =>
    cases bs with
    | nil =>
      simp only [List.flatMap_nil, List.nil_append, List.flatMap_cons, List.append_assoc] at heq
      exact absurd heq (hstop a (has a List.mem_cons_self) _ _)
    | cons b bs =>
      simp only [List.flatMap_cons, List.append_assoc] at heq
      obtain ⟨rfl, hrest⟩ := h (has a List.mem_cons_self) (hbs b List.mem_cons_self) heq
      obtain ⟨rfl, hrs⟩ := ih (fun c hc => has c (List.mem_cons_of_mem a hc))
        (fun c hc => hbs c (List.mem_cons_of_mem a hc))
        (by simpa only [List.append_assoc] using hrest)
      exact ⟨rfl, hrs⟩

theorem solid_of_all {cs : List Char} (h : cs.all isSolid = true) : ∀ c ∈ cs, isBlank c = false :=
  fun c hc => isSolid_eq_true_iff.mp (List.all_eq_true.mp h c hc)

theorem not_solid_space : ¬isBlank ' ' = false := by decide

theorem not_solid_feed : ¬isBlank '\n' = false := by decide

section Joined

/-- What follows the first of some joined words, up to the end of the line. -/
def joinedTail (ws : List (List Char)) : List Char :=
  ws.flatMap (',' :: ' ' :: ·) ++ [')', ',', '\n']

theorem intercalate_cons (w : List Char) (ws : List (List Char)) :
    [',', ' '].intercalate (w :: ws) = w ++ ws.flatMap (',' :: ' ' :: ·) := by
  induction ws generalizing w with
  | nil => simp
  | cons v ws ih =>
    rw [List.intercalate_cons_cons, ih, List.flatMap_cons]
    simp

/-- A word ends at the comma before the next blank, and this blank ends the line only after the last
word. -/
theorem append_joinedTail_inj {u v : List Char} {us vs : List (List Char)} {r s : List Char}
    (hu : ∀ c ∈ u, isBlank c = false) (hv : ∀ c ∈ v, isBlank c = false)
    (hus : ∀ w ∈ us, ∀ c ∈ w, isBlank c = false) (hvs : ∀ w ∈ vs, ∀ c ∈ w, isBlank c = false)
    (h : u ++ joinedTail us ++ r = v ++ joinedTail vs ++ s) : u = v ∧ us = vs ∧ r = s := by
  have close {w : List Char} (hw : ∀ c ∈ w, isBlank c = false) :
      ∀ c ∈ w ++ [')', ','], isBlank c = false := List.forall_mem_append.mpr ⟨hw, solid_of_all rfl⟩
  have comma {w : List Char} (hw : ∀ c ∈ w, isBlank c = false) :
      ∀ c ∈ w ++ [','], isBlank c = false := List.forall_mem_append.mpr ⟨hw, solid_of_all rfl⟩
  have last (w t : List Char) : w ++ joinedTail [] ++ t = (w ++ [')', ',']) ++ '\n' :: t := by
    simp [joinedTail]
  have more (w x t : List Char) (xs : List (List Char)) :
      w ++ joinedTail (x :: xs) ++ t = (w ++ [',']) ++ ' ' :: (x ++ joinedTail xs ++ t) := by
    simp [joinedTail]
  induction us generalizing u v vs with
  | nil =>
    cases vs with
    | nil =>
      rw [last, last] at h
      obtain ⟨huv, -, hrs⟩ := append_cons_inj (close hu) (close hv) not_solid_feed not_solid_feed h
      exact ⟨List.append_cancel_right huv, rfl, hrs⟩
    | cons y vs =>
      rw [last, more] at h
      have hne := (append_cons_inj (close hu) (comma hv) not_solid_feed not_solid_space h).2.1
      exact absurd hne (by decide)
  | cons x us ih =>
    cases vs with
    | nil =>
      rw [more, last] at h
      have hne := (append_cons_inj (comma hu) (close hv) not_solid_space not_solid_feed h).2.1
      exact absurd hne (by decide)
    | cons y vs =>
      rw [more, more] at h
      obtain ⟨huv, -, hrest⟩ :=
        append_cons_inj (comma hu) (comma hv) not_solid_space not_solid_space h
      obtain ⟨rfl, rfl, hrs⟩ := ih (hus x List.mem_cons_self) (hvs y List.mem_cons_self)
        (fun w hw => hus w (List.mem_cons_of_mem x hw))
        (fun w hw => hvs w (List.mem_cons_of_mem y hw)) hrest
      exact ⟨List.append_cancel_right huv, rfl, hrs⟩

theorem legible_joined : Legible (fun ws => ∀ w ∈ ws, IsWord w)
    fun ws => [',', ' '].intercalate ws ++ [')', ',', '\n'] := by
  -- No word at all is written as an empty one would be, but words are not empty.
  have headTail (ws : List (List Char)) : [',', ' '].intercalate ws ++ [')', ',', '\n'] =
      ws.headD [] ++ joinedTail ws.tail := by
    cases ws with
    | nil => rfl
    | cons w ws => rw [intercalate_cons, List.append_assoc]; rfl
  have solid {ws : List (List Char)} (hws : ∀ w ∈ ws, IsWord w) :
      (∀ c ∈ ws.headD [], isBlank c = false) ∧
        ∀ w ∈ ws.tail, ∀ c ∈ w, isBlank c = false := by
    cases ws with
    | nil => simp
    | cons w ws => exact ⟨(hws w List.mem_cons_self).2,
        fun v hv => (hws v (List.mem_cons_of_mem w hv)).2⟩
  intro us vs hus hvs r s h
  simp only [headTail] at h
  obtain ⟨hhead, htail, hrs⟩ :=
    append_joinedTail_inj (solid hus).1 (solid hvs).1 (solid hus).2 (solid hvs).2 h
  refine ⟨?_, hrs⟩
  cases us with
  | nil =>
    cases vs with
    | nil => rfl
    | cons v vs => exact absurd hhead.symm (hvs v List.mem_cons_self).1
  | cons u us =>
    cases vs with
    | nil => exact absurd hhead (hus u List.mem_cons_self).1
    | cons v vs => exact congrArg₂ List.cons hhead htail

end Joined

section Numerals

theorem isBlank_of_isDigit {c : Char} (h : c.isDigit = true) : isBlank c = false := by
  simp only [Char.isDigit, Bool.and_eq_true, decide_eq_true_eq, ge_iff_le, UInt32.le_iff_toNat_le]
    at h
  have hc : 48 ≤ c.toNat ∧ c.toNat ≤ 57 := h
  simp only [isBlank, Bool.or_eq_false_iff, Bool.and_eq_false_iff, decide_eq_false_iff_not,
    beq_eq_false_iff_ne]
  omega

theorem isDigit_of_mem_toString {n : Nat} {c : Char} (h : c ∈ (toString n).toList) :
    c.isDigit = true := by
  rw [Nat.toString_eq_repr, Nat.toList_repr] at h
  exact Nat.isDigit_of_mem_toDigits (by decide) (by decide) h

theorem toString_nat_ne_nil (n : Nat) : (toString n).toList ≠ [] := by
  rw [Nat.toString_eq_repr, Nat.toList_repr]
  exact Nat.toDigits_ne_nil

theorem toString_nat_inj {m n : Nat} (h : toString m = toString n) : m = n := by
  rw [← String.toList_inj, Nat.toString_eq_repr, Nat.toString_eq_repr, Nat.toList_repr,
    Nat.toList_repr] at h
  have hvalue := congrArg (Nat.ofDigitChars 10 · 0) h
  simpa only [Nat.ofDigitChars_ten_toDigits] using hvalue

theorem toString_ofNat (n : Nat) : toString (Int.ofNat n) = toString n := rfl

theorem toString_negSucc (n : Nat) :
    (toString (Int.negSucc n)).toList = '-' :: (toString (n + 1)).toList := by
  change ("-" ++ toString (n + 1)).toList = _
  rw [String.toList_append]
  rfl

/-- An integer is written with digits, after a minus sign if it is negative. -/
theorem mem_toString_int {i : Int} {c : Char} (h : c ∈ (toString i).toList) :
    c = '-' ∨ c.isDigit = true := by
  cases i with
  | ofNat n => exact Or.inr (isDigit_of_mem_toString h)
  | negSucc n =>
    rw [toString_negSucc] at h
    rcases List.mem_cons.mp h with rfl | h
    · exact Or.inl rfl
    · exact Or.inr (isDigit_of_mem_toString h)

theorem isWord_toString_int (i : Int) : IsWord (toString i).toList := by
  constructor
  · cases i with
    | ofNat n => exact toString_nat_ne_nil n
    | negSucc n =>
      rw [toString_negSucc]
      exact List.cons_ne_nil _ _
  · intro c hc
    rcases mem_toString_int hc with rfl | hc
    · rfl
    · exact isBlank_of_isDigit hc

theorem toString_int_inj {i j : Int} (h : toString i = toString j) : i = j := by
  have noSign (m n : Nat) (h : toString (Int.ofNat m) = toString (Int.negSucc n)) : False := by
    have hmem : '-' ∈ (toString m).toList := by
      rw [← toString_ofNat, h, toString_negSucc]
      exact List.mem_cons_self
    exact absurd (isDigit_of_mem_toString hmem) (by decide)
  cases i with
  | ofNat m =>
    cases j with
    | ofNat n => exact congrArg Int.ofNat (toString_nat_inj h)
    | negSucc n => exact (noSign m n h).elim
  | negSucc m =>
    cases j with
    | ofNat n => exact (noSign n m h.symm).elim
    | negSucc n =>
      rw [← String.toList_inj, toString_negSucc, toString_negSucc] at h
      have hmn := toString_nat_inj (String.toList_inj.mp (List.cons.inj h).2)
      exact congrArg Int.negSucc (Nat.succ.inj hmn)

end Numerals

end ModuleSource.Text
