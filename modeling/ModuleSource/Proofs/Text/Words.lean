import Mathlib.Data.List.DropRight
import Mathlib.Data.List.TakeWhile
import Mathlib.Data.Nat.Init
import ModuleSource.Text.Blank
import ModuleSource.Text.Line

/-!
The words of a text. A blank between two texts keeps their words apart, and blanks at the ends of a
text do not count, so the words of a text are those of its lines. Nothing here depends on what the
words stand for.
-/

namespace ModuleSource.Text

/-- What a blank-separated word can be: at least one character, none of them blank. -/
def IsWord (w : List Char) : Prop := w ≠ [] ∧ ∀ c ∈ w, isBlank c = false

theorem isSolid_eq_true_iff {c : Char} : isSolid c = true ↔ isBlank c = false := by
  simp [isSolid]

theorem isSolid_eq_false_iff {c : Char} : isSolid c = false ↔ isBlank c = true := by
  simp [isSolid]

/-- A word was found at the first character that is not blank. -/
theorem firstWord?_eq_some {cs w rest : List Char} (h : firstWord? cs = some (w, rest)) :
    IsWord w ∧ cs.dropWhile isBlank = w ++ rest ∧ rest.dropWhile isSolid = rest := by
  unfold firstWord? at h
  split at h
  · simp at h
  · next c tail heq =>
    simp only [Option.some.injEq, Prod.mk.injEq] at h
    obtain ⟨rfl, rfl⟩ := h
    have hc : isBlank c = false := by
      have hhead := List.head_dropWhile_not isBlank (l := cs)
        (by rw [heq]; exact List.cons_ne_nil _ _)
      simpa only [heq, List.head_cons] using hhead
    refine ⟨⟨List.cons_ne_nil _ _, ?_⟩, ?_, ?_⟩
    · intro d hd
      rcases List.mem_cons.mp hd with rfl | hd
      · exact hc
      · exact isSolid_eq_true_iff.mp (List.mem_takeWhile_imp hd)
    · rw [heq, List.cons_append, List.takeWhile_append_dropWhile]
    · exact List.dropWhile_idempotent isSolid tail

theorem firstWord?_eq_none {cs : List Char} (h : firstWord? cs = none) :
    cs.dropWhile isBlank = [] := by
  unfold firstWord? at h
  split at h
  · assumption
  · simp at h

theorem words_of_firstWord? {cs w rest : List Char} (h : firstWord? cs = some (w, rest)) :
    words cs = w :: words rest := by
  rw [words]
  split
  · next hn => rw [h] at hn; cases hn
  · next hs =>
    rw [h] at hs
    obtain ⟨rfl, rfl⟩ := Prod.mk.inj (Option.some.inj hs)
    rfl

theorem words_of_firstWord?_none {cs : List Char} (h : firstWord? cs = none) : words cs = [] := by
  rw [words]
  split
  · rfl
  · next hs => rw [h] at hs; cases hs

@[simp]
theorem words_nil : words [] = [] := words_of_firstWord?_none rfl

theorem words_cons_blank {c : Char} (hc : isBlank c = true) (cs : List Char) :
    words (c :: cs) = words cs := by
  have hf : firstWord? (c :: cs) = firstWord? cs := by simp [firstWord?, hc]
  cases h : firstWord? cs with
  | none => rw [words_of_firstWord?_none h, words_of_firstWord?_none (hf.trans h)]
  | some found => rw [words_of_firstWord? h, words_of_firstWord? (hf.trans h)]

theorem words_cons_solid {c : Char} (hc : isBlank c = false) (cs : List Char) :
    words (c :: cs) = (c :: cs.takeWhile isSolid) :: words (cs.dropWhile isSolid) :=
  words_of_firstWord? (by simp [firstWord?, hc])

theorem words_blanks {g : List Char} (hg : ∀ c ∈ g, isBlank c = true) : words g = [] := by
  induction g with
  | nil => exact words_nil
  | cons c g ih =>
    rw [words_cons_blank (hg c List.mem_cons_self)]
    exact ih fun d hd => hg d (List.mem_cons_of_mem c hd)

/-- A blank keeps the words before it apart from those after it. -/
theorem words_append_cons_blank {c : Char} (hc : isBlank c = true) (u v : List Char) :
    words (u ++ c :: v) = words u ++ words v := by
  -- The recursion takes a whole word of `u` at a time, so the induction is on the length.
  induction hn : u.length using Nat.strong_induction_on generalizing u with
  | h n ih =>
    cases u with
    | nil => rw [List.nil_append, words_cons_blank hc, words_nil, List.nil_append]
    | cons a u =>
      rw [List.length_cons] at hn
      by_cases ha : isBlank a = true
      · rw [List.cons_append, words_cons_blank ha, words_cons_blank ha]
        exact ih u.length (by omega) u rfl
      · have ha' : isBlank a = false := by simpa using ha
        have hs : isSolid c = false := isSolid_eq_false_iff.mpr hc
        rw [List.cons_append, words_cons_solid ha', words_cons_solid ha']
        have hle := (List.dropWhile_suffix (l := u) isSolid).length_le
        have hrest := ih (u.dropWhile isSolid).length (by omega) (u.dropWhile isSolid) rfl
        by_cases hu : u.dropWhile isSolid = []
        · have hall : u.takeWhile isSolid = u := by
            have := List.takeWhile_append_dropWhile (p := isSolid) (l := u)
            rwa [hu, List.append_nil] at this
          rw [List.takeWhile_append, List.dropWhile_append, hall, hu]
          simp [hs, words_cons_blank hc]
        · have hlt : (u.takeWhile isSolid).length ≠ u.length := by
            have hsum := congrArg List.length
              (List.takeWhile_append_dropWhile (p := isSolid) (l := u))
            have hpos := List.length_pos_iff.mpr hu
            rw [List.length_append] at hsum
            omega
          rw [List.takeWhile_append, List.dropWhile_append, if_neg hlt, if_neg (by simpa using hu),
            hrest]
          rfl

theorem words_append_blanks (u : List Char) {g : List Char} (hg : ∀ c ∈ g, isBlank c = true) :
    words (u ++ g) = words u := by
  cases g with
  | nil => rw [List.append_nil]
  | cons c g =>
    rw [words_append_cons_blank (hg c List.mem_cons_self),
      words_blanks fun d hd => hg d (List.mem_cons_of_mem c hd), List.append_nil]

theorem words_dropWhile_blank (cs : List Char) : words (cs.dropWhile isBlank) = words cs := by
  induction cs with
  | nil => rfl
  | cons c cs ih =>
    by_cases hc : isBlank c = true
    · rw [List.dropWhile_cons_of_pos hc, words_cons_blank hc, ih]
    · rw [List.dropWhile_cons_of_neg hc]

/-- Blanks of any sort may be taken off the end of a text. -/
theorem words_reverse_dropWhile {p : Char → Bool} (hp : ∀ c, p c = true → isBlank c = true)
    (cs : List Char) : words (cs.reverse.dropWhile p).reverse = words cs := by
  have hsplit : cs = (cs.reverse.dropWhile p).reverse ++ (cs.reverse.takeWhile p).reverse := by
    rw [← List.reverse_append, List.takeWhile_append_dropWhile, List.reverse_reverse]
  conv_rhs => rw [hsplit]
  refine (words_append_blanks _ fun c hc => hp c ?_).symm
  exact List.mem_takeWhile_imp (List.mem_reverse.mp hc)

theorem words_trim (cs : List Char) : words (trim cs) = words cs := by
  rw [trim, words_reverse_dropWhile fun _ h => h, words_dropWhile_blank]

theorem words_dropReturns (cs : List Char) : words (dropReturns cs) = words cs := by
  refine words_reverse_dropWhile (fun c hc => ?_) cs
  rw [beq_iff_eq] at hc
  subst hc
  rfl

theorem words_eq_nil_iff {cs : List Char} : words cs = [] ↔ firstWord? cs = none := by
  refine ⟨fun h => ?_, words_of_firstWord?_none⟩
  cases hf : firstWord? cs with
  | none => rfl
  | some found =>
    rw [words_of_firstWord? hf] at h
    cases h

/-- A text without words is blank. -/
theorem trim_eq_nil_iff {cs : List Char} : trim cs = [] ↔ words cs = [] := by
  constructor
  · intro h
    rw [← words_trim, h, words_nil]
  · intro h
    rw [trim, firstWord?_eq_none (words_eq_nil_iff.mp h)]
    rfl

end ModuleSource.Text
