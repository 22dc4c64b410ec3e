import ModuleSource.Proofs.Text.Words

/-!
Bytes, characters and lines. A line feed is one byte that no other character uses, so breaking the
bytes of a text into lines is breaking the text into lines: every physical line of a text in UTF-8
decodes, and to the line it came from.
-/

namespace ModuleSource.Text

/-- The bytes of a text. -/
def utf8 (cs : List Char) : List UInt8 := cs.flatMap String.utf8EncodeChar

theorem toList_eq_toList_data (bytes : ByteArray) : bytes.toList = bytes.data.toList := by
  have loop (i : Nat) (r : List UInt8) :
      ByteArray.toList.loop bytes i r = r.reverse ++ bytes.data.toList.drop i := by
    fun_induction ByteArray.toList.loop bytes i r with
    | case1 i r hi ih =>
      have hlen : i < bytes.data.toList.length := by simpa using hi
      rw [ih, List.drop_eq_getElem_cons hlen]
      simp [ByteArray.get!, hi]
    | case2 i r hi =>
      have hlen : bytes.data.toList.length ≤ i := by simpa using hi
      rw [List.drop_eq_nil_of_le hlen, List.append_nil]
  rw [ByteArray.toList, loop, List.reverse_nil, List.nil_append, List.drop_zero]

theorem toList_toUTF8 (s : String) : s.toUTF8.toList = utf8 s.toList := by
  rw [toList_eq_toList_data, String.toUTF8_eq_toByteArray, ← String.utf8Encode_toList,
    List.utf8Encode, List.toList_data_toByteArray, utf8]

/-- Decoding is exactly the inverse of encoding. -/
theorem decode?_eq_some_iff {bytes : List UInt8} {cs : List Char} :
    decode? bytes = some cs ↔ bytes = utf8 cs := by
  have hbytes (l : List UInt8) : (⟨l.toArray⟩ : ByteArray) = l.toByteArray := by
    apply ByteArray.ext
    rw [← Array.toList_inj, List.toList_data_toByteArray]
  unfold decode? String.fromUTF8?
  rw [hbytes]
  constructor
  · intro h
    split at h
    · next hv =>
      simp only [Option.map_some, Option.some.injEq] at h
      have he := congrArg List.utf8Encode h
      rw [String.utf8Encode_toList] at he
      have hl := congrArg (fun b : ByteArray => b.data.toList) he
      simpa only [String.fromUTF8, List.utf8Encode, List.toList_data_toByteArray, utf8] using hl
    · simp at h
  · rintro rfl
    have hv : (utf8 cs).toByteArray.IsValidUTF8 := ByteArray.isValidUTF8_utf8Encode (l := cs)
    have hs : String.fromUTF8 (utf8 cs).toByteArray hv = String.ofList cs := by
      rw [← String.toByteArray_inj, String.toByteArray_ofList]
      rfl
    rw [dif_pos hv, hs, Option.map_some, String.toList_ofList]

@[simp]
theorem decode?_utf8 (cs : List Char) : decode? (utf8 cs) = some cs := decode?_eq_some_iff.mpr rfl

/-- A byte below 128 stands for a character by itself. -/
theorem utf8EncodeChar_of_lt {c : Char} {b : UInt8} (hb : b ∈ String.utf8EncodeChar c)
    (h : b.toNat < 128) : String.utf8EncodeChar c = [b] ∧ c.toNat = b.toNat := by
  have large (n k : Nat) (hn : n < 64) (hk : 128 ≤ k) (hk' : k + n < 256) :
      128 ≤ (UInt8.ofNat (n + k)).toNat := by
    rw [UInt8.toNat_ofNat', Nat.mod_eq_of_lt (by omega)]
    omega
  revert hb
  fun_cases String.utf8EncodeChar c with
  | case1 v hv =>
    intro hb
    rw [List.mem_singleton] at hb
    subst hb
    refine ⟨rfl, ?_⟩
    rw [UInt8.toNat_ofNat', Nat.mod_eq_of_lt (by omega)]
    rfl
  | case2 v _ _ =>
    intro hb
    exfalso
    rcases List.mem_cons.mp hb with rfl | hb
    · exact absurd h (Nat.not_lt.mpr (large _ 0xc0 (by omega) (by omega) (by omega)))
    · rw [List.mem_singleton] at hb
      subst hb
      exact absurd h (Nat.not_lt.mpr (large _ 0x80 (by omega) (by omega) (by omega)))
  | case3 v _ _ _ =>
    intro hb
    exfalso
    rcases List.mem_cons.mp hb with rfl | hb
    · exact absurd h (Nat.not_lt.mpr (large _ 0xe0 (by omega) (by omega) (by omega)))
    · simp only [List.mem_cons, List.not_mem_nil, or_false] at hb
      rcases hb with rfl | rfl
      all_goals exact absurd h (Nat.not_lt.mpr (large _ 0x80 (by omega) (by omega) (by omega)))
  | case4 v _ _ _ =>
    intro hb
    exfalso
    rcases List.mem_cons.mp hb with rfl | hb
    · exact absurd h (Nat.not_lt.mpr (large _ 0xf0 (by omega) (by omega) (by omega)))
    · simp only [List.mem_cons, List.not_mem_nil, or_false] at hb
      rcases hb with rfl | rfl | rfl
      all_goals exact absurd h (Nat.not_lt.mpr (large _ 0x80 (by omega) (by omega) (by omega)))

theorem lineFeed_mem_utf8EncodeChar {c : Char} (h : lineFeed ∈ String.utf8EncodeChar c) :
    c = '\n' := by
  have hc : c.toNat = 10 := (utf8EncodeChar_of_lt h (by decide)).2
  exact Char.toNat_inj.mp hc

section Lines

variable {α β : Type} {p : α → Bool}

@[simp]
theorem breakAt_nil : breakAt p [] = [] := rfl

private theorem breakAt_go (piece cs : List α) (h : piece ≠ [] ∨ cs ≠ []) :
    breakAt.go p piece cs = (piece.reverse ++ cs.takeWhile (!p ·)) ::
      breakAt p ((cs.dropWhile (!p ·)).drop 1) := by
  induction cs generalizing piece with
  | nil =>
    have hp : piece ≠ [] := h.resolve_right fun h => h rfl
    simp [breakAt.go, hp]
  | cons a cs ih =>
    by_cases ha : p a = true
    · simp [breakAt.go, ha, breakAt]
    · have ha' : p a = false := by simpa using ha
      rw [breakAt.go, if_neg ha, ih (a :: piece) (Or.inl (List.cons_ne_nil _ _))]
      simp [ha']

/-- The first piece ends before the first break, and the other pieces are those after it. -/
theorem breakAt_of_ne_nil {cs : List α} (h : cs ≠ []) :
    breakAt p cs = cs.takeWhile (!p ·) :: breakAt p ((cs.dropWhile (!p ·)).drop 1) := by
  rw [breakAt, breakAt_go [] cs (Or.inr h), List.reverse_nil, List.nil_append]
  rfl

/-- Texts that are written one symbol at a time, with a break for a break and for nothing else, may
be broken before or after writing. -/
theorem breakAt_flatMap {q : β → Bool} {write : α → List β}
    (hbreak : ∀ a, p a = true → ∃ b, write a = [b] ∧ q b = true)
    (hother : ∀ a, p a = false → ∀ b ∈ write a, q b = false)
    (hne : ∀ a, write a ≠ []) (cs : List α) :
    breakAt q (cs.flatMap write) = (breakAt p cs).map (·.flatMap write) := by
  have skip (u : List β) (hu : ∀ b ∈ u, q b = false) (piece v : List β) :
      breakAt.go q piece (u ++ v) = breakAt.go q (u.reverse ++ piece) v := by
    induction u generalizing piece with
    | nil => rfl
    | cons b u ih =>
      have hb : ¬ q b = true := by simp [hu b List.mem_cons_self]
      rw [List.cons_append, breakAt.go, if_neg hb, ih fun b h => hu b (List.mem_cons_of_mem _ h),
        List.reverse_cons, List.append_assoc, List.singleton_append]
  have go (piece : List α) : breakAt.go q (piece.reverse.flatMap write).reverse (cs.flatMap write) =
      (breakAt.go p piece cs).map (·.flatMap write) := by
    induction cs generalizing piece with
    | nil =>
      cases piece with
      | nil => rfl
      | cons a piece => simp [breakAt.go, List.flatMap_eq_nil_iff, hne]
    | cons a cs ih =>
      by_cases ha : p a = true
      · obtain ⟨b, hw, hb⟩ := hbreak a ha
        have htail := ih []
        simp only [List.reverse_nil, List.flatMap_nil] at htail
        simp [breakAt.go, ha, hw, hb, htail]
      · have ha' : p a = false := by simpa using ha
        rw [List.flatMap_cons, skip _ (hother a ha'), breakAt.go, if_neg ha, ← ih (a :: piece)]
        simp
  exact go []

end Lines

/-- Breaking the bytes of a text at line feeds breaks the text at line feeds. -/
theorem breakAt_utf8 (cs : List Char) :
    breakAt (· == lineFeed) (utf8 cs) = (breakAt (· == '\n') cs).map utf8 := by
  refine breakAt_flatMap ?_ ?_ (fun _ => String.utf8EncodeChar_ne_nil) cs
  · intro c hc
    obtain rfl := eq_of_beq hc
    exact ⟨lineFeed, by decide, by decide⟩
  · intro c hc b hb
    by_contra h
    have hb' : b = lineFeed := eq_of_beq (by simpa using h)
    have hc' := lineFeed_mem_utf8EncodeChar (hb' ▸ hb)
    simp [hc'] at hc

/-- The words of a text are the words of its lines. -/
theorem flatMap_words_breakAt (cs : List Char) :
    (breakAt (· == '\n') cs).flatMap words = words cs := by
  induction hn : cs.length using Nat.strong_induction_on generalizing cs with
  | h n ih =>
    by_cases hcs : cs = []
    · rw [hcs, breakAt_nil, List.flatMap_nil, words_nil]
    · rw [breakAt_of_ne_nil hcs, List.flatMap_cons]
      have hsplit := List.takeWhile_append_dropWhile (p := fun c => !(c == '\n')) (l := cs)
      have hlen := congrArg List.length hsplit
      rw [List.length_append] at hlen
      cases hd : cs.dropWhile (fun c => !(c == '\n')) with
      | nil =>
        rw [hd, List.append_nil] at hsplit
        rw [List.drop_nil, breakAt_nil, List.flatMap_nil, List.append_nil, hsplit]
      | cons c rest =>
        have hc : c = '\n' := by
          have hhead := List.head_dropWhile_not (fun c => !(c == '\n')) (l := cs)
            (by rw [hd]; exact List.cons_ne_nil _ _)
          simpa [hd] using hhead
        rw [hd, List.length_cons] at hlen
        rw [List.drop_one, List.tail_cons, ih rest.length (by omega) rest rfl,
          ← words_append_cons_blank (c := c) (by rw [hc]; rfl), ← hd, hsplit]

end ModuleSource.Text
