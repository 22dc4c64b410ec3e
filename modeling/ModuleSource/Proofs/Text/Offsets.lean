import ModuleSource.Proofs.Text.Encoding

/-!
Places in a text, counted in bytes. A text can be cut at a place only between two characters, and
not beyond its end; a cut anywhere else fails. Main statement: a cut at a number of bytes gives the
two parts of which the first has that number of bytes, so it fails just where there are none.
-/

namespace ModuleSource.Text

/-- The number of bytes that a text takes. -/
def byteSize (cs : List Char) : Nat := (String.ofList cs).utf8ByteSize

theorem byteSize_append (u v : List Char) : byteSize (u ++ v) = byteSize u + byteSize v := by
  rw [byteSize, String.ofList_append, String.utf8ByteSize_append]
  rfl

@[simp]
theorem byteSize_nil : byteSize [] = 0 := rfl

theorem byteSize_singleton (c : Char) : byteSize [c] = c.utf8Size := by
  rw [byteSize, ← String.singleton_eq_ofList, String.utf8ByteSize_singleton]

theorem byteSize_cons (c : Char) (cs : List Char) :
    byteSize (c :: cs) = c.utf8Size + byteSize cs := by
  rw [← List.singleton_append, byteSize_append, byteSize_singleton]

theorem byteSize_pos {cs : List Char} (h : cs ≠ []) : 0 < byteSize cs := by
  obtain ⟨c, cs, rfl⟩ := List.exists_cons_of_ne_nil h
  rw [byteSize_cons]
  have := c.utf8Size_pos
  omega

/-- The place is between two characters, or at an end. -/
def IsBoundary (cs : List Char) (place : Nat) : Prop :=
  (⟨place⟩ : String.Pos.Raw).IsValid (.ofList cs)

theorem isBoundary_iff {cs : List Char} {place : Nat} :
    IsBoundary cs place ↔ ∃ u v, cs = u ++ v ∧ byteSize u = place := by
  rw [IsBoundary, String.Pos.Raw.isValid_iff_exists_append]
  constructor
  · intro h
    obtain ⟨s, t, heq, hplace⟩ := h
    refine ⟨s.toList, t.toList, ?_, ?_⟩
    · rw [← String.toList_append, ← heq, String.toList_ofList]
    · rw [byteSize, String.ofList_toList]
      exact (congrArg String.Pos.Raw.byteIdx hplace).symm
  · intro h
    obtain ⟨u, v, hcs, hplace⟩ := h
    exact ⟨.ofList u, .ofList v, by rw [hcs, String.ofList_append],
      congrArg String.Pos.Raw.mk hplace.symm⟩

theorem IsBoundary.le_byteSize {cs : List Char} {place : Nat} (h : IsBoundary cs place) :
    place ≤ byteSize cs := h.le_utf8ByteSize

/-- The parts of a text before and after a place; none if the place is inside a character or beyond
the end. -/
def cut? : List Char → Nat → Option (List Char × List Char)
  | cs, 0 => some ([], cs)
  | [], _ + 1 => none
  | c :: cs, place + 1 =>
    if c.utf8Size ≤ place + 1 then
      (cut? cs (place + 1 - c.utf8Size)).map fun (u, v) => (c :: u, v)
    else none

theorem cut?_append (u v : List Char) : cut? (u ++ v) (byteSize u) = some (u, v) := by
  induction u with
  | nil =>
    rw [byteSize_nil, List.nil_append, cut?]
  | cons c u ih =>
    obtain ⟨n, hn⟩ := Nat.exists_eq_succ_of_ne_zero (byteSize_pos (List.cons_ne_nil c u)).ne'
    have hsize := byteSize_cons c u
    rw [hn] at hsize ⊢
    have hrest : n + 1 - c.utf8Size = byteSize u := by omega
    rw [List.cons_append, cut?, if_pos (by omega), hrest, ih]
    rfl

theorem cut?_eq_some_iff {cs u v : List Char} {place : Nat} :
    cut? cs place = some (u, v) ↔ cs = u ++ v ∧ byteSize u = place := by
  constructor
  · intro h
    fun_induction cut? cs place generalizing u with
    | case1 cs =>
      obtain ⟨rfl, rfl⟩ := Prod.mk.inj (Option.some.inj h)
      exact ⟨rfl, rfl⟩
    | case2 place => cases h
    | case3 c cs place hc ih =>
      obtain ⟨⟨u', v'⟩, hcut, heq⟩ := Option.map_eq_some_iff.mp h
      obtain ⟨rfl, rfl⟩ := Prod.mk.inj heq
      obtain ⟨rfl, hsize⟩ := ih hcut
      exact ⟨rfl, by rw [byteSize_cons]; omega⟩
    | case4 c cs place hc => cases h
  · rintro ⟨rfl, rfl⟩
    exact cut?_append u v

example : cut? ['a', 'é'] 2 = none ∧ cut? ['a', 'é'] 3 = some (['a', 'é'], []) := by decide

/-- The part of a text between two places. -/
def slice? (cs : List Char) (start stop : Nat) : Option (List Char) :=
  (cut? cs stop).bind fun (front, _) => (cut? front start).map Prod.snd

theorem slice?_append (u w v : List Char) :
    slice? (u ++ w ++ v) (byteSize u) (byteSize u + byteSize w) = some w := by
  rw [slice?, ← byteSize_append, cut?_append]
  exact congrArg (Option.map Prod.snd) (cut?_append u w)

/-- A slice has its two places between characters, the first not after the second. -/
theorem slice?_eq_some {cs w : List Char} {start stop : Nat} (h : slice? cs start stop = some w) :
    IsBoundary cs start ∧ IsBoundary cs stop ∧ stop = start + byteSize w := by
  obtain ⟨⟨front, back⟩, hfront, hcut⟩ := Option.bind_eq_some_iff.mp h
  obtain ⟨⟨before, part⟩, hbefore, heq⟩ := Option.map_eq_some_iff.mp hcut
  obtain rfl : part = w := heq
  obtain ⟨rfl, rfl⟩ := cut?_eq_some_iff.mp hfront
  obtain ⟨rfl, rfl⟩ := cut?_eq_some_iff.mp hbefore
  refine ⟨isBoundary_iff.mpr ⟨before, part ++ back, List.append_assoc .., rfl⟩,
    isBoundary_iff.mpr ⟨_, back, rfl, rfl⟩, byteSize_append before part⟩

end ModuleSource.Text
