import ModuleSource.Proofs.Source.Tokens

/-!
Two ways to write a text. Some systems put a carriage return before every line feed, and a byte
order mark in front of the text. The lines and words of a text without carriage returns are the same
in both forms, and so is the source that it is read from: the last line keeps its place whether or
not it has an ending, and a line is empty in both or in none.
-/

namespace ModuleSource

namespace Text

/-- The text with a carriage return before every line feed. -/
def withReturns (cs : List Char) : List Char :=
  cs.flatMap fun c => if c = '\n' then ['\r', '\n'] else [c]

/-- The text as other systems write it, with a mark and with carriage returns. -/
def marked (text : String) : String := .ofList (byteOrderMark :: withReturns text.toList)

section Returns

variable {cs : List Char}

theorem withReturns_of_ne {c : Char} (hc : c ≠ '\n') (cs : List Char) :
    withReturns (c :: cs) = c :: withReturns cs := by
  rw [withReturns, List.flatMap_cons, if_neg hc]
  rfl

theorem dropReturns_of_not_mem (h : '\r' ∉ cs) : dropReturns cs = cs := by
  have hself : cs.reverse.dropWhile (· == '\r') = cs.reverse := by
    rw [List.dropWhile_eq_self_iff]
    intro hlen hhead
    refine h ?_
    rw [← List.mem_reverse, ← eq_of_beq hhead]
    exact List.getElem_mem hlen
  rw [dropReturns, hself, List.reverse_reverse]

theorem dropReturns_concat (cs : List Char) : dropReturns (cs ++ ['\r']) = dropReturns cs := by
  rw [dropReturns, dropReturns, List.reverse_concat]
  rfl

/-- Without their carriage returns the lines are those of the text. -/
theorem map_dropReturns_breakAt_withReturns (h : '\r' ∉ cs) :
    (breakAt (· == '\n') (withReturns cs)).map dropReturns = breakAt (· == '\n') cs := by
  -- The piece that is being collected has no carriage return either; one comes only before a break.
  have go (piece : List Char) (hpiece : '\r' ∉ piece) :
      (breakAt.go (· == '\n') piece (withReturns cs)).map dropReturns =
        breakAt.go (· == '\n') piece cs := by
    induction cs generalizing piece with
    | nil =>
      change (if piece.isEmpty then [] else [piece.reverse]).map dropReturns = _
      rw [breakAt.go]
      split
      · rfl
      · rw [List.map_singleton, dropReturns_of_not_mem (by rwa [List.mem_reverse])]
    | cons c cs ih =>
      rw [List.mem_cons, not_or] at h
      by_cases hc : c = '\n'
      · subst hc
        have hline : dropReturns ('\r' :: piece).reverse = piece.reverse := by
          rw [List.reverse_cons, dropReturns_concat,
            dropReturns_of_not_mem (by rwa [List.mem_reverse])]
        change dropReturns ('\r' :: piece).reverse :: (breakAt.go _ [] (withReturns cs)).map _ = _
        rw [hline, ih h.2 [] (by simp)]
        rfl
      · have hbreak : ¬(c == '\n') = true := by simpa using hc
        rw [withReturns_of_ne hc, breakAt.go, breakAt.go, if_neg hbreak, if_neg hbreak]
        refine ih h.2 (c :: piece) ?_
        rw [List.mem_cons, not_or]
        exact ⟨h.1, hpiece⟩
  exact go [] (by simp)

theorem dropReturns_dropReturns (cs : List Char) :
    dropReturns (dropReturns cs) = dropReturns cs := by
  rw [dropReturns, dropReturns, List.reverse_reverse, List.dropWhile_idempotent]

theorem map_dropReturns_breakAt (h : '\r' ∉ cs) :
    (breakAt (· == '\n') cs).map dropReturns = breakAt (· == '\n') cs := by
  have htwice : dropReturns ∘ dropReturns = dropReturns := funext dropReturns_dropReturns
  rw [← map_dropReturns_breakAt_withReturns h, List.map_map, htwice]

theorem words_withReturns (h : '\r' ∉ cs) : words (withReturns cs) = words cs := by
  rw [← flatMap_words_breakAt cs, ← map_dropReturns_breakAt_withReturns h, List.flatMap_map]
  simp only [words_dropReturns]
  rw [flatMap_words_breakAt]

theorem lines_withReturns (h : '\r' ∉ cs) : lines (withReturns cs) = lines cs := by
  have go (line : List Char) (hline : '\r' ∉ line) :
      lines.go line (withReturns cs) = lines.go line cs := by
    induction cs generalizing line with
    | nil => rfl
    | cons c cs ih =>
      rw [List.mem_cons, not_or] at h
      by_cases hc : c = '\n'
      · subst hc
        have hkept : lines.dropReturn line = line := by
          cases line with
          | nil => rfl
          | cons a line =>
            have ha : a ≠ '\r' := fun heq => hline (by simp [heq])
            simp [lines.dropReturn, ha]
        change line.reverse :: lines.go [] (withReturns cs) =
          (lines.dropReturn line).reverse :: lines.go [] cs
        rw [hkept, ih h.2 [] (by simp)]
      · rw [withReturns_of_ne hc]
        have hstep (cs : List Char) : lines.go line (c :: cs) = lines.go (c :: line) cs := by
          simp [lines.go]
        rw [hstep, hstep]
        refine ih h.2 (c :: line) ?_
        rw [List.mem_cons, not_or]
        exact ⟨h.1, hline⟩
  exact go [] (by simp)

end Returns

/-- A text that has a line and is all text: it has neither carriage returns nor a mark. -/
structure Unmarked (text : String) : Prop where
  ne_empty : text ≠ ""
  noReturn : '\r' ∉ text.toList
  noMark : text.toList.head? ≠ some byteOrderMark

instance (text : String) : Decidable (Unmarked text) :=
  decidable_of_iff (text ≠ "" ∧ '\r' ∉ text.toList ∧ text.toList.head? ≠ some byteOrderMark)
    ⟨fun ⟨h, h', h''⟩ => ⟨h, h', h''⟩, fun h => ⟨h.1, h.2, h.3⟩⟩

theorem dropMark_of_head? {cs : List Char} (h : cs.head? ≠ some byteOrderMark) :
    dropMark cs = cs := by
  cases cs with
  | nil => rfl
  | cons c cs => rw [dropMark, if_neg fun heq => h (by rw [heq]; rfl)]

theorem dropMark_mark (cs : List Char) : dropMark (byteOrderMark :: cs) = cs := rfl

end Text

open Text

namespace Source

/-- The lines of a text, without their endings and without its mark. -/
theorem pending_ofBytes_toUTF8 (text : String) : (ofBytes text.toUTF8).pending =
    PhysicalLine.unmark
      (((breakAt (· == '\n') text.toList).map dropReturns).map PhysicalLine.text) := by
  change PhysicalLine.unmark ((breakAt (· == lineFeed) text.toUTF8.toList).map .ofBytes) = _
  rw [toList_toUTF8, breakAt_utf8, List.map_map, List.map_map]
  congr 1
  refine List.map_congr_left fun line _ => ?_
  simp [PhysicalLine.ofBytes]

/-- A text is the same source in both forms. -/
theorem ofBytes_marked {text : String} (h : Unmarked text) :
    ofBytes (marked text).toUTF8 = ofBytes text.toUTF8 := by
  have hne : text.toList ≠ [] := by simpa using h.ne_empty
  -- The mark is the first character of the first line, so it may be there before the returns.
  have hlines : (breakAt (· == '\n') (marked text).toList).map dropReturns =
      breakAt (· == '\n') (byteOrderMark :: text.toList) := by
    rw [marked, String.toList_ofList, ← withReturns_of_ne (by decide)]
    refine map_dropReturns_breakAt_withReturns ?_
    rw [List.mem_cons, not_or]
    exact ⟨by decide, h.noReturn⟩
  have hfirst : (text.toList.takeWhile (!· == '\n')).head? ≠ some byteOrderMark := by
    intro hhead
    obtain ⟨rest, hrest⟩ := List.takeWhile_prefix (l := text.toList) (!· == '\n')
    refine h.noMark ?_
    rw [← hrest, List.head?_append, hhead]
    rfl
  have hpending : (ofBytes (marked text).toUTF8).pending = (ofBytes text.toUTF8).pending := by
    rw [pending_ofBytes_toUTF8, pending_ofBytes_toUTF8, hlines, map_dropReturns_breakAt h.noReturn,
      breakAt_of_ne_nil (List.cons_ne_nil _ _), breakAt_of_ne_nil hne,
      List.takeWhile_cons_of_pos (by decide), List.dropWhile_cons_of_pos (by decide)]
    change PhysicalLine.text _ :: _ = PhysicalLine.text (dropMark _) :: _
    rw [dropMark_of_head? hfirst, dropMark_mark]
  change Source.mk _ 0 0 [] [] = Source.mk _ 0 0 [] []
  exact congrArg (Source.mk · 0 0 [] []) hpending

end Source

end ModuleSource
