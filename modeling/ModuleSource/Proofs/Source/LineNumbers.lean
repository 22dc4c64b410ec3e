import ModuleSource.Proofs.Source.Conservation
import ModuleSource.Proofs.Text.LineEndings

/-!
Line numbers. Every token of a text stands on one of its physical lines, and the number of that line
is the number of the current line when the token has been taken, however the calls of a reader are
mixed. So the numbers that failures carry are those of the lines where they arise; where a failure
is for the end of the text, its number is that of the last line.
-/

namespace ModuleSource

open Text

namespace Text

/-- The physical lines of a text, without the mark that it may start with. -/
def unmarkedLines (text : String) : List (List Char) :=
  (breakAt (· == '\n') text.toList).modifyHead dropMark

/-- The tokens of a text, each with the number of its line. -/
def numberedTokens (text : String) : List (Nat × List Char) :=
  ((unmarkedLines text).zipIdx 1).flatMap fun (line, number) => (words line).map (number, ·)

/-- The number of line feeds of a text, and one more if something comes after the last of them. -/
def lineCount (cs : List Char) : Nat :=
  cs.count '\n' + if cs.getLast?.all (· == '\n') then 0 else 1

section Counting

variable {cs : List Char}

theorem length_breakAt (cs : List Char) : (breakAt (· == '\n') cs).length = lineCount cs := by
  -- The piece that is being collected counts if the text ends with it.
  have go (piece : List Char) (hpiece : '\n' ∉ piece) :
      (breakAt.go (· == '\n') piece cs).length =
        cs.count '\n' + if (cs.getLast?.or piece.head?).all (· == '\n') then 0 else 1 := by
    induction cs generalizing piece with
    | nil =>
      rw [breakAt.go]
      cases piece with
      | nil => rfl
      | cons c piece =>
        have hc : c ≠ '\n' := fun heq => hpiece (by simp [heq])
        simp [hc]
    | cons c cs ih =>
      rw [breakAt.go, List.getLast?_cons, List.count_cons]
      split
      · next hc =>
        have hc : c = '\n' := eq_of_beq hc
        rw [List.length_cons, ih [] List.not_mem_nil]
        cases cs.getLast? with
        | none => simp [hc]
        | some c => simp [hc]; omega
      · next hc =>
        have hc : c ≠ '\n' := fun heq => hc (by simp [heq])
        rw [ih (c :: piece) (by simp [hpiece, hc.symm])]
        cases cs.getLast? <;> simp [hc]
  rw [breakAt, go [] List.not_mem_nil, List.head?_nil, Option.or_none, lineCount]

/-- The line stands in the text after so many line feeds. -/
def StandsIn (cs line : List Char) (count : Nat) : Prop :=
  '\n' ∉ line ∧ ∃ before after, cs = before ++ line ++ after ∧ before.count '\n' = count

private theorem standsIn_of_mem_go {piece line : List Char} (hpiece : '\n' ∉ piece)
    {number start : Nat} (h : (line, number) ∈ (breakAt.go (· == '\n') piece cs).zipIdx start) :
    ∃ count, number = start + count ∧ StandsIn (piece.reverse ++ cs) line count := by
  have first (after : List Char) : StandsIn (piece.reverse ++ after) piece.reverse 0 :=
    ⟨by rwa [List.mem_reverse], [], after, rfl, rfl⟩
  induction cs generalizing piece start with
  | nil =>
    rw [breakAt.go] at h
    split at h
    · cases h
    · rw [List.zipIdx_singleton, List.mem_singleton] at h
      obtain ⟨rfl, rfl⟩ := Prod.mk.inj h
      exact ⟨0, rfl, first []⟩
  | cons c cs ih =>
    rw [breakAt.go] at h
    split at h
    · next hc =>
      rw [List.zipIdx_cons, List.mem_cons] at h
      rcases h with h | h
      · obtain ⟨rfl, rfl⟩ := Prod.mk.inj h
        exact ⟨0, rfl, first _⟩
      · -- The lines after the first one stand behind it and its line feed.
        obtain ⟨count, rfl, hline, before, after, hcs, rfl⟩ := ih List.not_mem_nil h
          fun after => ⟨List.not_mem_nil, [], after, rfl, rfl⟩
        have hfeeds : (piece.reverse ++ c :: before).count '\n' = before.count '\n' + 1 := by
          rw [eq_of_beq hc, List.count_append, List.count_reverse, List.count_cons_self,
            List.count_eq_zero.mpr hpiece, Nat.zero_add]
        refine ⟨_, by omega, hline, piece.reverse ++ c :: before, after, ?_, hfeeds⟩
        rw [show cs = _ from hcs]
        simp only [List.append_assoc, List.cons_append]
    · next hc =>
      have hpiece' : '\n' ∉ c :: piece := by
        rw [List.mem_cons, not_or]
        exact ⟨fun heq => hc (by simp [← heq]), hpiece⟩
      obtain ⟨count, hnumber, hstands⟩ := ih hpiece' h
        fun after => ⟨by rwa [List.mem_reverse], [], after, rfl, rfl⟩
      rw [List.reverse_cons, List.append_assoc, List.singleton_append] at hstands
      exact ⟨count, hnumber, hstands⟩

theorem standsIn_of_mem_breakAt {line : List Char} {number start : Nat}
    (h : (line, number) ∈ (breakAt (· == '\n') cs).zipIdx start) :
    ∃ count, number = start + count ∧ StandsIn cs line count :=
  standsIn_of_mem_go List.not_mem_nil h

theorem infix_of_mem_words {w : List Char} (h : w ∈ words cs) : w <:+: cs := by
  fun_induction words cs with
  | case1 cs hnone => cases h
  | case2 cs word rest hfirst ih =>
    obtain ⟨-, hcs, -⟩ := firstWord?_eq_some hfirst
    have hsuffix : word ++ rest <:+: cs := hcs ▸ (List.dropWhile_suffix isBlank).isInfix
    rcases List.mem_cons.mp h with heq | h
    · rw [heq]
      exact (List.prefix_append word rest).isInfix.trans hsuffix
    · exact ((ih h).trans (List.suffix_append word rest).isInfix).trans hsuffix

theorem dropMark_suffix (cs : List Char) : dropMark cs <:+ cs := by
  cases cs with
  | nil => exact List.suffix_rfl
  | cons c cs =>
    rw [dropMark]
    split
    · exact List.suffix_cons c cs
    · exact List.suffix_rfl

/-- A token stands after as many line feeds as there are lines before its own. -/
theorem mem_numberedTokens {text : String} {number : Nat} {token : List Char}
    (h : (number, token) ∈ numberedTokens text) :
    ∃ before after, text.toList = before ++ token ++ after ∧ number = before.count '\n' + 1 := by
  obtain ⟨⟨line, place⟩, hline, htoken⟩ := List.mem_flatMap.mp h
  obtain ⟨word, hword, heq⟩ := List.mem_map.mp htoken
  obtain ⟨rfl, rfl⟩ := Prod.mk.inj heq
  -- The mark is no part of a token, and nothing else is missing from the lines.
  obtain ⟨whole, hwhole, hinfix⟩ : ∃ whole, (whole, place) ∈
      (breakAt (· == '\n') text.toList).zipIdx 1 ∧ line <:+: whole := by
    unfold unmarkedLines at hline
    generalize breakAt (· == '\n') text.toList = lines at hline ⊢
    cases lines with
    | nil => cases hline
    | cons first lines =>
      rw [List.modifyHead_cons, List.zipIdx_cons, List.mem_cons] at hline
      rcases hline with heq | hline
      · obtain ⟨rfl, rfl⟩ := Prod.mk.inj heq
        exact ⟨first, List.mem_cons_self, (dropMark_suffix first).isInfix⟩
      · exact ⟨line, List.mem_cons_of_mem _ hline, List.infix_rfl⟩
  obtain ⟨-, rfl, hnone, before, after, htext, rfl⟩ := standsIn_of_mem_breakAt hwhole
  obtain ⟨front, back, hfront⟩ := (infix_of_mem_words hword).trans hinfix
  refine ⟨before ++ front, back ++ after, ?_, ?_⟩
  · rw [htext, ← hfront]
    simp only [List.append_assoc]
  · have hfeeds : front.count '\n' = 0 := by
      refine List.count_eq_zero.mpr fun hmem => hnone ?_
      rw [← hfront, List.append_assoc]
      exact List.mem_append_left _ hmem
    rw [List.count_append, hfeeds]
    omega

end Counting

end Text

namespace PhysicalLine

/-- The words of some lines, each with the number of its line, where `count` lines came before. A
line that does not decode has no number. -/
def numberedWords (count : Nat) : List PhysicalLine → List (Nat × List Char)
  | [] => []
  | .undecodable :: lines => numberedWords count lines
  | .text chars :: lines =>
    (Text.words chars).map (count + 1, ·) ++ numberedWords (count + 1) lines

theorem numberedWords_text (count : Nat) (lines : List (List Char)) :
    numberedWords count (lines.map text) =
      (lines.zipIdx (count + 1)).flatMap fun (line, number) =>
        (Text.words line).map (number, ·) := by
  induction lines generalizing count with
  | nil => rfl
  | cons line lines ih => rw [List.map_cons, numberedWords, ih, List.zipIdx_cons, List.flatMap_cons]

theorem map_snd_numberedWords (count : Nat) (lines : List PhysicalLine) :
    (numberedWords count lines).map Prod.snd = lines.flatMap words := by
  induction lines generalizing count with
  | nil => rfl
  | cons line lines ih =>
    cases line with
    | undecodable => exact ih count
    | text chars =>
      rw [numberedWords, List.map_append, ih, List.map_map, List.flatMap_cons]
      exact congrArg (· ++ _) (List.map_id _)

theorem unmark_map_text (lines : List (List Char)) :
    unmark (lines.map text) = (lines.modifyHead dropMark).map text := by
  cases lines <;> rfl

end PhysicalLine

namespace Source

open PhysicalLine

/-- The tokens not read yet, each with the number of its line. -/
def placedTokens (s : Source) : List (Nat × List Char) :=
  (Text.words s.rest).map (s.line, ·) ++ numberedWords s.line s.pending

theorem placedTokens_of_words {s : Source} (hs : Text.words s.rest = []) :
    s.placedTokens = numberedWords s.line s.pending := by
  rw [placedTokens, hs]
  rfl

theorem map_snd_placedTokens (s : Source) : s.placedTokens.map Prod.snd = s.tokens := by
  rw [placedTokens, List.map_append, map_snd_numberedWords, List.map_map, tokens]
  exact congrArg (· ++ _) (List.map_id _)

/-- The word that is found in the pending lines stands on the line that is current then. -/
theorem numberedWords_eq_wordOfPending (fetched line : Nat) (pending : List PhysicalLine) :
    numberedWords line pending =
      (wordOfPending fetched line pending).1.toOption.toList.map
          ((wordOfPending fetched line pending).2.line, ·) ++
        (wordOfPending fetched line pending).2.placedTokens := by
  induction pending generalizing fetched line with
  | nil => simp [numberedWords, wordOfPending, placedTokens, Except.toOption]
  | cons first pending ih =>
    cases first with
    | undecodable => simp [numberedWords, wordOfPending, placedTokens, Except.toOption]
    | text chars =>
      cases hfirst : firstWord? chars with
      | some found =>
        simp [numberedWords, wordOfPending, placedTokens, hfirst, words_of_firstWord? hfirst,
          Except.toOption]
      | none =>
        simp only [numberedWords, wordOfPending, hfirst, words_of_firstWord?_none hfirst,
          List.map_nil, List.nil_append]
        exact ih (fetched + 1) (line + 1)

theorem placedTokens_takeWord (s : Source) : s.placedTokens =
    s.takeWord.1.toOption.toList.map (s.takeWord.2.line, ·) ++ s.takeWord.2.placedTokens := by
  cases hfirst : firstWord? s.rest with
  | some found =>
    simp [takeWord, hfirst, placedTokens, words_of_firstWord? hfirst, Except.toOption]
  | none =>
    rw [placedTokens_of_words (words_of_firstWord?_none hfirst)]
    simp only [takeWord, hfirst]
    exact numberedWords_eq_wordOfPending s.fetched s.line s.pending

theorem placedTokens_takeLine (s : Source) : s.placedTokens =
    (s.taken .line).map (s.takeLine.2.line, ·) ++ s.takeLine.2.placedTokens := by
  obtain ⟨pending, fetched, line, text, rest⟩ := s
  cases htrim : trim rest with
  | cons c cs =>
    have hwords : Text.words (c :: cs) = Text.words rest := by rw [← htrim, words_trim]
    simp [taken, takeLine, htrim, placedTokens, hwords, Except.toOption]
  | nil =>
    rw [placedTokens_of_words (trim_eq_nil_iff.mp htrim)]
    rcases pending with - | ⟨- | -, pending⟩ <;>
      simp [taken, takeLine, htrim, placedTokens, numberedWords, Except.toOption]

/-- Whether or not the token is accepted, the source goes on after it. -/
theorem read_snd (kind : TokenForm) (s : Source) : (s.read kind).2 = s.takeWord.2 := by
  unfold read
  rcases s.takeWord with ⟨e | word, s'⟩
  · rfl
  · dsimp only
    cases kind.parse? word <;> rfl

/-- The tokens that a call takes stand on the line that is current after it. -/
theorem placedTokens_perform (reading : Reading) (s : Source) : s.placedTokens =
    (s.taken reading).map ((s.perform reading).2.line, ·) ++
      (s.perform reading).2.placedTokens := by
  cases reading with
  | token kind =>
    change _ = s.takeWord.1.toOption.toList.map ((s.read kind).2.line, ·) ++
      (s.read kind).2.placedTokens
    rw [read_snd]
    exact placedTokens_takeWord s
  | line => exact placedTokens_takeLine s

/-- The number of the last line to come. -/
def lastLine (s : Source) : Nat := s.line + s.pending.countP (· ≠ .undecodable)

theorem lastLine_perform (reading : Reading) (s : Source) :
    (s.perform reading).2.lastLine = s.lastLine ∧ s.line ≤ (s.perform reading).2.line := by
  obtain ⟨passed, hadvance, -⟩ := (step_perform reading s).advance
  rw [lastLine, lastLine, hadvance.pending, hadvance.line, List.countP_append]
  omega

/-- The calls of a reader, each with the number of the line that is current after it. -/
def lineTrace : List Reading → Source → List (Call × Nat)
  | [], _ => []
  | reading :: readings, s =>
    (s.call reading, (s.perform reading).2.line) :: lineTrace readings (s.perform reading).2

end Source

/-- The line numbers that a reader reports are those of the text. -/
structure NumbersExactly (text : String) (log : List (Call × Nat)) : Prop where
  /-- Lines are not gone back over. -/
  increasing : (log.map Prod.snd).Pairwise (· ≤ ·)
  /-- The tokens taken stand on the lines that are current after the calls. -/
  placed : (log.flatMap fun (call, number) => call.taken.map (number, ·)) <+: numberedTokens text
  /-- A token that is not accepted is reported with the line it stands on. -/
  malformed : ∀ call number, (call, number) ∈ log → ∀ line token expected,
    call.failure? = some (.malformed line token expected) →
    line = number ∧ call.taken = [token.toList]
  /-- The end is reported with the number of lines. -/
  ended : ∀ call number, (call, number) ∈ log → ∀ line,
    call.failure? = some (.endOfStream line) → line = lineCount text.toList

namespace Source

open PhysicalLine

theorem map_fst_lineTrace (readings : List Reading) (s : Source) :
    (s.lineTrace readings).map Prod.fst = (s.trace readings).1 := by
  induction readings generalizing s with
  | nil => rfl
  | cons reading readings ih => rw [lineTrace, List.map_cons, ih, trace_cons]

theorem le_of_mem_lineTrace {readings : List Reading} {s : Source} {number : Nat}
    (h : number ∈ (s.lineTrace readings).map Prod.snd) : s.line ≤ number := by
  induction readings generalizing s with
  | nil => cases h
  | cons reading readings ih =>
    have hstep := (lastLine_perform reading s).2
    rw [lineTrace, List.map_cons, List.mem_cons] at h
    rcases h with rfl | h
    · exact hstep
    · exact hstep.trans (ih h)

theorem pairwise_lineTrace (readings : List Reading) (s : Source) :
    ((s.lineTrace readings).map Prod.snd).Pairwise (· ≤ ·) := by
  induction readings generalizing s with
  | nil => exact List.Pairwise.nil
  | cons reading readings ih =>
    rw [lineTrace, List.map_cons, List.pairwise_cons]
    exact ⟨fun number h => le_of_mem_lineTrace h, ih _⟩

theorem placedTokens_trace (readings : List Reading) (s : Source) : s.placedTokens =
    (s.lineTrace readings).flatMap (fun (call, number) => call.taken.map (number, ·)) ++
      (s.trace readings).2.placedTokens := by
  induction readings generalizing s with
  | nil => rfl
  | cons reading readings ih =>
    rw [lineTrace, List.flatMap_cons, List.append_assoc, trace_cons, ← ih]
    exact placedTokens_perform reading s

theorem malformed_perform {reading : Reading} {s : Source} {line : Nat} {token : String}
    {expected : TokenForm}
    (h : (s.call reading).failure? = some (.malformed line token expected)) :
    line = (s.perform reading).2.line ∧ s.taken reading = [token.toList] := by
  cases reading with
  | token kind =>
    have step := readStep_read kind s
    simp only [call, perform, taken] at h ⊢
    generalize s.read kind = found at step h ⊢
    obtain ⟨result, s'⟩ := found
    dsimp only at step
    cases step with
    | value took isWord parsed step => cases h
    | malformed took isWord rejected step =>
      obtain ⟨hline, htoken, -⟩ := ReadFailure.malformed.inj (Option.some.inj h)
      rw [← hline, ← htoken, took, String.toList_ofList]
      exact ⟨rfl, rfl⟩
    | undecodable took step => cases h
    | ended took step => cases h
  | line =>
    have step := lineStep_takeLine s
    simp only [call, perform] at h
    generalize s.takeLine = found at step h
    obtain ⟨result, s'⟩ := found
    cases step <;> cases h

theorem ended_perform {reading : Reading} {s : Source} {line : Nat}
    (h : (s.call reading).failure? = some (.endOfStream line)) : line = s.lastLine := by
  obtain ⟨hline, -, hpending⟩ := (step_perform reading s).ended line h
  rw [← (lastLine_perform reading s).1, lastLine, hpending, hline]
  rfl

/-- What every call tells of the line that is current after it, every call of a run tells. -/
theorem forall_lineTrace {P : Call → Nat → Prop} {n : Nat}
    (h : ∀ reading s, lastLine s = n → P (s.call reading) (s.perform reading).2.line)
    {readings : List Reading} {s : Source} (hs : s.lastLine = n) :
    ∀ call number, (call, number) ∈ s.lineTrace readings → P call number := by
  induction readings generalizing s with
  | nil => exact fun _ _ hmem => nomatch hmem
  | cons reading readings ih =>
    intro call number hmem
    rw [lineTrace, List.mem_cons] at hmem
    rcases hmem with heq | hmem
    · obtain ⟨rfl, rfl⟩ := Prod.mk.inj heq
      exact h reading s hs
    · exact ih ((lastLine_perform reading s).1.trans hs) call number hmem

/-- The tokens of a text in UTF-8 stand on its lines. -/
theorem placedTokens_ofBytes_toUTF8 (text : String) :
    (ofBytes text.toUTF8).placedTokens = numberedTokens text := by
  rw [placedTokens_of_words words_nil, pending_ofBytes_toUTF8, unmark_map_text, numberedTokens,
    unmarkedLines]
  change numberedWords 0 _ = _
  rw [numberedWords_text]
  cases breakAt (· == '\n') text.toList with
  | nil => rfl
  | cons line lines =>
    simp only [List.map_cons, List.modifyHead_cons, List.zipIdx_cons, List.flatMap_cons,
      words_dropMark_dropReturns, List.zipIdx_map, List.flatMap_map, Prod.map_fst, Prod.map_snd,
      words_dropReturns, id_eq]

theorem lastLine_ofBytes_toUTF8 (text : String) :
    (ofBytes text.toUTF8).lastLine = lineCount text.toList := by
  rw [lastLine, pending_ofBytes_toUTF8, unmark_map_text, ← length_breakAt]
  change 0 + _ = _
  rw [Nat.zero_add, List.countP_map]
  refine (List.countP_eq_length.mpr fun _ _ => rfl).trans ?_
  rw [List.length_modifyHead, List.length_map]

/-- However the calls of a reader are mixed, the numbers it reports are exact. -/
theorem numbersExactly_lineTrace (text : String) (readings : List Reading) :
    NumbersExactly text ((ofBytes text.toUTF8).lineTrace readings) where
  increasing := pairwise_lineTrace readings _
  placed := by
    rw [← placedTokens_ofBytes_toUTF8, placedTokens_trace readings]
    exact List.prefix_append _ _
  malformed := forall_lineTrace (fun _ _ _ _ _ _ => malformed_perform)
    (lastLine_ofBytes_toUTF8 text)
  ended := by
    refine forall_lineTrace (fun reading s hs line h => ?_) (lastLine_ofBytes_toUTF8 text)
    rw [← hs]
    exact ended_perform h

end Source

end ModuleSource
