import ModuleSource.Proofs.Text.Encoding
import ModuleSource.Source.Basic

/-!
A source as the list of tokens it has not given yet. Taking a word takes the first of them, taking a
line takes those of the line, and a line that does not decode has none. What else a read can do is
pass over physical lines; `Advance` says which lines it has passed and how the two counters follow.
-/

namespace ModuleSource

open Text

namespace PhysicalLine

def words : PhysicalLine → List (List Char)
  | text chars => Text.words chars
  | undecodable => []

/-- Taking the mark away neither makes a line decode nor keeps one from it. -/
theorem count_take_unmark (lines : List PhysicalLine) (n : Nat) :
    ((unmark lines).take n).count undecodable = (lines.take n).count undecodable := by
  induction lines generalizing n with
  | nil => rfl
  | cons line lines ih =>
    cases n with
    | zero => rfl
    | succ n =>
      cases line with
      | text chars => simp [unmark]
      | undecodable => simp [unmark, ih]

theorem undecodable_mem_unmark {lines : List PhysicalLine} :
    undecodable ∈ unmark lines ↔ undecodable ∈ lines := by
  induction lines with
  | nil => rfl
  | cons line lines ih => cases line <;> simp [unmark, ih]

theorem ofBytes_eq_undecodable_iff {bytes : List UInt8} :
    ofBytes bytes = undecodable ↔ decode? bytes = none := by
  unfold ofBytes
  cases decode? bytes <;> simp

end PhysicalLine

namespace Source

/-- The tokens not read yet. -/
def tokens (s : Source) : List (List Char) :=
  Text.words s.rest ++ s.pending.flatMap PhysicalLine.words

/-- All lines to come decode. -/
def Clean (s : Source) : Prop := .undecodable ∉ s.pending

/-- Nothing is left of the current line or of the lines after it. -/
def Ended (s : Source) : Prop := Text.words s.rest = [] ∧ s.pending = []

theorem Ended.tokens_eq {s : Source} (h : s.Ended) : s.tokens = [] := by
  rw [tokens, h.1, h.2, List.flatMap_nil, List.append_nil]

/-- The lines that were fetched on the way from one position to another. Only those that decode
count in the line number. -/
structure Advance (s s' : Source) (passed : List PhysicalLine) : Prop where
  pending : s.pending = passed ++ s'.pending
  fetched : s'.fetched = s.fetched + passed.length
  line : s'.line = s.line + passed.countP (· ≠ .undecodable)

namespace Advance

theorem refl (s : Source) : Advance s s [] := ⟨rfl, rfl, rfl⟩

theorem trans {s t u : Source} {before after : List PhysicalLine} (h : Advance s t before)
    (h' : Advance t u after) : Advance s u (before ++ after) := by
  constructor
  · rw [h.pending, h'.pending, List.append_assoc]
  · rw [h'.fetched, h.fetched, List.length_append]
    omega
  · rw [h'.line, h.line, List.countP_append]
    omega

theorem clean {s s' : Source} {passed : List PhysicalLine} (h : Advance s s' passed)
    (hs : s.Clean) : s'.Clean ∧ .undecodable ∉ passed := by
  unfold Clean at hs ⊢
  rw [h.pending, List.mem_append, not_or] at hs
  exact hs.symm

end Advance

/-- What a read does to its source: the tokens it takes and the lines it passes. A line that does
not decode is passed only by the read that fails for it, and a read that meets the end leaves
nothing. -/
structure Step (s : Source) (taken : List (List Char)) (failure : Option ReadFailure)
    (s' : Source) : Prop where
  tokens_eq : s.tokens = taken ++ s'.tokens
  advance : ∃ passed, Advance s s' passed ∧
    passed.count .undecodable = if failure = some (.access .invalidText) then 1 else 0
  ended : ∀ line, failure = some (.endOfStream line) → line = s'.line ∧ s'.Ended

/-- Everything that taking a word can do. -/
inductive WordStep (s : Source) : Except ReadFailure (List Char) → Source → Prop
  | word {w : List Char} {s' : Source} (isWord : IsWord w) (step : Step s [w] none s') :
    WordStep s (.ok w) s'
  | undecodable {s' : Source} (step : Step s [] (some (.access .invalidText)) s') :
    WordStep s (.error (.access .invalidText)) s'
  | ended {n : Nat} {s' : Source} (step : Step s [] (some (.endOfStream n)) s') :
    WordStep s (.error (.endOfStream n)) s'

/-- A line without a word makes no difference to what is read after it. -/
theorem Step.of_blank {s t s' : Source} {chars : List Char} {taken : List (List Char)}
    {failure : Option ReadFailure} (h : Advance s t [.text chars]) (ht : s.tokens = t.tokens)
    (step : Step t taken failure s') : Step s taken failure s' := by
  obtain ⟨passed, hadvance, hcount⟩ := step.advance
  refine ⟨ht.trans step.tokens_eq, ⟨.text chars :: passed, h.trans hadvance, ?_⟩, step.ended⟩
  rw [List.count_cons_of_ne (by simp), hcount]

theorem WordStep.of_blank {s t s' : Source} {chars : List Char}
    {result : Except ReadFailure (List Char)} (h : Advance s t [.text chars])
    (ht : s.tokens = t.tokens) (step : WordStep t result s') : WordStep s result s' := by
  cases step with
  | word isWord step => exact .word isWord (step.of_blank h ht)
  | undecodable step => exact .undecodable (step.of_blank h ht)
  | ended step => exact .ended (step.of_blank h ht)

/-- The search for a word in the pending lines, from a current line that has none left. -/
theorem wordStep_wordOfPending (s : Source) (hs : Text.words s.rest = []) :
    WordStep s (wordOfPending s.fetched s.line s.pending).1
      (wordOfPending s.fetched s.line s.pending).2 := by
  obtain ⟨pending, fetched, line, text, rest⟩ := s
  dsimp only at hs ⊢
  induction pending generalizing fetched line text rest with
  | nil =>
    refine .ended ⟨?_, ⟨[], ⟨rfl, rfl, rfl⟩, rfl⟩, ?_⟩
    · simp [tokens, hs, wordOfPending]
    · intro n hn
      cases hn
      exact ⟨rfl, words_nil, rfl⟩
  | cons first pending ih =>
    cases first with
    | undecodable =>
      refine .undecodable ⟨?_, ⟨[.undecodable], ⟨rfl, rfl, rfl⟩, by decide⟩, ?_⟩
      · simp [tokens, hs, wordOfPending, PhysicalLine.words]
      · intro n hn
        cases hn
    | text chars =>
      cases hf : firstWord? chars with
      | some found =>
        obtain ⟨w, rest'⟩ := found
        simp only [wordOfPending, hf]
        refine .word (firstWord?_eq_some hf).1 ⟨?_, ⟨[.text chars], ⟨rfl, rfl, ?_⟩, ?_⟩, ?_⟩
        · simp [tokens, hs, PhysicalLine.words, words_of_firstWord? hf]
        · simp
        · simp
        · intro n hn
          cases hn
      | none =>
        simp only [wordOfPending, hf]
        refine (ih (fetched + 1) (line + 1) [] [] words_nil).of_blank ⟨rfl, rfl, by simp⟩ ?_
        simp [tokens, hs, PhysicalLine.words, words_of_firstWord?_none hf]

theorem wordStep_takeWord (s : Source) : WordStep s s.takeWord.1 s.takeWord.2 := by
  cases hf : firstWord? s.rest with
  | some found =>
    obtain ⟨w, rest⟩ := found
    simp only [takeWord, hf]
    refine .word (firstWord?_eq_some hf).1 ⟨?_, ⟨[], ⟨rfl, rfl, rfl⟩, rfl⟩, ?_⟩
    · simp [tokens, words_of_firstWord? hf]
    · intro n hn
      cases hn
  | none =>
    simp only [takeWord, hf]
    exact wordStep_wordOfPending s (words_of_firstWord?_none hf)

/-- Everything that reading a token can do. The token is taken, whatever it is, and what it is
decides between a value and a failure that shows it. -/
inductive ReadStep (kind : TokenForm) (s : Source) : Except ReadFailure kind.Value → Source → Prop
  | value {w : List Char} {v : kind.Value} {s' : Source} (took : s.takeWord = (.ok w, s'))
    (isWord : IsWord w) (parsed : kind.parse? w = some v) (step : Step s [w] none s') :
    ReadStep kind s (.ok v) s'
  | malformed {w : List Char} {s' : Source} (took : s.takeWord = (.ok w, s')) (isWord : IsWord w)
    (rejected : kind.parse? w = none) (step : Step s [w] none s') :
    ReadStep kind s (.error (.malformed s'.line (String.ofList w) kind)) s'
  | undecodable {s' : Source} (took : s.takeWord = (.error (.access .invalidText), s'))
    (step : Step s [] (some (.access .invalidText)) s') :
    ReadStep kind s (.error (.access .invalidText)) s'
  | ended {n : Nat} {s' : Source} (took : s.takeWord = (.error (.endOfStream n), s'))
    (step : Step s [] (some (.endOfStream n)) s') : ReadStep kind s (.error (.endOfStream n)) s'

theorem readStep_read (kind : TokenForm) (s : Source) :
    ReadStep kind s (s.read kind).1 (s.read kind).2 := by
  have step := wordStep_takeWord s
  rcases took : s.takeWord with ⟨result, s'⟩
  rw [took] at step
  unfold read
  rw [took]
  cases step with
  | @word w _ isWord step =>
    cases hp : kind.parse? w with
    | some v => simpa only [hp] using .value took isWord hp step
    | none => simpa only [hp] using .malformed took isWord hp step
  | undecodable step => exact .undecodable took step
  | ended step => exact .ended took step

theorem read_of_takeWord {kind : TokenForm} {s s' : Source} {w : List Char} {v : kind.Value}
    (took : s.takeWord = (.ok w, s')) (parsed : kind.parse? w = some v) :
    s.read kind = (.ok v, s') := by
  simp only [read, took, parsed]

/-- Everything that taking a line can do. -/
inductive LineStep (s : Source) : Except ReadFailure String → Source → Prop
  | line {line : String} {s' : Source} (step : Step s (Text.words line.toList) none s') :
    LineStep s (.ok line) s'
  | undecodable {s' : Source} (step : Step s [] (some (.access .invalidText)) s') :
    LineStep s (.error (.access .invalidText)) s'
  | ended {n : Nat} {s' : Source} (step : Step s [] (some (.endOfStream n)) s') :
    LineStep s (.error (.endOfStream n)) s'

theorem lineStep_takeLine (s : Source) : LineStep s s.takeLine.1 s.takeLine.2 := by
  obtain ⟨pending, fetched, line, text, rest⟩ := s
  cases ht : trim rest with
  | cons c cs =>
    simp only [takeLine, ht]
    refine .line ⟨?_, ⟨[], ⟨rfl, rfl, rfl⟩, rfl⟩, ?_⟩
    · rw [String.toList_ofList, ← ht, words_trim]
      simp [tokens]
    · intro n hn
      cases hn
  | nil =>
    have hrest : Text.words rest = [] := trim_eq_nil_iff.mp ht
    cases pending with
    | nil =>
      simp only [takeLine, ht]
      refine .ended ⟨?_, ⟨[], ⟨rfl, rfl, rfl⟩, rfl⟩, ?_⟩
      · simp [tokens, hrest]
      · intro n hn
        cases hn
        exact ⟨rfl, words_nil, rfl⟩
    | cons first pending =>
      cases first with
      | undecodable =>
        simp only [takeLine, ht]
        refine .undecodable ⟨?_, ⟨[.undecodable], ⟨rfl, rfl, rfl⟩, by decide⟩, ?_⟩
        · simp [tokens, hrest, PhysicalLine.words]
        · intro n hn
          cases hn
      | text chars =>
        simp only [takeLine, ht]
        refine .line ⟨?_, ⟨[.text chars], ⟨rfl, rfl, ?_⟩, ?_⟩, ?_⟩
        · simp [tokens, hrest, PhysicalLine.words]
        · simp
        · simp
        · intro n hn
          cases hn

/-- A source without anything left gives no more words, and stays so. -/
theorem Ended.takeWord {s : Source} (h : s.Ended) :
    s.takeWord.1 = .error (.endOfStream s.line) ∧ s.takeWord.2.Ended := by
  simp only [Source.takeWord, words_eq_nil_iff.mp h.1, h.2, wordOfPending]
  exact ⟨trivial, words_nil, rfl⟩

theorem Ended.takeLine {s : Source} (h : s.Ended) :
    s.takeLine.1 = .error (.endOfStream s.line) ∧ s.takeLine.2.Ended := by
  simp only [Source.takeLine, trim_eq_nil_iff.mpr h.1, h.2]
  exact ⟨trivial, words_nil, rfl⟩

end Source

/-- The physical lines of a file. -/
def physicalLines (bytes : ByteArray) : List (List UInt8) :=
  breakAt (· == lineFeed) bytes.toList

/-- The tokens of a file: the words of the lines that decode, less a mark at the start of the first
of them. -/
def fileTokens (bytes : ByteArray) : List (List Char) :=
  (((physicalLines bytes).filterMap decode?).modifyHead dropMark).flatMap Text.words

namespace Source

theorem ofBytes_pending (bytes : ByteArray) : (ofBytes bytes).pending =
    PhysicalLine.unmark ((physicalLines bytes).map .ofBytes) := rfl

private theorem dropReturns_cons (c : Char) (cs : List Char) :
    dropReturns (c :: cs) = if dropReturns cs = [] ∧ c = '\r' then [] else c :: dropReturns cs := by
  unfold dropReturns
  rw [List.reverse_cons, List.dropWhile_append]
  by_cases hd : cs.reverse.dropWhile (· == '\r') = []
  · by_cases hc : c = '\r' <;> simp [hd, hc]
  · simp [hd]

/-- Carriage returns at the end of a line do not come between it and its mark. -/
theorem words_dropMark_dropReturns (cs : List Char) :
    Text.words (dropMark (dropReturns cs)) = Text.words (dropMark cs) := by
  cases cs with
  | nil => rfl
  | cons c cs =>
    by_cases hc : c = byteOrderMark
    · have hr : dropReturns (c :: cs) = c :: dropReturns cs := by
        rw [dropReturns_cons, if_neg]
        rintro ⟨-, h⟩
        exact absurd (hc.symm.trans h) (by decide)
      rw [hr, dropMark, dropMark, if_pos hc, if_pos hc, words_dropReturns]
    · have hkeep : dropMark (dropReturns (c :: cs)) = dropReturns (c :: cs) := by
        rw [dropReturns_cons]
        split
        · rfl
        · rw [dropMark, if_neg hc]
      rw [hkeep, words_dropReturns, dropMark, if_neg hc]

private theorem words_ofBytes (bytes : List UInt8) :
    (PhysicalLine.ofBytes bytes).words = (decode? bytes).elim [] Text.words := by
  unfold PhysicalLine.ofBytes
  cases decode? bytes with
  | none => rfl
  | some chars => exact words_dropReturns chars

theorem tokens_ofBytes (bytes : ByteArray) : (ofBytes bytes).tokens = fileTokens bytes := by
  have later (lines : List (List UInt8)) : (lines.map PhysicalLine.ofBytes).flatMap
      PhysicalLine.words = (lines.filterMap decode?).flatMap Text.words := by
    induction lines with
    | nil => rfl
    | cons line lines ih =>
      rw [List.map_cons, List.flatMap_cons, words_ofBytes, ih]
      cases hd : decode? line <;> simp [hd]
  rw [tokens, ofBytes_pending, fileTokens]
  change Text.words [] ++ _ = _
  rw [words_nil, List.nil_append]
  induction physicalLines bytes with
  | nil => rfl
  | cons line lines ih =>
    cases hd : decode? line with
    | none =>
      have hline : PhysicalLine.ofBytes line = .undecodable :=
        PhysicalLine.ofBytes_eq_undecodable_iff.mpr hd
      simp [hline, hd, PhysicalLine.unmark, PhysicalLine.words, ih]
    | some chars =>
      have hline : PhysicalLine.ofBytes line = .text (dropReturns chars) := by
        simp [PhysicalLine.ofBytes, hd]
      simp [hline, hd, PhysicalLine.unmark, PhysicalLine.words, later, words_dropMark_dropReturns]

/-- Of a text in UTF-8 the lines are the lines of the text, all of them decoded. -/
theorem physicalLines_toUTF8 (text : String) : (physicalLines text.toUTF8).filterMap decode? =
    breakAt (· == '\n') text.toList ∧ ∀ line ∈ physicalLines text.toUTF8, decode? line ≠ none := by
  rw [physicalLines, toList_toUTF8, breakAt_utf8]
  constructor
  · rw [List.filterMap_map]
    simp
  · intro line hline
    obtain ⟨chars, -, rfl⟩ := List.mem_map.mp hline
    simp

theorem clean_ofBytes_toUTF8 (text : String) : (ofBytes text.toUTF8).Clean := by
  rw [Clean, ofBytes_pending, PhysicalLine.undecodable_mem_unmark, List.mem_map]
  rintro ⟨line, hline, h⟩
  exact (physicalLines_toUTF8 text).2 line hline (PhysicalLine.ofBytes_eq_undecodable_iff.mp h)

/-- The tokens of a text in UTF-8 are its words, after the mark it may start with. -/
theorem tokens_ofBytes_toUTF8 (text : String) :
    (ofBytes text.toUTF8).tokens = Text.words (dropMark text.toList) := by
  rw [tokens_ofBytes, fileTokens, (physicalLines_toUTF8 text).1]
  cases text.toList with
  | nil => exact words_nil.symm
  | cons c cs =>
    by_cases hc : c = byteOrderMark
    · -- The mark is the first character of the first line, whatever comes after it.
      have hmark : (fun c => !(c == '\n')) c = true := by rw [hc]; decide
      rw [breakAt_of_ne_nil (List.cons_ne_nil c cs), List.modifyHead_cons,
        List.takeWhile_cons_of_pos (p := fun c => !(c == '\n')) hmark,
        List.dropWhile_cons_of_pos (p := fun c => !(c == '\n')) hmark, dropMark, dropMark,
        if_pos hc, if_pos hc, ← flatMap_words_breakAt cs]
      by_cases hcs : cs = []
      · simp [hcs]
      · rw [breakAt_of_ne_nil hcs]
    · have hfirst : dropMark ((c :: cs).takeWhile fun c => !(c == '\n')) =
          (c :: cs).takeWhile fun c => !(c == '\n') := by
        rw [List.takeWhile_cons]
        split
        · rw [dropMark, if_neg hc]
        · rfl
      rw [breakAt_of_ne_nil (List.cons_ne_nil c cs), List.modifyHead_cons, hfirst,
        ← breakAt_of_ne_nil (List.cons_ne_nil c cs), flatMap_words_breakAt, dropMark, if_neg hc]

end Source

end ModuleSource
