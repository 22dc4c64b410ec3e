import ModuleSource.Proofs.Source.Cursor

/-!
Reading by places gives what the source gives. Where the bytes of a file come in pieces and nothing
fails, the cursor is always at the unread part of the current line of the source, however the bytes
are cut into pieces. Main statement: no slice of the buffer is out of bounds or inside a character,
whatever comes and the calls are, and for the bytes of a file the results are those of the source.
-/

namespace ModuleSource

open Text

namespace Text

theorem splitLine_append_of_not_mem {u : List UInt8} (h : lineFeed ∉ u) (v : List UInt8) :
    splitLine (u ++ v) = (u ++ (splitLine v).1, (splitLine v).2) := by
  have hall : ∀ b ∈ u, (!b == lineFeed) = true := by
    intro b hb
    rw [Bool.not_eq_true', beq_eq_false_iff_ne]
    rintro rfl
    exact h hb
  rw [splitLine, splitLine, List.takeWhile_append_of_pos hall, List.dropWhile_append_of_pos hall,
    List.append_assoc]

theorem splitLine_append_of_mem {u : List UInt8} (h : lineFeed ∈ u) (v : List UInt8) :
    splitLine (u ++ v) = ((splitLine u).1, (splitLine u).2 ++ v) := by
  obtain ⟨front, back, rfl, hfront⟩ := List.eq_append_cons_of_mem h
  rw [List.append_assoc, splitLine_append_of_not_mem hfront, splitLine_append_of_not_mem hfront]
  rfl

theorem splitLine_eq_nil_iff {bytes : List UInt8} : (splitLine bytes).1 = [] ↔ bytes = [] := by
  constructor
  · intro h
    obtain ⟨hline, hrest⟩ := List.append_eq_nil_iff.mp h
    have hrest : bytes.dropWhile (!· == lineFeed) = [] := by simpa using hrest
    rw [← List.takeWhile_append_dropWhile (p := (!· == lineFeed)) (l := bytes), hline, hrest]
    rfl
  · rintro rfl
    rfl

/-- A physical line decodes with its line feed as it does without. -/
theorem decode?_splitLine (bytes : List UInt8) :
    ∃ ending, (ending = [] ∨ ending = ['\n']) ∧ decode? (splitLine bytes).1 =
      (decode? (bytes.takeWhile (!· == lineFeed))).map (· ++ ending) := by
  obtain ⟨ending, hending, heq⟩ := splitLine_eq bytes
  rw [heq]
  rcases hending with rfl | rfl
  · refine ⟨[], Or.inl rfl, ?_⟩
    simp
  · exact ⟨['\n'], Or.inr rfl, decode?_append_lineFeed _⟩

end Text

namespace Chunk

/-- The stream gives just these bytes, in pieces, and does not fail. -/
def Gives (chunks : List Chunk) (bytes : List UInt8) : Prop :=
  ∃ pieces : List (List UInt8), [] ∉ pieces ∧ chunks = pieces.map .ok ∧ pieces.flatten = bytes

theorem Gives.nil : Gives [] [] := ⟨[], List.not_mem_nil, rfl, rfl⟩

theorem Gives.putBack {chunks : List Chunk} {bytes : List UInt8} (h : Gives chunks bytes)
    (front : List UInt8) : Gives (Chunk.putBack front chunks) (front ++ bytes) := by
  obtain ⟨pieces, hpieces, rfl, rfl⟩ := h
  unfold Chunk.putBack
  split
  · next hnil => exact ⟨pieces, hpieces, rfl, by rw [hnil]; rfl⟩
  · next hne =>
    refine ⟨front :: pieces, ?_, rfl, rfl⟩
    rw [List.mem_cons, not_or]
    exact ⟨Ne.symm hne, hpieces⟩

/-- However the bytes come, a line of them is taken. -/
theorem takeLine_of_gives {chunks : List Chunk} {bytes : List UInt8} (h : Gives chunks bytes) :
    ∃ rest, takeLine chunks = { bytes := (splitLine bytes).1, rest } ∧
      Gives rest (splitLine bytes).2 := by
  obtain ⟨pieces, hpieces, rfl, rfl⟩ := h
  induction pieces with
  | nil => exact ⟨[], rfl, Gives.nil⟩
  | cons piece pieces ih =>
    rw [List.mem_cons, not_or] at hpieces
    have hrest : Gives (pieces.map .ok) pieces.flatten := ⟨pieces, hpieces.2, rfl, rfl⟩
    rw [List.flatten_cons, List.map_cons, takeLine, if_neg (Ne.symm hpieces.1)]
    by_cases hfeed : lineFeed ∈ piece
    · rw [if_pos hfeed, splitLine_append_of_mem hfeed]
      exact ⟨_, rfl, hrest.putBack _⟩
    · obtain ⟨rest, htake, hgives⟩ := ih hpieces.2
      rw [if_neg hfeed, splitLine_append_of_not_mem hfeed, htake]
      exact ⟨rest, rfl, hgives⟩

end Chunk

namespace Cursor

/-- The lines in some bytes, where so many lines came before. -/
def linesOf (line : Nat) (bytes : List UInt8) : List PhysicalLine :=
  (if line = 0 then PhysicalLine.unmark else id)
    ((breakAt (· == lineFeed) bytes).map PhysicalLine.ofBytes)

/-- The place is where the unread part of the line is, and the stream gives the lines after it. -/
structure Represents (c : Cursor) (s : Source) : Prop where
  pending : ∃ bytes, Chunk.Gives c.chunks bytes ∧ s.pending = linesOf c.line bytes
  line : s.line = c.line
  text : s.text = c.buffer
  rest : c.rest? = some s.rest

section Filling

variable {c : Cursor}

theorem linesOf_nil (line : Nat) : linesOf line [] = [] := by
  unfold linesOf
  split <;> rfl

/-- The first of the lines ends before the first line feed. -/
theorem linesOf_of_ne_nil {bytes : List UInt8} (h : bytes ≠ []) (line : Nat) :
    linesOf line bytes = match decode? (bytes.takeWhile (!· == lineFeed)) with
      | none => .undecodable :: linesOf line (splitLine bytes).2
      | some cs =>
        .text (unmark line (dropReturns cs)) :: linesOf (line + 1) (splitLine bytes).2 := by
  unfold linesOf unmark
  rw [breakAt_of_ne_nil h, List.map_cons, PhysicalLine.ofBytes, if_neg line.succ_ne_zero]
  cases decode? (bytes.takeWhile (!· == lineFeed)) <;> split <;> rfl

theorem rest?_start {c : Cursor} (h : c.offset = 0) : c.rest? = some c.buffer := by
  have hcut := cut?_append [] c.buffer
  rw [byteSize_nil, List.nil_append] at hcut
  rw [rest?, h, hcut]
  rfl

/-- What can become of filling the buffer, as the source has it. -/
inductive FillsFrom (s : Source) : Except ReadFailure Bool × Cursor → Prop
  | ended {c : Cursor} (next : s.pending = [])
      (represents : c.Represents { s with text := [], rest := [] }) : FillsFrom s (.ok false, c)
  | undecodable {c : Cursor} {pending : List PhysicalLine}
      (next : s.pending = .undecodable :: pending)
      (represents : c.Represents
        { s with pending, fetched := s.fetched + 1, text := [], rest := [] }) :
      FillsFrom s (.error (.access .invalidText), c)
  | text {c : Cursor} {chars : List Char} {pending : List PhysicalLine}
      (next : s.pending = .text chars :: pending)
      (represents : c.Represents ⟨pending, s.fetched + 1, s.line + 1, chars, chars⟩) :
      FillsFrom s (.ok true, c)

/-- The buffer is filled with the next line of the source. -/
theorem fillsFrom_of_represents {s : Source} (h : c.Represents s)
    {found : Except ReadFailure Bool × Cursor} (hfill : c.fillLine = some found) :
    FillsFrom s found := by
  obtain ⟨bytes, hgives, hpending⟩ := h.pending
  obtain ⟨rest, htake, hrest⟩ := Chunk.takeLine_of_gives hgives
  obtain ⟨ending, hending, hraw⟩ := decode?_splitLine bytes
  by_cases hbytes : bytes = []
  · subst hbytes
    have hended : c.fillLine = some (.ok false, { chunks := rest, line := c.line }) := by
      simp only [fillLine, htake]
      rfl
    obtain rfl := Option.some.inj (hfill.symm.trans hended)
    rw [linesOf_nil] at hpending
    refine .ended hpending ⟨⟨[], hrest, ?_⟩, h.line, rfl, rest?_start rfl⟩
    rw [linesOf_nil]
    exact hpending
  · rw [linesOf_of_ne_nil hbytes] at hpending
    cases hline : decode? (bytes.takeWhile (!· == lineFeed)) with
    | none =>
      rw [hline] at hpending hraw
      have hfailed : c.fillLine =
          some (.error (.access .invalidText), { chunks := rest, line := c.line }) := by
        simp only [fillLine, htake, hraw]
        rfl
      obtain rfl := Option.some.inj (hfill.symm.trans hfailed)
      exact .undecodable hpending ⟨⟨_, hrest, rfl⟩, h.line, rfl, rest?_start rfl⟩
    | some cs =>
      rw [hline] at hpending hraw
      have hne : (Chunk.takeLine c.chunks).bytes ≠ [] := by
        rw [htake]
        exact splitLine_eq_nil_iff.not.mpr hbytes
      have hcs := not_mem_of_decode? (lineFeed_not_mem_takeWhile bytes) hline
      have htext := fillLine_of_text hcs hending hne (by rw [htake]) (by rw [htake]; exact hraw)
      obtain rfl := Option.some.inj (hfill.symm.trans htext)
      refine .text hpending ⟨⟨_, ?_, rfl⟩, congrArg (· + 1) h.line, rfl, rest?_start rfl⟩
      rw [htake]
      exact hrest

end Filling

section Reading

variable {c : Cursor} {s : Source}

theorem takeWord_of_text {chars : List Char} {pending : List PhysicalLine}
    (hrest : firstWord? s.rest = none) (hnext : s.pending = .text chars :: pending) :
    s.takeWord = Source.takeWord ⟨pending, s.fetched + 1, s.line + 1, chars, chars⟩ := by
  simp only [Source.takeWord, hrest, hnext, Source.wordOfPending]

/-- What can become of the next token, as the source has it: between its two places is its word. -/
inductive SpansFrom (s : Source) : Except ReadFailure (Nat × Nat) × Cursor → Prop
  | span {start stop : Nat} {w : List Char} {s' : Source} {c : Cursor}
      (took : s.takeWord = (.ok w, s')) (slice : slice? c.buffer start stop = some w)
      (represents : c.Represents s') : SpansFrom s (.ok (start, stop), c)
  | failed {e : ReadFailure} {s' : Source} {c : Cursor} (took : s.takeWord = (.error e, s'))
      (represents : c.Represents s') : SpansFrom s (.error e, c)

/-- The way to the next token is that of the source. -/
theorem spansFrom_of_represents (h : c.Represents s)
    {found : Except ReadFailure (Nat × Nat) × Cursor} (spans : Spans c found) :
    SpansFrom s found := by
  induction spans generalizing s with
  | @here c front rest w more start rest_eq first buffer_eq start_eq =>
    obtain rfl : s.rest = rest := Option.some.inj (h.rest.symm.trans rest_eq)
    have htook : s.takeWord = (.ok w, { s with rest := more }) := by
      simp only [Source.takeWord, first]
    subst start_eq
    refine .span htook ?_ ⟨h.pending, h.line, h.text, ?_⟩
    · change slice? c.buffer _ _ = _
      rw [buffer_eq]
      exact slice?_append front w more
    · change (cut? c.buffer _).map _ = _
      rw [buffer_eq, ← byteSize_append, cut?_append]
      rfl
  | @failed c c' rest e rest_eq blank fill =>
    obtain rfl : s.rest = rest := Option.some.inj (h.rest.symm.trans rest_eq)
    cases fillsFrom_of_represents h fill with
    | undecodable next represents =>
      refine .failed ?_ represents
      simp only [Source.takeWord, blank, next, Source.wordOfPending]
  | @ended c c' rest rest_eq blank fill =>
    obtain rfl : s.rest = rest := Option.some.inj (h.rest.symm.trans rest_eq)
    cases fillsFrom_of_represents h fill with
    | ended next represents =>
      refine .failed ?_ represents
      simp only [Source.takeWord, blank, next, Source.wordOfPending, ← represents.line]
  | @further c c' rest found rest_eq blank fill _ ih =>
    obtain rfl : s.rest = rest := Option.some.inj (h.rest.symm.trans rest_eq)
    cases fillsFrom_of_represents h fill with
    | text next represents =>
      cases ih represents with
      | span took slice represents =>
        exact .span ((takeWord_of_text blank next).trans took) slice represents
      | failed took represents =>
        exact .failed ((takeWord_of_text blank next).trans took) represents

theorem perform_of_represents (h : c.Represents s) (inBounds : c.InBounds) (reading : Reading) :
    ∃ c', c.perform reading = some ((s.perform reading).1, c') ∧
      c'.Represents (s.perform reading).2 := by
  cases reading with
  | token kind =>
    obtain ⟨found, hspan, spans⟩ := exists_spans inBounds
    simp only [perform, read, Source.perform, Source.read, hspan]
    cases spansFrom_of_represents h spans with
    | failed took represents =>
      rw [took]
      exact ⟨_, rfl, represents⟩
    | @span start stop w s' c' took slice represents =>
      simp only [took, slice, Option.bind_eq_bind, Option.bind_some]
      cases kind.parse? w with
      | some value => exact ⟨_, rfl, represents⟩
      | none =>
        rw [represents.line]
        exact ⟨_, rfl, represents⟩
  | line =>
    have hend (c : Cursor) : rest? { c with offset := byteSize c.buffer } = some [] := by
      have hcut := cut?_append c.buffer []
      rw [List.append_nil] at hcut
      simp only [rest?, hcut, Option.map_some]
    simp only [perform, takeLine, Source.perform, Source.takeLine, h.rest, Option.bind_eq_bind,
      Option.bind_some]
    cases trim s.rest with
    | cons first rest => exact ⟨_, rfl, h.pending, h.line, h.text, hend c⟩
    | nil =>
      obtain ⟨found, hfill, -⟩ := exists_fills c
      simp only [hfill, Option.bind_some]
      cases fillsFrom_of_represents h hfill with
      | ended next represents =>
        simp only [next, represents.line.symm]
        exact ⟨_, rfl, next ▸ represents⟩
      | undecodable next represents =>
        simp only [next]
        exact ⟨_, rfl, represents⟩
      | @text c' chars pending next represents =>
        have hbuffer : c'.buffer = chars := represents.text.symm
        simp only [next, ← hbuffer]
        exact ⟨_, rfl, represents.pending, represents.line, rfl, hend c'⟩

theorem trace_of_represents (h : c.Represents s) (inBounds : c.InBounds)
    (readings : List Reading) :
    ∃ c', c.trace readings =
        some ((s.trace readings).1.map fun call => ⟨call.reading, call.result⟩, c') ∧
      c'.Represents (s.trace readings).2 := by
  induction readings generalizing c s with
  | nil => exact ⟨c, rfl, h⟩
  | cons reading readings ih =>
    obtain ⟨c', hperform, represents⟩ := perform_of_represents h inBounds reading
    have inBounds' : c'.InBounds := by
      obtain ⟨result, c₁, hperform', inBounds', -⟩ := exists_perform inBounds reading
      rw [hperform] at hperform'
      obtain rfl := (Prod.mk.inj (Option.some.inj hperform')).2
      exact inBounds'
    obtain ⟨c'', htrace, represents'⟩ := ih represents inBounds'
    refine ⟨c'', ?_, represents'⟩
    simp only [trace, hperform, htrace, Option.bind_eq_bind, Option.bind_some, Source.trace_cons]
    rfl

theorem represents_ofChunks {chunks : List Chunk} {bytes : ByteArray}
    (h : Chunk.Gives chunks bytes.toList) : (ofChunks chunks).Represents (.ofBytes bytes) :=
  ⟨⟨bytes.toList, h, rfl⟩, rfl, rfl, rest?_start rfl⟩

theorem inBounds_ofChunks (chunks : List Chunk) : (ofChunks chunks).InBounds :=
  ⟨isBoundary_iff.mpr ⟨[], [], rfl, rfl⟩, List.not_mem_nil⟩

end Reading

end Cursor

/-- No slice is out of bounds or inside a character, whatever the source gives and the calls are.
After any calls, those that fail included, the place is in the buffer and between two of its
characters; the buffer has no line feed, and it ends with a carriage return only if the source
failed when it was last asked; and the two places of the next token are in the buffer and have a
word between them. For the bytes of a file, however they are cut into pieces, reading by places
gives what the source gives. -/
theorem reading_by_places_in_bounds (chunks : List Chunk) (readings : List Reading) :
    ∃ results c, (Cursor.ofChunks chunks).trace readings = some (results, c) ∧
      c.offset ≤ byteSize c.buffer ∧ IsBoundary c.buffer c.offset ∧ '\n' ∉ c.buffer ∧
      (c.buffer.getLast? = some '\r' → (Cursor.ofChunks chunks).Interrupted readings c) ∧
      (∃ result c', c.nextSpan = some (result, c') ∧ ∀ start stop, result = .ok (start, stop) →
        start < stop ∧ stop ≤ byteSize c'.buffer ∧ IsBoundary c'.buffer start ∧
        IsBoundary c'.buffer stop ∧ ∃ w, slice? c'.buffer start stop = some w ∧ IsWord w) ∧
      ∀ bytes : ByteArray, Chunk.Gives chunks bytes.toList →
        let s := ((Source.ofBytes bytes).trace readings).2
        results = ((Source.ofBytes bytes).trace readings).1.map
            (fun call => ⟨call.reading, call.result⟩) ∧
          c.buffer = s.text ∧ c.rest? = some s.rest ∧ c.line = s.line := by
  have start := Cursor.inBounds_ofChunks chunks
  obtain ⟨results, c, htrace, inBounds, hbuffer⟩ := Cursor.exists_trace start isLine_nil readings
  obtain ⟨⟨result, c'⟩, hspan, spans⟩ := Cursor.exists_spans inBounds
  refine ⟨results, c, htrace, inBounds.isBoundary.le_byteSize, inBounds.isBoundary,
    inBounds.noFeed, ?_, ⟨result, c', hspan, ?_⟩, ?_⟩
  · exact fun hreturn => hbuffer.resolve_left fun isLine => isLine.noReturn hreturn
  · rintro start stop rfl
    obtain ⟨w, hslice, isWord⟩ := spans.slice
    obtain ⟨hstart, hstop, hsize⟩ := slice?_eq_some hslice
    have hpos := byteSize_pos isWord.1
    exact ⟨by omega, hstop.le_byteSize, hstart, hstop, w, hslice, isWord⟩
  · intro bytes hgives s
    obtain ⟨c₁, htrace₁, represents⟩ :=
      Cursor.trace_of_represents (Cursor.represents_ofChunks hgives) start readings
    rw [htrace] at htrace₁
    obtain ⟨hresults, rfl⟩ := Prod.mk.inj (Option.some.inj htrace₁)
    exact ⟨hresults, represents.text.symm, represents.rest, represents.line.symm⟩

/-- A source that fails in the middle of a line: what came before is left in the buffer with the
carriage return at its end, no line is counted, and the next call takes its word for one on line
zero. -/
theorem reading_by_places_keeps_return :
    let failure : AccessFailure := .other "Input/output error (os error 5)"
    let start := Cursor.ofChunks [.ok [0x61, 0x62, 0x63, 0x0D], .error failure]
    let left : Cursor := { chunks := [], buffer := ['a', 'b', 'c', '\r'] }
    start.trace [.token .word] = some ([⟨.token .word, .error (.access failure)⟩], left) ∧
      start.trace [.token .word, .token .word] = some
        ([⟨.token .word, .error (.access failure)⟩, ⟨.token .word, .ok "abc"⟩],
          { left with offset := 3 }) := by
  intro failure start left
  have htake : Chunk.takeLine start.chunks =
      { bytes := [0x61, 0x62, 0x63, 0x0D], failure := some failure, rest := [] } := rfl
  have hdecode : decode? [0x61, 0x62, 0x63, 0x0D] = some left.buffer :=
    decode?_eq_some_iff.mpr (by decide)
  have hfill : start.fillLine = some (.error (.access failure), left) := by
    simp only [Cursor.fillLine, htake, hdecode]
    rfl
  have hfirst : start.perform (.token .word) = some (.error (.access failure), left) := by
    have hspan : start.nextSpan = some (.error (.access failure), left) := by
      have hrest : start.rest? = some [] := rfl
      rw [Cursor.nextSpan_of_nil hrest rfl, hfill]
    simp only [Cursor.perform, Cursor.read, hspan]
  have hsecond : left.perform (.token .word) = some (.ok "abc", { left with offset := 3 }) := by
    have hspan : left.nextSpan = some (.ok (0, 3), { left with offset := 3 }) := by
      have hrest : left.rest? = some left.buffer := rfl
      have htrimmed : left.buffer.dropWhile isBlank = left.buffer := rfl
      rw [Cursor.nextSpan_of_ne_nil hrest htrimmed (List.cons_ne_nil _ _)]
      rfl
    simp only [Cursor.perform, Cursor.read, hspan]
    rfl
  constructor
  · simp only [Cursor.trace, hfirst]
    rfl
  · simp only [Cursor.trace, hfirst, hsecond, Option.bind_eq_bind, Option.bind_some]
    rfl

end ModuleSource
