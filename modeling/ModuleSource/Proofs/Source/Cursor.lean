import ModuleSource.Proofs.Source.Conservation
import ModuleSource.Proofs.Text.Offsets

/-!
Reading by places, from bytes that come in pieces. A reader that keeps its current line in a buffer
and only counts the bytes it has read of it takes each token, and each rest of a line, as a slice
between two places. Every slice is checked here: a place beyond the end of the buffer or inside a
character would end the reading. The bytes come from a source that may fail at any time, also in the
middle of a line, and that may go on after it has failed or ended. Main statement: no slice ever
fails, whatever the source gives and the calls are. The buffer never has a line feed, but it can end
with a carriage return: a source that fails in a line leaves the part before in the buffer as it is.
-/

namespace ModuleSource

open Text

namespace Text

/-- The bytes up to the first line feed, with it, and the bytes after it. -/
def splitLine (bytes : List UInt8) : List UInt8 × List UInt8 :=
  let rest := bytes.dropWhile (!· == lineFeed)
  (bytes.takeWhile (!· == lineFeed) ++ rest.take 1, rest.drop 1)

/-- The text without the carriage returns and line feeds at its end. -/
def dropEndings (cs : List Char) : List Char := cs.rdropWhile fun c => c == '\r' || c == '\n'

theorem length_splitLine (bytes : List UInt8) :
    (splitLine bytes).1.length + (splitLine bytes).2.length = bytes.length := by
  rw [splitLine, ← List.length_append, List.append_assoc, List.take_append_drop,
    List.takeWhile_append_dropWhile]

/-- A line has its line feed at the end, if it has one. -/
theorem splitLine_eq (bytes : List UInt8) : ∃ ending, (ending = [] ∨ ending = [lineFeed]) ∧
    (splitLine bytes).1 = bytes.takeWhile (!· == lineFeed) ++ ending := by
  unfold splitLine
  cases hrest : bytes.dropWhile (!· == lineFeed) with
  | nil => exact ⟨[], Or.inl rfl, rfl⟩
  | cons b rest =>
    have hb : b = lineFeed := by
      have hhead := List.head_dropWhile_not (!· == lineFeed) (l := bytes)
        (by rw [hrest]; exact List.cons_ne_nil _ _)
      simpa [hrest] using hhead
    exact ⟨[lineFeed], Or.inr rfl, by rw [hb]; rfl⟩

theorem lineFeed_not_mem_takeWhile (bytes : List UInt8) :
    lineFeed ∉ bytes.takeWhile (!· == lineFeed) :=
  fun hmem => absurd (List.mem_takeWhile_imp hmem) (by decide)

theorem utf8_append (u v : List Char) : utf8 (u ++ v) = utf8 u ++ utf8 v := List.flatMap_append

/-- A line feed after some bytes is a character after theirs. -/
theorem decode?_append_lineFeed (bytes : List UInt8) :
    decode? (bytes ++ [lineFeed]) = (decode? bytes).map (· ++ ['\n']) := by
  ext cs
  rw [decode?_eq_some_iff, Option.map_eq_some_iff]
  constructor
  · intro h
    obtain ⟨front, last, rfl⟩ : ∃ front last, cs = front ++ [last] := by
      rcases List.eq_nil_or_concat cs with rfl | ⟨front, last, hcs⟩
      · exact absurd h (by simp [utf8])
      · exact ⟨front, last, by rw [hcs, List.concat_eq_append]⟩
    have hmem : lineFeed ∈ String.utf8EncodeChar last := by
      have hlast := congrArg List.getLast? h
      rw [List.getLast?_concat, utf8_append, List.getLast?_append, utf8, List.flatMap_singleton,
        Option.or_of_isSome (by simp [String.utf8EncodeChar_ne_nil])] at hlast
      exact List.mem_of_getLast? hlast.symm
    obtain rfl := lineFeed_mem_utf8EncodeChar hmem
    rw [utf8_append] at h
    exact ⟨front, decode?_eq_some_iff.mpr (List.append_cancel_right h), rfl⟩
  · intro h
    obtain ⟨front, hfront, hcs⟩ := h
    rw [← hcs, decode?_eq_some_iff.mp hfront, utf8_append]
    rfl

theorem lineFeed_mem_utf8 {cs : List Char} (h : '\n' ∈ cs) : lineFeed ∈ utf8 cs :=
  List.mem_flatMap.mpr ⟨'\n', h, by decide⟩

theorem not_mem_of_decode? {bytes : List UInt8} {cs : List Char} (hbytes : lineFeed ∉ bytes)
    (h : decode? bytes = some cs) : '\n' ∉ cs := by
  intro hmem
  have hfeed := lineFeed_mem_utf8 hmem
  rw [← decode?_eq_some_iff.mp h] at hfeed
  exact hbytes hfeed

/-- A line without its ending. -/
structure IsLine (cs : List Char) : Prop where
  noFeed : '\n' ∉ cs
  noReturn : cs.getLast? ≠ some '\r'

section Ending

variable {cs : List Char}

theorem dropEndings_of_not_mem (h : '\n' ∉ cs) : dropEndings cs = dropReturns cs := by
  change cs.rdropWhile _ = cs.rdropWhile _
  induction cs using List.reverseRecOn with
  | nil => rfl
  | append_singleton cs c ih =>
    rw [List.mem_append, not_or, List.mem_singleton] at h
    have hc : (c == '\n') = false := beq_eq_false_iff_ne.mpr fun heq => h.2 heq.symm
    rw [List.rdropWhile_concat, List.rdropWhile_concat, hc, Bool.or_false, ih h.1]

theorem dropEndings_append {ending : List Char} (h : ending = [] ∨ ending = ['\n']) :
    dropEndings (cs ++ ending) = dropEndings cs := by
  rcases h with rfl | rfl
  · rw [List.append_nil]
  · exact List.rdropWhile_concat_pos _ _ _ rfl

theorem isLine_nil : IsLine [] := ⟨List.not_mem_nil, nofun⟩

theorem isLine_dropReturns (h : '\n' ∉ cs) : IsLine (dropReturns cs) where
  noFeed hmem := h ((List.rdropWhile_prefix _ cs).subset hmem)
  noReturn hlast := by
    change (cs.rdropWhile _).getLast? = _ at hlast
    have hne : cs.rdropWhile (· == '\r') ≠ [] := by
      intro hnil
      rw [hnil] at hlast
      cases hlast
    rw [List.getLast?_eq_some_getLast hne] at hlast
    exact List.rdropWhile_last_not _ cs hne (beq_iff_eq.mpr (Option.some.inj hlast))

/-- What ends a line ends it with its mark too. -/
theorem IsLine.dropMark (h : IsLine cs) : IsLine (dropMark cs) := by
  cases cs with
  | nil => exact h
  | cons c cs =>
    rw [Text.dropMark]
    split
    · refine ⟨fun hmem => h.noFeed (List.mem_cons_of_mem c hmem), fun hlast => h.noReturn ?_⟩
      rw [List.getLast?_cons, hlast]
      rfl
    · exact h

end Ending

end Text

/-- What a source of bytes gives when it is asked for more: some bytes, none at the end of the
stream, or a failure. -/
abbrev Chunk := Except AccessFailure (List UInt8)

namespace Chunk

def size : Chunk → Nat
  | .ok bytes => bytes.length + 1
  | .error _ => 1

/-- How much there is in a stream. -/
def volume : List Chunk → Nat
  | [] => 0
  | chunk :: chunks => chunk.size + volume chunks

/-- The stream with some bytes before it. -/
def putBack (bytes : List UInt8) (chunks : List Chunk) : List Chunk :=
  if bytes = [] then chunks else .ok bytes :: chunks

/-- The bytes of a line, the failure that ended it if there was one, and what comes after it. -/
structure Line where
  bytes : List UInt8
  failure : Option AccessFailure := none
  rest : List Chunk

/-- Takes bytes up to a line feed, with it, or up to the end of the stream or a failure. -/
def takeLine : List Chunk → Line
  | [] => { bytes := [], rest := [] }
  | .error e :: chunks => { bytes := [], failure := some e, rest := chunks }
  | .ok bytes :: chunks =>
    if bytes = [] then { bytes := [], rest := chunks }
    else if lineFeed ∈ bytes then
      { bytes := (splitLine bytes).1, rest := putBack (splitLine bytes).2 chunks }
    else { takeLine chunks with bytes := bytes ++ (takeLine chunks).bytes }

theorem volume_putBack_le (bytes : List UInt8) (chunks : List Chunk) :
    volume (putBack bytes chunks) ≤ bytes.length + 1 + volume chunks := by
  unfold putBack
  split
  · omega
  · simp only [volume, size]
    omega

theorem volume_takeLine (chunks : List Chunk) :
    (takeLine chunks).bytes.length + volume (takeLine chunks).rest ≤ volume chunks := by
  induction chunks with
  | nil => exact Nat.le_refl 0
  | cons chunk chunks ih =>
    rw [volume]
    cases chunk with
    | error e =>
      simp only [takeLine, List.length_nil]
      omega
    | ok bytes =>
      have hlength := length_splitLine bytes
      simp only [takeLine, size]
      split_ifs
      · simp only [List.length_nil]
        omega
      · have hback := volume_putBack_le (splitLine bytes).2 chunks
        dsimp only
        omega
      · simp only [List.length_append]
        omega

/-- A line has a line feed only at its end, and only if no failure ended it. -/
theorem takeLine_bytes (chunks : List Chunk) : ∃ front ending, lineFeed ∉ front ∧
    (takeLine chunks).bytes = front ++ ending ∧
      (ending = [] ∨ ending = [lineFeed] ∧ (takeLine chunks).failure = none) := by
  induction chunks with
  | nil => exact ⟨[], [], List.not_mem_nil, rfl, Or.inl rfl⟩
  | cons chunk chunks ih =>
    cases chunk with
    | error e => exact ⟨[], [], List.not_mem_nil, rfl, Or.inl rfl⟩
    | ok bytes =>
      simp only [takeLine]
      split_ifs with hnil hfeed
      · exact ⟨[], [], List.not_mem_nil, rfl, Or.inl rfl⟩
      · obtain ⟨ending, hending, heq⟩ := splitLine_eq bytes
        exact ⟨_, ending, lineFeed_not_mem_takeWhile bytes, heq, hending.imp_right (⟨·, rfl⟩)⟩
      · obtain ⟨front, ending, hfront, heq, hending⟩ := ih
        refine ⟨bytes ++ front, ending, ?_, by rw [heq, List.append_assoc], hending⟩
        rw [List.mem_append, not_or]
        exact ⟨hfeed, hfront⟩

/-- The text of a line is a text without line feeds and at most one at the end, if it decodes. -/
theorem decode?_takeLine {chunks : List Chunk} {chars : List Char}
    (h : decode? (takeLine chunks).bytes = some chars) : ∃ cs ending, '\n' ∉ cs ∧
      chars = cs ++ ending ∧
        (ending = [] ∨ ending = ['\n'] ∧ (takeLine chunks).failure = none) := by
  obtain ⟨front, ending, hfront, hbytes, hending⟩ := takeLine_bytes chunks
  rw [hbytes] at h
  rcases hending with rfl | ⟨rfl, hfailure⟩
  · rw [List.append_nil] at h
    exact ⟨chars, [], not_mem_of_decode? hfront h, (List.append_nil chars).symm, Or.inl rfl⟩
  · rw [decode?_append_lineFeed, Option.map_eq_some_iff] at h
    obtain ⟨cs, hcs, rfl⟩ := h
    exact ⟨cs, ['\n'], not_mem_of_decode? hfront hcs, rfl, Or.inr ⟨rfl, hfailure⟩⟩

end Chunk

/-- The current line in a buffer, the place in it up to which it has been read, its number, and what
the source gives after it. -/
structure Cursor where
  chunks : List Chunk
  buffer : List Char := []
  offset : Nat := 0
  line : Nat := 0

namespace Cursor

def ofChunks (chunks : List Chunk) : Cursor where
  chunks := chunks

/-- The part of the buffer that has not been read. -/
def rest? (c : Cursor) : Option (List Char) := (cut? c.buffer c.offset).map Prod.snd

/-- The buffer without the mark that the first line may start with. -/
def unmark? (line : Nat) (buffer : List Char) : Option (List Char) :=
  if line = 0 ∧ buffer.head? = some byteOrderMark then
    (cut? buffer (byteSize [byteOrderMark])).map Prod.snd
  else some buffer

/-- Puts the next physical line into the buffer, or tells that there is none. Where the source fails
the buffer keeps what has come of the line, if it is text, and the line is not counted. -/
def fillLine (c : Cursor) : Option (Except ReadFailure Bool × Cursor) :=
  let line := Chunk.takeLine c.chunks
  match decode? line.bytes, line.failure with
  | none, failure =>
    some (.error (.access (failure.getD .invalidText)), { chunks := line.rest, line := c.line })
  | some chars, some e =>
    some (.error (.access e), { chunks := line.rest, buffer := chars, line := c.line })
  | some chars, none =>
    if line.bytes = [] then some (.ok false, { chunks := line.rest, line := c.line })
    else do
      let (kept, _) ← cut? chars (byteSize (dropEndings chars))
      let buffer ← unmark? c.line kept
      return (.ok true, { chunks := line.rest, buffer, line := c.line + 1 })

theorem volume_lt {c c' : Cursor} (h : c.fillLine = some (.ok true, c')) :
    Chunk.volume c'.chunks < Chunk.volume c.chunks := by
  have hvolume := Chunk.volume_takeLine c.chunks
  unfold fillLine at h
  dsimp only at h
  split at h
  · cases h
  · cases h
  · split at h
    · cases h
    next hnil =>
    have hpos := List.length_pos_iff.mpr hnil
    obtain ⟨⟨kept, _⟩, -, h⟩ := Option.bind_eq_some_iff.mp h
    obtain ⟨buffer, -, h⟩ := Option.bind_eq_some_iff.mp h
    cases h
    show Chunk.volume (Chunk.takeLine c.chunks).rest < _
    omega

/-- Passes over the next token and tells between which places of the buffer it is. -/
def nextSpan (c : Cursor) : Option (Except ReadFailure (Nat × Nat) × Cursor) :=
  match c.rest? with
  | none => none
  | some rest =>
    match rest.dropWhile isBlank with
    | [] =>
      match _h : c.fillLine with
      | none => none
      | some (.error e, c) => some (.error e, c)
      | some (.ok false, c) => some (.error (.endOfStream c.line), c)
      | some (.ok true, c) => c.nextSpan
    | trimmed =>
      let start := c.offset + (byteSize rest - byteSize trimmed)
      let stop := start + byteSize (trimmed.takeWhile isSolid)
      some (.ok (start, stop), { c with offset := stop })
termination_by Chunk.volume c.chunks
decreasing_by exact volume_lt _h

def read (kind : TokenForm) (c : Cursor) : Option (Except ReadFailure kind.Value × Cursor) :=
  match c.nextSpan with
  | none => none
  | some (.error e, c) => some (.error e, c)
  | some (.ok (start, stop), c) => do
    let token ← slice? c.buffer start stop
    match kind.parse? token with
    | some value => return (.ok value, c)
    | none => return (.error (.malformed c.line (String.ofList token) kind), c)

def takeLine (c : Cursor) : Option (Except ReadFailure String × Cursor) := do
  match trim (← c.rest?) with
  | first :: rest =>
    return (.ok (String.ofList (first :: rest)), { c with offset := byteSize c.buffer })
  | [] =>
    match ← c.fillLine with
    | (.error e, c) => return (.error e, c)
    | (.ok false, c) => return (.error (.endOfStream c.line), c)
    | (.ok true, c) => return (.ok (String.ofList c.buffer), { c with offset := byteSize c.buffer })

def perform : (reading : Reading) → Cursor → Option (Except ReadFailure reading.Result × Cursor)
  | .token kind, c => c.read kind
  | .line, c => c.takeLine

/-- The results of calls, one after the other, and where they leave the cursor. -/
def trace : List Reading → Cursor →
    Option (List ((reading : Reading) × Except ReadFailure reading.Result) × Cursor)
  | [], c => some ([], c)
  | reading :: readings, c => do
    let (result, c) ← c.perform reading
    let (results, c) ← trace readings c
    return (⟨reading, result⟩ :: results, c)

/-- The first line without its mark, and any other line as it is. -/
def unmark (line : Nat) (chars : List Char) : List Char :=
  if line = 0 then dropMark chars else chars

theorem unmark?_eq (line : Nat) (buffer : List Char) :
    unmark? line buffer = some (unmark line buffer) := by
  unfold unmark? unmark
  by_cases hline : line = 0
  · rw [if_pos hline]
    cases buffer with
    | nil => rw [if_neg (by simp), dropMark]
    | cons c cs =>
      by_cases hc : c = byteOrderMark
      · rw [if_pos ⟨hline, congrArg some hc⟩, dropMark, if_pos hc, hc]
        exact congrArg (Option.map Prod.snd) (cut?_append [byteOrderMark] cs)
      · rw [if_neg fun h => hc (Option.some.inj h.2), dropMark, if_neg hc]
  · rw [if_neg fun h => hline h.1, if_neg hline]

theorem isLine_unmark {cs : List Char} (h : IsLine cs) (line : Nat) : IsLine (unmark line cs) := by
  unfold unmark
  split
  · exact h.dropMark
  · exact h

/-- What is cut off of a line is at its end, so the cut is between two characters. -/
theorem fillLine_of_text {c : Cursor} {cs ending : List Char} (hcs : '\n' ∉ cs)
    (hending : ending = [] ∨ ending = ['\n']) (hne : (Chunk.takeLine c.chunks).bytes ≠ [])
    (hfailure : (Chunk.takeLine c.chunks).failure = none)
    (hdecode : decode? (Chunk.takeLine c.chunks).bytes = some (cs ++ ending)) :
    c.fillLine = some (.ok true,
      { chunks := (Chunk.takeLine c.chunks).rest, buffer := unmark c.line (dropReturns cs),
        line := c.line + 1 }) := by
  have hkept : dropEndings (cs ++ ending) = dropReturns cs := by
    rw [dropEndings_append hending, dropEndings_of_not_mem hcs]
  obtain ⟨returns, hreturns⟩ := List.rdropWhile_prefix (· == '\r') cs
  have hcut : cut? (cs ++ ending) (byteSize (dropReturns cs)) =
      some (dropReturns cs, returns ++ ending) := by
    refine cut?_eq_some_iff.mpr ⟨?_, rfl⟩
    rw [← List.append_assoc]
    exact congrArg (· ++ ending) hreturns.symm
  unfold fillLine
  simp only [hdecode, hfailure, if_neg hne, hkept, hcut, unmark?_eq, Option.bind_eq_bind,
    Option.bind_some]
  rfl

/-- The place is in the buffer and between two of its characters, and the buffer has no line
feed. -/
structure InBounds (c : Cursor) : Prop where
  isBoundary : IsBoundary c.buffer c.offset
  noFeed : '\n' ∉ c.buffer

/-- What can become of filling the buffer. -/
inductive Fills : Except ReadFailure Bool × Cursor → Prop
  | ended {chunks : List Chunk} {line : Nat} : Fills (.ok false, { chunks, line })
  | text {chunks : List Chunk} {buffer : List Char} {line : Nat} (isLine : IsLine buffer) :
      Fills (.ok true, { chunks, buffer, line })
  | failed {e : AccessFailure} {chunks : List Chunk} {buffer : List Char} {line : Nat}
      (noFeed : '\n' ∉ buffer) : Fills (.error (.access e), { chunks, buffer, line })

/-- No cut fails when the buffer is filled. -/
theorem exists_fills (c : Cursor) : ∃ found, c.fillLine = some found ∧ Fills found := by
  cases hdecode : decode? (Chunk.takeLine c.chunks).bytes with
  | none =>
    have hfill : c.fillLine = some (.error (.access
        ((Chunk.takeLine c.chunks).failure.getD .invalidText)),
        { chunks := (Chunk.takeLine c.chunks).rest, line := c.line }) := by
      simp only [fillLine, hdecode]
    exact ⟨_, hfill, .failed List.not_mem_nil⟩
  | some chars =>
    obtain ⟨cs, ending, hcs, rfl, hending⟩ := Chunk.decode?_takeLine hdecode
    cases hfailure : (Chunk.takeLine c.chunks).failure with
    | some e =>
      rcases hending with rfl | ⟨-, hnone⟩
      · rw [List.append_nil] at hdecode
        have hfill : c.fillLine = some (.error (.access e),
            { chunks := (Chunk.takeLine c.chunks).rest, buffer := cs, line := c.line }) := by
          simp only [fillLine, hdecode, hfailure]
        exact ⟨_, hfill, .failed hcs⟩
      · rw [hfailure] at hnone
        cases hnone
    | none =>
      by_cases hnil : (Chunk.takeLine c.chunks).bytes = []
      · have hfill : c.fillLine = some (.ok false,
            { chunks := (Chunk.takeLine c.chunks).rest, line := c.line }) := by
          simp only [fillLine, hdecode, hfailure, if_pos hnil]
        exact ⟨_, hfill, .ended⟩
      · refine ⟨_, fillLine_of_text hcs (hending.imp_right And.left) hnil hfailure hdecode, ?_⟩
        exact .text (isLine_unmark (isLine_dropReturns hcs) c.line)

theorem fills_of_fillLine {c : Cursor} {found : Except ReadFailure Bool × Cursor}
    (h : c.fillLine = some found) : Fills found := by
  obtain ⟨filled, hfill, fills⟩ := exists_fills c
  obtain rfl := Option.some.inj (h.symm.trans hfill)
  exact fills

theorem Fills.inBounds {found : Except ReadFailure Bool × Cursor} (h : Fills found) :
    found.2.InBounds := by
  have hstart (buffer : List Char) : IsBoundary buffer 0 :=
    isBoundary_iff.mpr ⟨[], buffer, rfl, rfl⟩
  cases h with
  | ended => exact ⟨hstart _, List.not_mem_nil⟩
  | text isLine => exact ⟨hstart _, isLine.noFeed⟩
  | failed noFeed => exact ⟨hstart _, noFeed⟩

section Reading

variable {c c' : Cursor}

theorem InBounds.rest? (h : c.InBounds) : ∃ front rest,
    c.rest? = some rest ∧ c.buffer = front ++ rest ∧ byteSize front = c.offset := by
  obtain ⟨front, rest, hbuffer, hoffset⟩ := isBoundary_iff.mp h.isBoundary
  refine ⟨front, rest, ?_, hbuffer, hoffset⟩
  rw [Cursor.rest?, hbuffer, ← hoffset, cut?_append]
  rfl

theorem InBounds.move (h : c.InBounds) {front rest : List Char}
    (hbuffer : c.buffer = front ++ rest) : InBounds { c with offset := byteSize front } :=
  ⟨isBoundary_iff.mpr ⟨front, rest, hbuffer, rfl⟩, h.noFeed⟩

/-- The first word of a text ends before the first blank after it. -/
theorem takeWhile_of_firstWord? {cs w rest : List Char} (h : firstWord? cs = some (w, rest)) :
    (cs.dropWhile isBlank).takeWhile isSolid = w := by
  obtain ⟨isWord, hcs, hrest⟩ := firstWord?_eq_some h
  have hnone : rest.takeWhile isSolid = [] := by
    have happend := List.takeWhile_append_dropWhile (p := isSolid) (l := rest)
    rwa [hrest, List.append_left_eq_self] at happend
  rw [hcs, List.takeWhile_append_of_pos fun c hc => isSolid_eq_true_iff.mpr (isWord.2 c hc), hnone,
    List.append_nil]

/-- The way to the next token: it is on the current line, or a line is filled and the search goes
on there. -/
inductive Spans : Cursor → Except ReadFailure (Nat × Nat) × Cursor → Prop
  | here {c : Cursor} {front rest w more : List Char} {start : Nat} (rest_eq : c.rest? = some rest)
      (first : firstWord? rest = some (w, more)) (buffer_eq : c.buffer = front ++ w ++ more)
      (start_eq : start = byteSize front) :
      Spans c (.ok (start, start + byteSize w), { c with offset := start + byteSize w })
  | failed {c c' : Cursor} {rest : List Char} {e : ReadFailure} (rest_eq : c.rest? = some rest)
      (blank : firstWord? rest = none) (fill : c.fillLine = some (.error e, c')) :
      Spans c (.error e, c')
  | ended {c c' : Cursor} {rest : List Char} (rest_eq : c.rest? = some rest)
      (blank : firstWord? rest = none) (fill : c.fillLine = some (.ok false, c')) :
      Spans c (.error (.endOfStream c'.line), c')
  | further {c c' : Cursor} {rest : List Char} {found : Except ReadFailure (Nat × Nat) × Cursor}
      (rest_eq : c.rest? = some rest) (blank : firstWord? rest = none)
      (fill : c.fillLine = some (.ok true, c')) (spans : Spans c' found) : Spans c found

theorem nextSpan_of_ne_nil {rest trimmed : List Char} (hrest : c.rest? = some rest)
    (htrimmed : rest.dropWhile isBlank = trimmed) (hne : trimmed ≠ []) :
    c.nextSpan =
      let start := c.offset + (byteSize rest - byteSize trimmed)
      let stop := start + byteSize (trimmed.takeWhile isSolid)
      some (.ok (start, stop), { c with offset := stop }) := by
  obtain ⟨first, later, rfl⟩ := List.exists_cons_of_ne_nil hne
  rw [nextSpan, hrest]
  simp only [htrimmed]

theorem nextSpan_of_nil {rest : List Char} (hrest : c.rest? = some rest)
    (htrimmed : rest.dropWhile isBlank = []) :
    c.nextSpan = match c.fillLine with
      | none => none
      | some (.error e, c) => some (.error e, c)
      | some (.ok false, c) => some (.error (.endOfStream c.line), c)
      | some (.ok true, c) => c.nextSpan := by
  rw [nextSpan, hrest]
  simp only [htrimmed]
  split <;> simp only [*]

/-- A word of the current line is between the place after the blanks and the place after it. -/
theorem spans_of_firstWord? {front rest w more : List Char} (hrest : c.rest? = some rest)
    (hbuffer : c.buffer = front ++ rest) (hoffset : byteSize front = c.offset)
    (hfirst : firstWord? rest = some (w, more)) :
    ∃ found, c.nextSpan = some found ∧ Spans c found := by
  obtain ⟨isWord, htrimmed, -⟩ := firstWord?_eq_some hfirst
  let blanks := rest.takeWhile isBlank
  have hparts : rest = blanks ++ (w ++ more) := by
    rw [← htrimmed, List.takeWhile_append_dropWhile]
  have hstart : c.offset + (byteSize rest - byteSize (w ++ more)) = byteSize (front ++ blanks) := by
    rw [hparts, byteSize_append, byteSize_append, byteSize_append, hoffset]
    omega
  have hword : (w ++ more).takeWhile isSolid = w := by
    rw [← htrimmed, takeWhile_of_firstWord? hfirst]
  have hspan := nextSpan_of_ne_nil hrest htrimmed (by simp [isWord.1])
  simp only [hstart, hword] at hspan
  refine ⟨_, hspan, .here hrest hfirst ?_ rfl⟩
  rw [hbuffer, hparts]
  simp only [List.append_assoc]

/-- No slice fails on the way to the next token. -/
theorem exists_spans (h : c.InBounds) : ∃ found, c.nextSpan = some found ∧ Spans c found := by
  -- What is passed over is taken from the stream.
  induction hvolume : Chunk.volume c.chunks using Nat.strong_induction_on generalizing c with
  | _ n ih =>
    obtain ⟨front, rest, hrest, hbuffer, hoffset⟩ := h.rest?
    cases hfirst : firstWord? rest with
    | some found => exact spans_of_firstWord? hrest hbuffer hoffset hfirst
    | none =>
      obtain ⟨⟨result, c'⟩, hfill, fills⟩ := exists_fills c
      rw [nextSpan_of_nil hrest (firstWord?_eq_none hfirst), hfill]
      cases result with
      | error e => exact ⟨_, rfl, .failed hrest hfirst hfill⟩
      | ok more =>
        cases more with
        | false => exact ⟨_, rfl, .ended hrest hfirst hfill⟩
        | true =>
          obtain ⟨found, hspan, spans⟩ := ih _ (hvolume ▸ volume_lt hfill) fills.inBounds rfl
          exact ⟨found, hspan, .further hrest hfirst hfill spans⟩

theorem Spans.inBounds {found : Except ReadFailure (Nat × Nat) × Cursor} (h : Spans c found)
    (hc : c.InBounds) : found.2.InBounds := by
  induction h with
  | @here c front rest w more start rest_eq first buffer_eq start_eq =>
    rw [start_eq, ← byteSize_append]
    exact hc.move buffer_eq
  | failed _ _ fill => exact (fills_of_fillLine fill).inBounds
  | ended _ _ fill => exact (fills_of_fillLine fill).inBounds
  | further _ _ fill _ ih => exact ih (fills_of_fillLine fill).inBounds

/-- Between the two places of a token is a word. -/
theorem Spans.slice {start stop : Nat} (h : Spans c (.ok (start, stop), c')) :
    ∃ w, slice? c'.buffer start stop = some w ∧ IsWord w := by
  generalize hfound : (Except.ok (start, stop), c') = found at h
  induction h with
  | @here c front rest w more start rest_eq first buffer_eq start_eq =>
    cases hfound
    refine ⟨w, ?_, (firstWord?_eq_some first).1⟩
    rw [start_eq]
    change slice? c.buffer _ _ = _
    rw [buffer_eq]
    exact slice?_append front w more
  | failed => cases hfound
  | ended => cases hfound
  | further _ _ _ _ ih => exact ih hfound

/-- Nothing has come from the source, the line in the buffer is whole, or the source has failed. -/
def Steady (c : Cursor) {α : Type} (result : Except ReadFailure α) (c' : Cursor) : Prop :=
  c' = { c with offset := c'.offset } ∨ IsLine c'.buffer ∨ ∃ e, result = .error (.access e)

/-- A failure says the same of a call, whatever the call is to give. -/
theorem Steady.error {α β : Type} {e : ReadFailure} (h : Steady (α := α) c (.error e) c') :
    Steady (α := β) c (.error e) c' := by
  rcases h with hsame | isLine | ⟨cause, hcause⟩
  · exact Or.inl hsame
  · exact Or.inr (Or.inl isLine)
  · exact Or.inr (Or.inr ⟨cause, congrArg Except.error (Except.error.inj hcause)⟩)

theorem Steady.ok {α β : Type} {a : α} (h : Steady c (.ok a) c') (result : Except ReadFailure β) :
    Steady c result c' := by
  rcases h with hsame | isLine | ⟨cause, hcause⟩
  · exact Or.inl hsame
  · exact Or.inr (Or.inl isLine)
  · cases hcause

theorem steady_of_fillLine {result : Except ReadFailure Bool}
    (h : c.fillLine = some (result, c')) : Steady c result c' := by
  cases fills_of_fillLine h with
  | ended => exact Or.inr (Or.inl isLine_nil)
  | text isLine => exact Or.inr (Or.inl isLine)
  | failed => exact Or.inr (Or.inr ⟨_, rfl⟩)

theorem isLine_of_fillLine {more : Bool} (h : c.fillLine = some (.ok more, c')) :
    IsLine c'.buffer := by
  cases fills_of_fillLine h with
  | ended => exact isLine_nil
  | text isLine => exact isLine

theorem Spans.steady {result : Except ReadFailure (Nat × Nat)} (h : Spans c (result, c')) :
    Steady c result c' := by
  generalize hfound : (result, c') = found at h
  induction h with
  | here =>
    cases hfound
    exact Or.inl rfl
  | failed _ _ fill =>
    cases hfound
    exact (steady_of_fillLine fill).error
  | ended _ _ fill =>
    cases hfound
    exact (steady_of_fillLine fill).ok _
  | @further c c₁ rest found _ _ fill spans ih =>
    -- A line that has been filled is whole, and stays so until the next one is.
    rcases ih hfound with hsame | hrest
    · have isLine := isLine_of_fillLine fill
      refine Or.inr (Or.inl ?_)
      rw [hsame]
      exact isLine
    · exact Or.inr hrest

/-- Every call gives a result and leaves the place in bounds. -/
theorem exists_perform (h : c.InBounds) (reading : Reading) : ∃ result c',
    c.perform reading = some (result, c') ∧ c'.InBounds ∧ Steady c result c' := by
  cases reading with
  | token kind =>
    obtain ⟨⟨result, c'⟩, hspan, spans⟩ := exists_spans h
    simp only [perform, read, hspan]
    have inBounds : c'.InBounds := spans.inBounds h
    cases result with
    | error e => exact ⟨_, _, rfl, inBounds, spans.steady.error⟩
    | ok span =>
      obtain ⟨start, stop⟩ := span
      obtain ⟨w, hslice, -⟩ := spans.slice
      simp only [hslice, Option.bind_eq_bind, Option.bind_some]
      cases kind.parse? w with
      | some value => exact ⟨_, _, rfl, inBounds, spans.steady.ok _⟩
      | none => exact ⟨_, _, rfl, inBounds, spans.steady.ok _⟩
  | line =>
    obtain ⟨front, rest, hrest, hbuffer, -⟩ := h.rest?
    have hend {c : Cursor} (h : c.InBounds) : InBounds { c with offset := byteSize c.buffer } :=
      h.move (List.append_nil c.buffer).symm
    simp only [perform, takeLine, hrest, Option.bind_eq_bind, Option.bind_some]
    cases trim rest with
    | cons first rest => exact ⟨_, _, rfl, hend h, Or.inl rfl⟩
    | nil =>
      obtain ⟨⟨result, c'⟩, hfill, fills⟩ := exists_fills c
      have inBounds : c'.InBounds := fills.inBounds
      simp only [hfill, Option.bind_some]
      cases result with
      | error e => exact ⟨_, _, rfl, inBounds, (steady_of_fillLine hfill).error⟩
      | ok more =>
        have isLine := isLine_of_fillLine hfill
        cases more with
        | false => exact ⟨_, _, rfl, inBounds, Or.inr (Or.inl isLine)⟩
        | true => exact ⟨_, _, rfl, hend inBounds, Or.inr (Or.inl isLine)⟩

theorem trace_concat (readings : List Reading) (reading : Reading) :
    c.trace (readings ++ [reading]) = (c.trace readings).bind fun found =>
      (found.2.perform reading).map fun next => (found.1 ++ [⟨reading, next.1⟩], next.2) := by
  induction readings generalizing c with
  | nil =>
    simp only [List.nil_append, trace, Option.bind_eq_bind, Option.bind_some]
    cases c.perform reading <;> rfl
  | cons first readings ih =>
    simp only [List.cons_append, trace, Option.bind_eq_bind]
    cases c.perform first with
    | none => rfl
    | some found =>
      simp only [Option.bind_some, ih]
      cases trace readings found.2 with
      | none => rfl
      | some later =>
        simp only [Option.bind_some, Option.pure_def]
        cases later.2.perform reading <;> rfl

/-- The last call for which the source was asked is one that failed because the source failed. -/
def Interrupted (start : Cursor) (readings : List Reading) (c : Cursor) : Prop :=
  ∃ front reading back results e c', readings = front ++ reading :: back ∧
    start.trace (front ++ [reading]) = some (results ++ [⟨reading, .error (.access e)⟩], c') ∧
    c = { c' with offset := c.offset }

theorem exists_trace {start : Cursor} (h : start.InBounds) (isLine : IsLine start.buffer)
    (readings : List Reading) : ∃ results c, start.trace readings = some (results, c) ∧
      c.InBounds ∧ (IsLine c.buffer ∨ Interrupted start readings c) := by
  induction readings using List.reverseRecOn with
  | nil => exact ⟨[], start, rfl, h, Or.inl isLine⟩
  | append_singleton readings reading ih =>
    obtain ⟨results, c, htrace, inBounds, hbuffer⟩ := ih
    obtain ⟨result, c', hperform, inBounds', steady⟩ := exists_perform inBounds reading
    have htrace' : start.trace (readings ++ [reading]) =
        some (results ++ [⟨reading, result⟩], c') := by
      rw [trace_concat, htrace, Option.bind_some, hperform]
      rfl
    refine ⟨_, _, htrace', inBounds', ?_⟩
    rcases steady with hsame | isLine' | ⟨e, rfl⟩
    · rcases hbuffer with isLine' | ⟨front, failing, back, earlier, e, c₁, rfl, hfailed, hsince⟩
      · refine Or.inl ?_
        rw [hsame]
        exact isLine'
      · refine Or.inr ⟨front, failing, back ++ [reading], earlier, e, c₁, by simp, hfailed, ?_⟩
        rw [hsame, hsince]
    · exact Or.inl isLine'
    · exact Or.inr ⟨readings, reading, [], results, e, c', rfl, htrace', rfl⟩

end Reading

end Cursor

end ModuleSource
