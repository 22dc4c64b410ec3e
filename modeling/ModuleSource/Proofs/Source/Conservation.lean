import ModuleSource.Proofs.Source.Tokens

/-!
No token is lost, repeated or moved, in whatever order tokens and lines are read. The calls of a
reader on one source are recorded with their results and with the tokens they took; the tokens taken
are a prefix of the tokens of the file, and all of them once a call has met the end. Lines that do
not decode cost one failed call each.
-/

namespace ModuleSource

open Text

@[reducible]
def Reading.Result : Reading → Type
  | .token kind => kind.Value
  | .line => String

namespace Source

/-- One call of a reader. -/
def perform : (reading : Reading) → Source → Except ReadFailure reading.Result × Source
  | .token kind, s => s.read kind
  | .line, s => s.takeLine

/-- The tokens that a call takes: the word under a token, whether or not the call accepts it, or the
words of the line it returns. -/
def taken : Reading → Source → List (List Char)
  | .token _, s => s.takeWord.1.toOption.toList
  | .line, s => s.takeLine.1.toOption.elim [] fun line => Text.words line.toList

end Source

/-- A call that was made. -/
structure Call where
  reading : Reading
  result : Except ReadFailure reading.Result
  taken : List (List Char)

namespace Call

def failure? (call : Call) : Option ReadFailure :=
  match call.result with
  | .ok _ => none
  | .error e => some e

/-- The failure for a line that does not decode. -/
def meetsUndecodable (call : Call) : Bool := call.failure? = some (.access .invalidText)

def MeetsEnd (call : Call) : Prop := ∃ line, call.failure? = some (.endOfStream line)

/-- The result of a call shows the tokens it took: a value is the value of one token, a rejected
token stands in the failure as it is, and a line has the words that were taken with it. -/
def Shows : Call → Prop
  | ⟨.token kind, .ok value, taken⟩ => ∃ w, taken = [w] ∧ kind.parse? w = some value
  | ⟨.token kind, .error (.malformed _ token expected), taken⟩ =>
    taken = [token.toList] ∧ expected = kind ∧ kind.parse? token.toList = none
  | ⟨.line, .ok line, taken⟩ => taken = Text.words line.toList
  | ⟨_, .error _, taken⟩ => taken = []

end Call

namespace Source

def call (reading : Reading) (s : Source) : Call where
  reading
  result := (s.perform reading).1
  taken := s.taken reading

/-- The calls of a reader, one after the other, and where they leave the source. -/
def trace : List Reading → Source → List Call × Source
  | [], s => ([], s)
  | reading :: readings, s =>
    let (calls, s') := trace readings (s.perform reading).2
    (s.call reading :: calls, s')

theorem Step.malformed {s s' : Source} {taken : List (List Char)} (step : Step s taken none s')
    (line : Nat) (token : String) (expected : TokenForm) :
    Step s taken (some (.malformed line token expected)) s' :=
  ⟨step.tokens_eq, step.advance, fun _ h => nomatch h⟩

private theorem perform_token (kind : TokenForm) (s : Source) :
    Step s (s.taken (.token kind)) (s.call (.token kind)).failure? (s.perform (.token kind)).2 ∧
      (s.call (.token kind)).Shows := by
  have step := readStep_read kind s
  simp only [call, perform, taken]
  generalize s.read kind = found at step ⊢
  obtain ⟨result, s'⟩ := found
  dsimp only at step
  cases step with
  | @value w _ _ took isWord parsed step =>
    rw [took]
    exact ⟨step, w, rfl, parsed⟩
  | malformed took isWord rejected step =>
    rw [took]
    refine ⟨step.malformed _ _ _, ?_⟩
    simp [Call.Shows, Except.toOption, rejected]
  | undecodable took step =>
    rw [took]
    exact ⟨step, rfl⟩
  | ended took step =>
    rw [took]
    exact ⟨step, rfl⟩

private theorem perform_line (s : Source) :
    Step s (s.taken .line) (s.call .line).failure? (s.perform .line).2 ∧ (s.call .line).Shows := by
  have step := lineStep_takeLine s
  simp only [call, perform, taken]
  generalize s.takeLine = found at step ⊢
  obtain ⟨result, s'⟩ := found
  cases step with
  | line step => exact ⟨step, rfl⟩
  | undecodable step => exact ⟨step, rfl⟩
  | ended step => exact ⟨step, rfl⟩

/-- Every call does what a read can do, with the tokens that it shows. -/
theorem step_perform (reading : Reading) (s : Source) :
    Step s (s.taken reading) (s.call reading).failure? (s.perform reading).2 :=
  match reading with
  | .token kind => (perform_token kind s).1
  | .line => (perform_line s).1

theorem shows_call (reading : Reading) (s : Source) : (s.call reading).Shows :=
  match reading with
  | .token kind => (perform_token kind s).2
  | .line => (perform_line s).2

theorem Ended.perform {s : Source} (h : s.Ended) (reading : Reading) :
    (s.call reading).MeetsEnd ∧ (s.perform reading).2.Ended := by
  cases reading with
  | token kind =>
    obtain ⟨herror, hended⟩ := h.takeWord
    rcases took : s.takeWord with ⟨result, s'⟩
    rw [took] at herror hended
    obtain rfl : result = .error (.endOfStream s.line) := herror
    have hread : s.read kind = (.error (.endOfStream s.line), s') := by rw [read, took]
    simp only [call, Source.perform, hread]
    exact ⟨⟨s.line, rfl⟩, hended⟩
  | line =>
    obtain ⟨herror, hended⟩ := h.takeLine
    refine ⟨⟨s.line, ?_⟩, hended⟩
    simp only [call, Source.perform, Call.failure?, herror]

@[simp]
theorem trace_cons (reading : Reading) (readings : List Reading) (s : Source) :
    s.trace (reading :: readings) = (s.call reading :: ((s.perform reading).2.trace readings).1,
      ((s.perform reading).2.trace readings).2) := rfl

theorem tokens_trace (readings : List Reading) (s : Source) :
    s.tokens = (s.trace readings).1.flatMap (·.taken) ++ (s.trace readings).2.tokens := by
  induction readings generalizing s with
  | nil => rfl
  | cons reading readings ih =>
    rw [trace_cons, List.flatMap_cons, List.append_assoc, ← ih]
    exact (step_perform reading s).tokens_eq

theorem shows_trace (readings : List Reading) (s : Source) :
    ∀ call ∈ (s.trace readings).1, call.Shows := by
  induction readings generalizing s with
  | nil => exact fun _ h => nomatch h
  | cons reading readings ih =>
    intro call hcall
    rw [trace_cons, List.mem_cons] at hcall
    rcases hcall with rfl | hcall
    · exact shows_call reading s
    · exact ih _ call hcall

/-- The lines that do not decode, among those passed by some calls, are as many as the calls that
failed for one. -/
theorem advance_trace (readings : List Reading) (s : Source) :
    ∃ passed, Advance s (s.trace readings).2 passed ∧
      passed.count .undecodable = (s.trace readings).1.countP (·.meetsUndecodable) := by
  induction readings generalizing s with
  | nil => exact ⟨[], Advance.refl s, rfl⟩
  | cons reading readings ih =>
    obtain ⟨first, hfirst, hcount⟩ := (step_perform reading s).advance
    obtain ⟨passed, hpassed, hcounts⟩ := ih (s.perform reading).2
    refine ⟨first ++ passed, hfirst.trans hpassed, ?_⟩
    rw [trace_cons, List.count_append, hcount, hcounts, List.countP_cons, Nat.add_comm]
    simp [Call.meetsUndecodable]

theorem Ended.trace {s : Source} (h : s.Ended) (readings : List Reading) :
    ∀ call ∈ (s.trace readings).1, call.MeetsEnd := by
  induction readings generalizing s with
  | nil => exact fun _ h => nomatch h
  | cons reading readings ih =>
    intro call hcall
    rw [trace_cons, List.mem_cons] at hcall
    rcases hcall with rfl | hcall
    · exact (h.perform reading).1
    · exact ih (h.perform reading).2 call hcall

/-- Once a call meets the end, everything has been taken and reported, and all later calls meet it
too. -/
theorem trace_of_meetsEnd {readings : List Reading} {s : Source} {before after : List Call}
    {call : Call} (h : (s.trace readings).1 = before ++ call :: after) (hend : call.MeetsEnd) :
    (before ++ [call]).flatMap (·.taken) = s.tokens ∧
      (before ++ [call]).countP (·.meetsUndecodable) = s.pending.count .undecodable ∧
      ∀ later ∈ after, later.MeetsEnd := by
  induction readings generalizing s before with
  | nil => simp [trace] at h
  | cons reading readings ih =>
    have step := step_perform reading s
    obtain ⟨passed, hadvance, hcount⟩ := step.advance
    rw [trace_cons] at h
    cases before with
    | nil =>
      obtain ⟨hcall, hafter⟩ := List.cons.inj h
      obtain ⟨line, hline⟩ := hend
      rw [← hcall] at hline
      obtain ⟨-, hended⟩ := step.ended line hline
      refine ⟨?_, ?_, ?_⟩
      · rw [step.tokens_eq, hended.tokens_eq, ← hcall]
        rfl
      · rw [hadvance.pending, hended.2, List.append_nil, hcount, hline, ← hcall]
        simp [Call.meetsUndecodable, hline]
      · rw [← hafter]
        exact hended.trace readings
    | cons first before =>
      obtain ⟨hfirst, htail⟩ := List.cons.inj h
      obtain ⟨htokens, hcounts, hlater⟩ := ih htail
      refine ⟨?_, ?_, hlater⟩
      · rw [List.cons_append, List.flatMap_cons, htokens, step.tokens_eq, ← hfirst]
        rfl
      · rw [List.cons_append, List.countP_cons, hcounts, hadvance.pending, List.count_append,
          hcount, ← hfirst, Nat.add_comm]
        simp [Call.meetsUndecodable]

theorem count_take_ofBytes_pending (bytes : ByteArray) (n : Nat) :
    ((ofBytes bytes).pending.take n).count .undecodable =
      ((physicalLines bytes).take n).countP (decode? · = none) := by
  rw [ofBytes_pending, PhysicalLine.count_take_unmark, ← List.map_take, List.count, List.countP_map]
  apply List.countP_congr
  intro line _
  simp [PhysicalLine.ofBytes_eq_undecodable_iff]

theorem count_ofBytes_pending (bytes : ByteArray) : (ofBytes bytes).pending.count .undecodable =
    (physicalLines bytes).countP (decode? · = none) := by
  have h := count_take_ofBytes_pending bytes
    (max (ofBytes bytes).pending.length (physicalLines bytes).length)
  rwa [List.take_of_length_le (Nat.le_max_left _ _), List.take_of_length_le (Nat.le_max_right _ _)]
    at h

/-- However the calls of a reader are mixed, the tokens they take, one after the other, start the
tokens of the file. The lines fetched so far that do not decode are as many as the calls that failed
for one. A call that meets the end comes after all tokens and all such failures, and before nothing
but calls that meet the end. -/
theorem trace_conserves_fileTokens (bytes : ByteArray) (readings : List Reading) :
    let calls := ((ofBytes bytes).trace readings).1
    let final := ((ofBytes bytes).trace readings).2
    calls.flatMap (·.taken) <+: fileTokens bytes ∧
      (∀ call ∈ calls, call.Shows) ∧
      calls.countP (·.meetsUndecodable) =
        ((physicalLines bytes).take final.fetched).countP (decode? · = none) ∧
      ∀ before call after, calls = before ++ call :: after → call.MeetsEnd →
        (before ++ [call]).flatMap (·.taken) = fileTokens bytes ∧
          (before ++ [call]).countP (·.meetsUndecodable) =
            (physicalLines bytes).countP (decode? · = none) ∧
          ∀ later ∈ after, later.MeetsEnd := by
  intro calls final
  obtain ⟨passed, hadvance, hcount⟩ := advance_trace readings (ofBytes bytes)
  have hfetched : final.fetched = passed.length := hadvance.fetched.trans (Nat.zero_add _)
  refine ⟨⟨final.tokens, ?_⟩, shows_trace readings _, ?_, ?_⟩
  · rw [← tokens_ofBytes]
    exact (tokens_trace readings (ofBytes bytes)).symm
  · rw [← hcount, ← count_take_ofBytes_pending, hadvance.pending, hfetched, List.take_left]
  · intro before call after hcalls hend
    rw [← tokens_ofBytes, ← count_ofBytes_pending]
    exact trace_of_meetsEnd hcalls hend

/-- A marked file with a line that does not decode, read to its end by calls of every sort. -/
theorem trace_conserves_fileTokens_marked :
    let bytes : ByteArray :=
      ⟨#[0xEF, 0xBB, 0xBF, 0x31, 0x20, 0x78, 0x0D, 0x0A, 0xFF, 0x0A, 0x79]⟩
    let calls := ((ofBytes bytes).trace
      [.token .int, .line, .token .word, .token .int, .token .word, .line]).1
    calls.map (·.failure?) = [none, none, some (.access .invalidText),
        some (.malformed 2 "y" .int), some (.endOfStream 2), some (.endOfStream 2)] ∧
      (calls.take 5).flatMap (·.taken) = fileTokens bytes ∧
      (calls.take 5).countP (·.meetsUndecodable) =
        (physicalLines bytes).countP (decode? · = none) ∧
      ∀ later ∈ calls.drop 5, later.MeetsEnd := by
  intro bytes calls
  have hfailures : calls.map (·.failure?) = [none, none, some (.access .invalidText),
      some (.malformed 2 "y" .int), some (.endOfStream 2), some (.endOfStream 2)] := by
    decide +kernel
  have hlen : 4 < calls.length := by
    rw [← List.length_map (·.failure?), hfailures]
    decide
  have hend : calls[4].MeetsEnd := by
    have hfifth := congrArg (·[4]?) hfailures
    rw [List.getElem?_map, List.getElem?_eq_getElem hlen] at hfifth
    exact ⟨2, Option.some.inj hfifth⟩
  have hsplit : calls = calls.take 4 ++ calls[4] :: calls.drop 5 := by
    rw [List.getElem_cons_drop, List.take_append_drop]
  have h := (trace_conserves_fileTokens bytes _).2.2.2 _ _ _ hsplit hend
  rw [List.take_append_getElem] at h
  exact ⟨hfailures, h⟩

end Source

end ModuleSource
