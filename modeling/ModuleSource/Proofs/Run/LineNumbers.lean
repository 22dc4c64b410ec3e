import ModuleSource.Proofs.Decoder.Cancellation
import ModuleSource.Proofs.Decoder.Expectation
import ModuleSource.Proofs.Decoder.LineIndependence
import ModuleSource.Proofs.Run.Atomicity
import ModuleSource.Proofs.Source.LineNumbers

/-!
The line of a failure. A decoder uses the tokens of its source one after the other until one of them
is not of the kind that it asks for. The failure names this token, and the number that it carries,
on its own and in the outcome of a file, is that of the line on which the token stands.
-/

namespace ModuleSource

open Text

/-- Of these tokens, each with its line, the decoder can use some, and the next one, which stands on
the given line, is not of the kind that it asks for then. -/
def Decoder.FailsAt {α : Type} (d : Decoder α) (tokens : List (Nat × List Char)) (site : Site)
    (kind : TokenForm) (line : Nat) (token : List Char) : Prop :=
  ∃ used rest, tokens = used ++ (line, token) :: rest ∧ d.Awaits (used.map Prod.snd) site kind ∧
    kind.parse? token = none

theorem Site.error_ne_cancelled (site : Site) (cause : ReadFailure) :
    site.error cause ≠ .cancelled := by
  cases site <;> exact nofun

theorem Site.line?_error (site : Site) (cause : ReadFailure) :
    (site.error cause).line? = cause.line? := by
  cases site <;> rfl

namespace Source

theorem Gives.placedTokens_eq {s t : Source} {ws : List (List Char)} (h : Gives s ws t) :
    ∃ used, s.placedTokens = used ++ t.placedTokens ∧ used.map Prod.snd = ws := by
  induction h with
  | nil s => exact ⟨[], rfl, rfl⟩
  | @cons s t u w ws took rest ih =>
    obtain ⟨used, hplaced, hwords⟩ := ih
    have htook := placedTokens_takeWord s
    rw [took, hplaced] at htook
    exact ⟨(t.line, w) :: used, htook, congrArg (w :: ·) hwords⟩

/-- A token that is not accepted is the next one, and stands on the line that is reported. -/
theorem placedTokens_of_malformed {s s' : Source} {kind expected : TokenForm} {line : Nat}
    {token : String} (h : s.read kind = (.error (.malformed line token expected), s')) :
    s.placedTokens = (line, token.toList) :: s'.placedTokens ∧ expected = kind ∧
      kind.parse? token.toList = none := by
  have hfailure : (s.call (.token kind)).failure? = some (.malformed line token expected) := by
    simp only [call, perform, Call.failure?, h]
  obtain ⟨hline, htaken⟩ := malformed_perform hfailure
  have hplaced := placedTokens_perform (.token kind) s
  rw [← hline, htaken, show (s.perform (.token kind)).2 = s' from congrArg Prod.snd h] at hplaced
  rcases read_eq_error h with ⟨w, -, rejected, hcause⟩ | ⟨-, ⟨hcause, -⟩ | ⟨hcause, -⟩⟩
  · obtain ⟨-, rfl, rfl⟩ := ReadFailure.malformed.inj hcause
    rw [String.toList_ofList]
    exact ⟨by rw [hplaced, String.toList_ofList]; rfl, rfl, rejected⟩
  · cases hcause
  · cases hcause

end Source

/-- A run that fails for a token fails for the first one that it cannot use. -/
theorem Decoder.failsAt_of_run {α : Type} {d : Decoder α} {signal : StopSignal} {looks : Nat}
    {s : Source} {site : Site} {line : Nat} {token : String} {expected : TokenForm}
    (h : (d.run signal looks s).1 = .error (site.error (.malformed line token expected))) :
    d.FailsAt s.placedTokens site expected line token.toList := by
  -- A look that sees a stop would end the run in another way.
  have hunseen : ¬d.Sees signal looks s := by
    intro hsees
    rw [run_of_sees d looks s hsees] at h
    exact site.error_ne_cancelled _ (Except.error.inj h).symm
  rw [run_of_not_sees d looks s hunseen] at h
  obtain ⟨ws, t, site', kind, cause, hgives, hawaits, hread, he⟩ :=
    exists_awaits_of_run (Prod.ext h rfl)
  obtain ⟨rfl, rfl⟩ := Site.eq_of_error_eq he
  obtain ⟨used, hused, rfl⟩ := hgives.placedTokens_eq
  obtain ⟨hplaced, rfl, rejected⟩ := Source.placedTokens_of_malformed hread
  rw [hplaced] at hused
  exact ⟨used, _, hused, hawaits, rejected⟩

/-- Rendering cannot fail, so a failure is that of the decoder. -/
theorem Format.run_of_generate_error {format : Format} {context : Context} {signal : StopSignal}
    {looks : Nat} {s : Source} {e : DecodeFailure}
    (h : (format.generate context signal looks s).1 = .error e) :
    ((format.decoder context.operators).run signal looks s).1 = .error e := by
  cases hrun : ((format.decoder context.operators).run signal looks s).1 with
  | error e' =>
    rw [generate_eq_error hrun] at h
    rw [Except.error.inj h]
  | ok records =>
    rw [generate_eq_ok.mpr ⟨records, Prod.ext hrun rfl, rfl⟩] at h
    cases h

section File

variable {context : Context} {signal : StopSignal} {input output : Path} {disk : Disk}
  {site : Site} {line : Nat} {token : String} {expected : TokenForm}

/-- The tokens of a file are those on its first line and those in the rest of it. -/
theorem placedTokens_of_openFile {bytes : ByteArray} {first : String} {source : Source}
    (h : openFile bytes = .ok (first, source)) :
    (Source.ofBytes bytes).placedTokens =
      (Text.words first.toList).map (1, ·) ++ source.placedTokens := by
  rw [Source.placedTokens_of_words (s := Source.ofBytes bytes) words_nil, Source.ofBytes_pending]
  rw [openFile_eq] at h
  split at h
  · next hlines =>
    obtain ⟨rfl, rfl⟩ := Prod.mk.inj (Except.ok.inj h)
    rw [hlines]
    simp [PhysicalLine.unmark, PhysicalLine.numberedWords, Source.placedTokens, words_nil]
  · next line lines hlines =>
    split at h
    · cases h
    · next chars hchars =>
      obtain ⟨rfl, rfl⟩ := Prod.mk.inj (Except.ok.inj h)
      have hline : PhysicalLine.ofBytes line = .text (dropReturns chars) := by
        rw [PhysicalLine.ofBytes, hchars]
      rw [hlines, List.map_cons, hline, String.toList_ofList,
        Source.placedTokens_of_words words_nil]
      rfl

theorem openFile_ne_malformed (bytes : ByteArray) (line : Nat) (token : String)
    (expected : TokenForm) : openFile bytes ≠ .error (.malformed line token expected) := by
  rw [openFile_eq]
  intro h
  split at h
  · cases h
  · split at h <;> cases h

/-- A file whose decoding fails for a token has a signature on its first line, and the token is
among those after it. -/
theorem failsAt_of_moduleOfBytes {bytes : ByteArray}
    (h : moduleOfBytes context signal input bytes =
      .error (.decode input (site.error (.malformed line token expected)))) :
    ∃ (format : Format) (later : List (Nat × List Char)),
      (Source.ofBytes bytes).placedTokens =
        (Text.words format.signature.toList).map (1, ·) ++ later ∧
      (format.decoder context.operators).FailsAt later site expected line token.toList := by
  unfold moduleOfBytes at h
  split at h
  · next e hopen =>
    have he : Site.field.error e = site.error (.malformed line token expected) :=
      (RunFailure.decode.inj (Except.error.inj h)).2
    rw [Site.error_inj he] at hopen
    exact absurd hopen (openFile_ne_malformed bytes _ _ _)
  · next first source hopen =>
    split at h
    · cases h
    · next format hformat =>
      have hplaced := placedTokens_of_openFile hopen
      rw [← words_trim, Format.ofSignature?_eq_some_iff.mp hformat] at hplaced
      have hfailed : (format.generate context signal 1 source).1 =
          .error (site.error (.malformed line token expected)) := by
        split at h
        · cases h
        · cases h
        · next hgenerate =>
          rw [hgenerate, (RunFailure.decode.inj (Except.error.inj h)).2]
      exact ⟨format, _, hplaced, Decoder.failsAt_of_run (Format.run_of_generate_error hfailed)⟩

theorem moduleOfBytes_of_produceModule {place : Location} {bytes : ByteArray}
    {readOnly : Bool} {mishaps : Disk.Mishaps} {cause : DecodeFailure}
    (hfind : disk.find input = .ok (place, .file bytes readOnly))
    (h : (produceModule context signal input output disk mishaps).1 =
      .error (.decode input cause)) :
    moduleOfBytes context signal input bytes = .error (.decode input cause) := by
  have hmodule : moduleAt context signal input disk = .error (.decode input cause) := by
    rw [produceModule_eq] at h
    split at h
    · next e hmodule => exact hmodule.trans (congrArg Except.error (Except.error.inj h))
    · split at h <;> cases h
  unfold moduleAt at hmodule
  rw [hfind] at hmodule
  split at hmodule
  · cases hmodule
  · exact hmodule

end File

/-- The line numbers that are reported for a text are exact. Its tokens are numbered by the line
feeds before them. However the calls of a reader are mixed, it reports these numbers; and a decoder
that then fails for a token, or the outcome of a file that does, names the line of the first token
that could not be used. -/
theorem reported_lines_exact (text : String) (readings : List Reading) :
    let start := Source.ofBytes text.toUTF8
    let log := start.lineTrace readings
    ((numberedTokens text).map Prod.snd = Text.words (dropMark text.toList) ∧
      ∀ number token, (number, token) ∈ numberedTokens text → ∃ before after,
        text.toList = before ++ token ++ after ∧ number = before.count '\n' + 1) ∧
    log.map Prod.fst = (start.trace readings).1 ∧
    NumbersExactly text log ∧
    (∀ (format : Format) context signal looks site line token expected,
      (format.generate context signal looks (start.trace readings).2).1 =
        .error (site.error (.malformed line token expected)) →
      (site.error (.malformed line token expected)).line? = some line ∧ ∃ later,
        numberedTokens text =
          (log.flatMap fun (call, number) => call.taken.map (number, ·)) ++ later ∧
        (format.decoder context.operators).FailsAt later site expected line token.toList) ∧
    ∀ context signal input output disk mishaps place readOnly site line token expected,
      disk.find input = .ok (place, .file text.toUTF8 readOnly) →
      (produceModule context signal input output disk mishaps).1 =
        .error (.decode input (site.error (.malformed line token expected))) →
      (∃ message, Outcome.ofResult (produceModule context signal input output disk mishaps).1 =
        .failed message (some line)) ∧ ∃ (format : Format) (later : List (Nat × List Char)),
        numberedTokens text = (Text.words format.signature.toList).map (1, ·) ++ later ∧
        (format.decoder context.operators).FailsAt later site expected line token.toList := by
  have hplaced := Source.placedTokens_ofBytes_toUTF8 text
  refine ⟨⟨?_, fun number token => mem_numberedTokens⟩, Source.map_fst_lineTrace readings _,
    Source.numbersExactly_lineTrace text readings, ?_, ?_⟩
  · rw [← hplaced, Source.map_snd_placedTokens, Source.tokens_ofBytes_toUTF8]
  · intro format context signal looks site line token expected h
    refine ⟨site.line?_error _, _, ?_,
      Decoder.failsAt_of_run (Format.run_of_generate_error h)⟩
    rw [← hplaced]
    exact Source.placedTokens_trace readings _
  · intro context signal input output disk mishaps place readOnly site line token expected hfind h
    refine ⟨?_, hplaced ▸ failsAt_of_moduleOfBytes (moduleOfBytes_of_produceModule hfind h)⟩
    rw [h]
    exact ⟨_, congrArg (Outcome.failed _) (site.line?_error _)⟩

/-- A mark, carriage returns and blank lines do not mislead the report on a bad token. -/
theorem reported_lines_exact_after_blanks :
    let text := "\uFEFFscriptsfile version 1\r\n\r\n2\r\n \r\na\t-1\n\n0 b\r\n-1 c 0"
    let context : Context := ⟨⟨.vanilla, []⟩, .empty⟩
    let input : Path := ⟨"scripts.txt"⟩
    let disk : Disk := ⟨[(["scripts.txt"], .file text.toUTF8)], []⟩
    (numberedTokens text).drop 3 = [(3, ['2']), (5, ['a']), (5, ['-', '1']), (7, ['0']), (7, ['b']),
        (8, ['-', '1']), (8, ['c']), (8, ['0'])] ∧
      (produceModule context .never input ⟨"out"⟩ disk).1 =
        .error (.decode input (.read (.malformed 8 "c" .int))) ∧
      (∃ message, Outcome.ofResult (produceModule context .never input ⟨"out"⟩ disk).1 =
        .failed message (some 8)) ∧
      ∃ (format : Format) (later : List (Nat × List Char)),
        numberedTokens text = (Text.words format.signature.toList).map (1, ·) ++ later ∧
        (format.decoder context.operators).FailsAt later .field .int 8 ['c'] := by
  intro text context input disk
  have hfind : disk.find input = .ok (["scripts.txt"], .file text.toUTF8) := by decide +kernel
  have hfailed : (produceModule context .never input ⟨"out"⟩ disk).1 =
      .error (.decode input (.read (.malformed 8 "c" .int))) := by
    decide +kernel
  have htokens : (numberedTokens text).drop 3 = [(3, ['2']), (5, ['a']), (5, ['-', '1']),
      (7, ['0']), (7, ['b']), (8, ['-', '1']), (8, ['c']), (8, ['0'])] := by
    decide +kernel
  obtain ⟨-, -, -, -, hfile⟩ := reported_lines_exact text []
  exact ⟨htokens, hfailed,
    hfile context .never input ⟨"out"⟩ disk {} _ false .field 8 "c" .int hfind hfailed⟩

end ModuleSource
