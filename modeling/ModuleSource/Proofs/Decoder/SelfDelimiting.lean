import ModuleSource.Format
import ModuleSource.Proofs.Decoder.Grammar

/-!
Every decoder reads a prefix code: what it has consumed when it succeeds decides alone that it
succeeds there, and nothing shorter does. A file cut anywhere before that place is found to end too
early, and what follows the place is neither read nor missed. No decoder needs a proof of its own,
so the seven formats are one statement.
-/

namespace ModuleSource

open Text

namespace Decoder

variable {α : Type} {stop : Bool}

/-- The tokens consumed decide the value, and those after them are left as they are. -/
theorem judge_append {d : Decoder α} {consumed further : List (List Char)} {a : α}
    (h : d.judge stop (consumed ++ further) = (.value a, further)) (more : List (List Char)) :
    d.judge stop (consumed ++ more) = (.value a, more) := by
  induction d generalizing consumed with
  | done b =>
    obtain ⟨hvalue, htokens⟩ := Prod.mk.inj h
    obtain rfl : consumed = [] := List.append_left_eq_self.mp htokens
    rw [List.nil_append, judge, hvalue]
  | look next ih =>
    unfold judge at h ⊢
    split at h
    · cases h
    · next hstop =>
      rw [if_neg hstop]
      exact ih h
  | read site kind next ih =>
    cases consumed with
    | nil =>
      -- A read takes a token away, and nothing puts it back.
      cases further with
      | nil => cases h
      | cons token further =>
        exfalso
        rw [List.nil_append] at h
        cases hp : kind.parse? token with
        | some v =>
          rw [judge_read_some hp] at h
          have hle := (judge_suffix stop (next v) further).length_le
          rw [h, List.length_cons] at hle
          omega
        | none =>
          rw [judge_read_none hp] at h
          cases h
    | cons token consumed =>
      rw [List.cons_append] at h ⊢
      cases hp : kind.parse? token with
      | some v =>
        rw [judge_read_some hp] at h ⊢
        exact ih v h
      | none =>
        rw [judge_read_none hp] at h
        cases h

/-- A list cut before the end of the tokens consumed ends too early. -/
theorem judge_truncated {d : Decoder α} {consumed further cut : List (List Char)} {a : α}
    (h : d.judge stop (consumed ++ further) = (.value a, further)) (hcut : cut <+: consumed)
    (hne : cut ≠ consumed) : ∃ site, d.judge stop cut = (.ended site, []) := by
  induction d generalizing consumed cut with
  | done b =>
    have htokens := (Prod.mk.inj h).2
    obtain rfl : consumed = [] := List.append_left_eq_self.mp htokens
    exact absurd (List.prefix_nil.mp hcut) hne
  | look next ih =>
    unfold judge at h ⊢
    split at h
    · cases h
    · next hstop =>
      rw [if_neg hstop]
      exact ih h hcut hne
  | read site kind next ih =>
    cases cut with
    | nil => exact ⟨site, rfl⟩
    | cons token cut =>
      obtain ⟨rest, rfl⟩ := hcut
      rw [List.cons_append, List.cons_append] at h
      cases hp : kind.parse? token with
      | some v =>
        rw [judge_read_some hp] at h ⊢
        refine ih v h (List.prefix_append cut rest) ?_
        intro hcut
        exact hne (congrArg (token :: ·) hcut)
      | none =>
        rw [judge_read_none hp] at h
        cases h

end Decoder

namespace Source

/-- The next word of a source whose lines all decode is its first token, and there is none only at
the end. -/
theorem read_word {s : Source} (hs : s.Clean) :
    (∀ w ws, s.tokens = w :: ws → (s.read .word).1 = .ok (String.ofList w)) ∧
      (s.tokens = [] → ∃ line, (s.read .word).1 = .error (.endOfStream line)) := by
  have step := readStep_read .word s
  generalize s.read .word = found at step ⊢
  obtain ⟨result, s'⟩ := found
  dsimp only at step
  cases step with
  | value took isWord parsed step =>
    rw [step.tokens_eq, List.singleton_append]
    refine ⟨?_, fun h => nomatch h⟩
    intro w ws h
    rw [← (List.cons.inj h).1]
    exact congrArg Except.ok (Option.some.inj parsed).symm
  | malformed took isWord rejected step => cases rejected
  | undecodable took step =>
    obtain ⟨passed, hadvance, hcount⟩ := step.advance
    exact absurd (List.count_pos_iff.mp (by rw [hcount]; decide)) (hadvance.clean hs).2
  | ended took step =>
    rw [step.tokens_eq, (step.ended _ rfl).2.tokens_eq]
    refine ⟨?_, fun _ => ⟨_, rfl⟩⟩
    intro w ws h
    cases h

end Source

namespace Format

variable {format : Format} {context : Context}

theorem generate_eq_ok {signal : StopSignal} {looks : Nat} {s s' : Source} {text : String} :
    format.generate context signal looks s = (.ok text, s') ↔
      ∃ records, (format.decoder context.operators).run signal looks s = (.ok records, s') ∧
        format.render context.lexicon records = text := by
  unfold generate
  rcases (format.decoder context.operators).run signal looks s with ⟨_ | records, t⟩
  · simp
  · simp [and_comm]

theorem generate_eq_error {signal : StopSignal} {looks : Nat} {s : Source} {e : DecodeFailure}
    (h : ((format.decoder context.operators).run signal looks s).1 = .error e) :
    (format.generate context signal looks s).1 = .error e := by
  unfold generate
  rcases hrun : (format.decoder context.operators).run signal looks s with ⟨result, t⟩
  rw [hrun] at h
  obtain rfl : result = .error e := h
  rfl

/-- What stands before the list in a generated module. -/
def opening (format : Format) : String :=
  Layout.heading ++
    String.join (format.headers.map fun header => "from " ++ header ++ " import *\n") ++ "\n" ++
    format.name ++ " = "

theorem render_eq_opening (lexicon : Lexicon) (format : Format) (records : List format.Record) :
    format.render lexicon records = (format.opening ++ "[\n") ++
      String.join (records.map (format.renderRecord lexicon)) ++ "]\n" := by
  have hbracket : " = " ++ "[\n" = " = [\n" := by decide
  simp only [render, Layout.frame, opening, ← hbracket, String.append_assoc]

/-- A file that holds the number of some records and their tokens gives the module of these records,
and what comes after them is left. -/
theorem generate_of_counted (format : Format) (context : Context)
    {R : List (List Char) → format.Record → Prop}
    (hR : ∀ ws record, R ws record →
      (format.recordDecoder context.operators).Consumes ws record)
    {ws rest : List (List Char)} {records : List format.Record}
    (h : Decoder.Counted (fun _ => R) ws records) {s : Source} (hs : s.Clean)
    (htokens : s.tokens = ws ++ rest) (looks : Nat) :
    ∃ s', (format.decoder context.operators).run .never looks s = (.ok records, s') ∧
      format.generate context .never looks s =
        (.ok (format.render context.lexicon records), s') ∧ s'.tokens = rest := by
  have hjudge := h.consumes_listOf (fun ws record hrecord => (hR ws record hrecord).look) rest
  rw [← htokens] at hjudge
  obtain ⟨s', hrun, hrest, -⟩ := Decoder.run_of_judge hs hjudge looks
  exact ⟨s', hrun, generate_eq_ok.mpr ⟨records, hrun, rfl⟩, hrest⟩

/-- The tokens after which a format has its module: followed by any others they give the same module
and leave the others unread, and every proper prefix of them ends too early. The sources may stand
anywhere in files whose remaining lines decode. -/
structure Delimits (format : Format) (context : Context) (consumed : List (List Char))
    (text : String) : Prop where
  extended : ∀ (t : Source) (looks : Nat) (further : List (List Char)), t.Clean →
    t.tokens = consumed ++ further →
    ∃ t', format.generate context .never looks t = (.ok text, t') ∧ t'.tokens = further ∧
      (∀ w ws, further = w :: ws → (t'.read .word).1 = .ok (String.ofList w)) ∧
      (further = [] → ∃ line, (t'.read .word).1 = .error (.endOfStream line))
  truncated : ∀ (t : Source) (looks : Nat), t.Clean → t.tokens <+: consumed →
    t.tokens ≠ consumed →
    ∃ line, (format.generate context .never looks t).1 = .error (.read (.endOfStream line)) ∨
      ∃ record, (format.generate context .never looks t).1 =
        .error (.malformedStatement record (.endOfStream line))

/-- Truncation is always detected and trailing tokens never matter: what a run consumes is all that
its module depends on. -/
theorem generate_selfDelimiting {looks : Nat} {s s' : Source} {text : String} (hs : s.Clean)
    (h : format.generate context .never looks s = (.ok text, s')) :
    ∃ consumed, s.tokens = consumed ++ s'.tokens ∧ format.Delimits context consumed text := by
  obtain ⟨records, hrun, htext⟩ := generate_eq_ok.mp h
  have hjudge := Decoder.judge_of_run hs hrun
  obtain ⟨consumed, hconsumed⟩ : s'.tokens <:+ s.tokens := by
    have hsuffix := Decoder.judge_suffix false (format.decoder context.operators) s.tokens
    rwa [hjudge] at hsuffix
  rw [← hconsumed] at hjudge
  refine ⟨consumed, hconsumed.symm, ⟨?_, ?_⟩⟩
  · intro t looks further ht htokens
    have hmore := Decoder.judge_append hjudge further
    rw [← htokens] at hmore
    obtain ⟨t', hrun', hrest, hclean⟩ := Decoder.run_of_judge ht hmore looks
    refine ⟨t', generate_eq_ok.mpr ⟨records, hrun', htext⟩, hrest, ?_⟩
    rw [← hrest]
    exact Source.read_word hclean
  · intro t looks ht hcut hne
    obtain ⟨site, hended⟩ := Decoder.judge_truncated hjudge hcut hne
    obtain ⟨line, herror⟩ := Decoder.run_of_judge_ended ht hended looks
    cases site with
    | field => exact ⟨line, Or.inl (generate_eq_error herror)⟩
    | record index => exact ⟨line, Or.inr ⟨index, generate_eq_error herror⟩⟩

/-- One script with one statement, and a token after it. -/
theorem generate_selfDelimiting_script :
    let context : Context := ⟨⟨.vanilla, []⟩, .empty⟩
    let s := Source.ofBytes "1 a -1 1 4 0 b".toUTF8
    ∃ text s', s.Clean ∧ scripts.generate context .never 0 s = (.ok text, s') ∧
      ∃ consumed, s.tokens = consumed ++ s'.tokens ∧ scripts.Delimits context consumed text := by
  intro context s
  have hs : s.Clean := Source.clean_ofBytes_toUTF8 _
  have hrun : (scripts.decoder context.operators).run .never 0 s =
      (.ok [⟨"a", "-1", [⟨4, none, []⟩]⟩],
        { pending := [], fetched := 1, line := 1, text := "1 a -1 1 4 0 b".toList,
          rest := " b".toList }) := by
    decide +kernel
  have h := generate_eq_ok.mpr ⟨_, hrun, rfl⟩
  exact ⟨_, _, hs, h, generate_selfDelimiting hs h⟩

end Format

end ModuleSource
