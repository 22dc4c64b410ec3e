import ModuleSource.Decoder
import ModuleSource.Proofs.Source.Tokens

/-!
Decoders over a plain list of tokens. A decoder sees of its source only the tokens it asks for, so
as long as every line decodes, running it on the source is running it on the list of tokens: lines
come in only as the numbers inside a failure.
-/

namespace ModuleSource

open Text

/-- What decoding a list of tokens comes to. -/
inductive Verdict (α : Type) where
  | value (a : α)
  | stopped
  | malformed (site : Site) (token : List Char) (expected : TokenForm)
  | ended (site : Site)

/-- The result of a run, up to the line numbers in it. -/
def Verdict.Matches {α : Type} : Verdict α → Except DecodeFailure α → Prop
  | value a, result => result = .ok a
  | stopped, result => result = .error .cancelled
  | malformed site token expected, result =>
    ∃ line, result = .error (site.error (.malformed line (String.ofList token) expected))
  | ended site, result => ∃ line, result = .error (site.error (.endOfStream line))

theorem StopSignal.never_eq_false (looks lines : Nat) : never looks lines = false := rfl

namespace Decoder

variable {α : Type}

/-- Decodes from a list of tokens, a stop being asked for all the time or not at all. -/
def judge (stop : Bool) : Decoder α → List (List Char) → Verdict α × List (List Char)
  | done a, tokens => (.value a, tokens)
  | look next, tokens => if stop then (.stopped, tokens) else next.judge stop tokens
  | read site _ _, [] => (.ended site, [])
  | read site kind next, token :: tokens =>
    match kind.parse? token with
    | some v => (next v).judge stop tokens
    | none => (.malformed site token kind, tokens)

section Equations

variable {stop : Bool} {site : Site} {kind : TokenForm} {next : kind.Value → Decoder α}
  {token : List Char} {tokens : List (List Char)}

theorem judge_read_some {v : kind.Value} (h : kind.parse? token = some v) :
    (read site kind next).judge stop (token :: tokens) = (next v).judge stop tokens := by
  simp only [judge, h]

theorem judge_read_none (h : kind.parse? token = none) :
    (read site kind next).judge stop (token :: tokens) = (.malformed site token kind, tokens) := by
  simp only [judge, h]

end Equations

/-- A run on a source whose lines all decode is a run on its tokens. -/
theorem run_matches_judge {signal : StopSignal} {stop : Bool} (hsignal : ∀ i n, signal i n = stop)
    (d : Decoder α) (looks : Nat) {s : Source} (hs : s.Clean) :
    (d.judge stop s.tokens).1.Matches (d.run signal looks s).1 ∧
      (d.run signal looks s).2.tokens = (d.judge stop s.tokens).2 ∧
      (d.run signal looks s).2.Clean := by
  induction d generalizing looks s with
  | done a => exact ⟨rfl, rfl, hs⟩
  | look next ih =>
    unfold run judge
    rw [hsignal]
    cases stop with
    | true => exact ⟨rfl, rfl, hs⟩
    | false => exact ih (looks + 1) hs
  | read site kind next ih =>
    have step := Source.readStep_read kind s
    unfold run
    generalize s.read kind = found at step ⊢
    obtain ⟨result, s'⟩ := found
    dsimp only at step
    cases step with
    | value took isWord parsed step =>
      obtain ⟨passed, hadvance, -⟩ := step.advance
      rw [step.tokens_eq, List.singleton_append, judge_read_some parsed]
      exact ih _ looks (hadvance.clean hs).1
    | malformed took isWord rejected step =>
      obtain ⟨passed, hadvance, -⟩ := step.advance
      rw [step.tokens_eq, List.singleton_append, judge_read_none rejected]
      exact ⟨⟨_, rfl⟩, rfl, (hadvance.clean hs).1⟩
    | undecodable took step =>
      obtain ⟨passed, hadvance, hcount⟩ := step.advance
      exact absurd (List.count_pos_iff.mp (by rw [hcount]; decide)) (hadvance.clean hs).2
    | ended took step =>
      obtain ⟨passed, hadvance, -⟩ := step.advance
      have hended := (step.ended _ rfl).2.tokens_eq
      rw [step.tokens_eq, hended]
      exact ⟨⟨_, rfl⟩, rfl, (hadvance.clean hs).1⟩

theorem judge_of_run {d : Decoder α} {looks : Nat} {s s' : Source} {a : α} (hs : s.Clean)
    (h : d.run .never looks s = (.ok a, s')) : d.judge false s.tokens = (.value a, s'.tokens) := by
  obtain ⟨hmatches, htokens, -⟩ := run_matches_judge StopSignal.never_eq_false d looks hs
  rw [h] at hmatches htokens
  rcases hjudge : d.judge false s.tokens with ⟨verdict, rest⟩
  rw [hjudge] at hmatches htokens
  cases verdict with
  | value b => rw [Except.ok.inj hmatches, htokens]
  | stopped => cases hmatches
  | malformed site token expected => cases hmatches.choose_spec
  | ended site => cases hmatches.choose_spec

theorem run_of_judge {d : Decoder α} {s : Source} {a : α} {rest : List (List Char)} (hs : s.Clean)
    (h : d.judge false s.tokens = (.value a, rest)) (looks : Nat) :
    ∃ s', d.run .never looks s = (.ok a, s') ∧ s'.tokens = rest ∧ s'.Clean := by
  obtain ⟨hmatches, htokens, hclean⟩ := run_matches_judge StopSignal.never_eq_false d looks hs
  rw [h] at hmatches htokens
  exact ⟨_, Prod.ext hmatches rfl, htokens, hclean⟩

theorem run_of_judge_ended {d : Decoder α} {s : Source} {site : Site} {rest : List (List Char)}
    (hs : s.Clean) (h : d.judge false s.tokens = (.ended site, rest)) (looks : Nat) :
    ∃ line, (d.run .never looks s).1 = .error (site.error (.endOfStream line)) := by
  have hmatches := (run_matches_judge StopSignal.never_eq_false d looks hs).1
  rwa [h] at hmatches

/-- A run that no look stops goes the way of a scan: it adds only the site to a failure. -/
theorem scan_of_run (d : Decoder α) (looks : Nat) (s : Source) :
    (∃ a s', d.run .never looks s = (.ok a, s') ∧ d.scan s = (.ok a, s')) ∨
      ∃ site cause s', d.run .never looks s = (.error (Site.error site cause), s') ∧
        d.scan s = (.error cause, s') := by
  induction d generalizing looks s with
  | done a => exact Or.inl ⟨a, s, rfl, rfl⟩
  | look next ih => exact ih (looks + 1) s
  | read site kind next ih =>
    unfold run scan
    rcases s.read kind with ⟨cause | value, s'⟩
    · exact Or.inr ⟨site, cause, s', rfl, rfl⟩
    · exact ih value looks s'

theorem run_of_scan {d : Decoder α} {s s' : Source} {a : α} (h : d.scan s = (.ok a, s'))
    (looks : Nat) : d.run .never looks s = (.ok a, s') := by
  obtain ⟨b, t, hrun, hscan⟩ | ⟨site, cause, t, -, hscan⟩ := scan_of_run d looks s
  · obtain ⟨hb, rfl⟩ := Prod.mk.inj (hscan.symm.trans h)
    obtain rfl := Except.ok.inj hb
    exact hrun
  · cases hscan.symm.trans h

/-- Decoding goes forward. -/
theorem judge_suffix (stop : Bool) (d : Decoder α) (tokens : List (List Char)) :
    (d.judge stop tokens).2 <:+ tokens := by
  induction d generalizing tokens with
  | done a => exact List.suffix_refl tokens
  | look next ih =>
    unfold judge
    split
    · exact List.suffix_refl tokens
    · exact ih tokens
  | read site kind next ih =>
    cases tokens with
    | nil => exact List.suffix_refl []
    | cons token tokens =>
      cases hp : kind.parse? token with
      | some v =>
        rw [judge_read_some hp]
        exact (ih v tokens).trans (List.suffix_cons token tokens)
      | none =>
        rw [judge_read_none hp]
        exact List.suffix_cons token tokens

end Decoder

end ModuleSource
