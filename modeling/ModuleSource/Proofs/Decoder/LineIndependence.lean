import ModuleSource.Format
import ModuleSource.Proofs.Decoder.Tokens

/-!
Lines do not matter. Two texts with the same words in the same order are decoded alike, wherever
their lines break and whatever blanks they have: the results differ at most in the line numbers
that a failure carries, and the same words are left.
-/

namespace ModuleSource

open Text

/-- The failure without the number of the line it was met on. -/
def ReadFailure.unplaced : ReadFailure → ReadFailure
  | endOfStream _ => endOfStream 0
  | malformed _ token expected => malformed 0 token expected
  | access cause => access cause

def DecodeFailure.unplaced : DecodeFailure → DecodeFailure
  | read cause => read cause.unplaced
  | malformedStatement record cause => malformedStatement record cause.unplaced
  | cancelled => cancelled

theorem Site.unplaced_error (site : Site) (cause : ReadFailure) :
    (site.error cause).unplaced = site.error cause.unplaced := by
  cases site <;> rfl

theorem Site.eq_of_error_eq {site site' : Site} {cause cause' : ReadFailure}
    (h : site.error cause = site'.error cause') : site = site' ∧ cause = cause' := by
  cases site <;> cases site' <;> cases h <;> exact ⟨rfl, rfl⟩

theorem Site.error_inj {site site' : Site} {cause cause' : ReadFailure}
    (h : site.error cause = site'.error cause') : cause = cause' :=
  (eq_of_error_eq h).2

namespace Source

/-- Two positions in files whose remaining lines decode, with the same tokens to come. -/
structure Alike (s t : Source) : Prop where
  left : s.Clean
  right : t.Clean
  tokens_eq : s.tokens = t.tokens

/-- Texts that have the same words after the marks they may start with. -/
theorem alike_ofBytes_toUTF8 {a b : String}
    (h : Text.words (dropMark a.toList) = Text.words (dropMark b.toList)) :
    Alike (ofBytes a.toUTF8) (ofBytes b.toUTF8) := by
  refine ⟨clean_ofBytes_toUTF8 a, clean_ofBytes_toUTF8 b, ?_⟩
  rw [tokens_ofBytes_toUTF8, tokens_ofBytes_toUTF8, h]

/-- The same result up to what `erase` takes away from a failure, and the same tokens left. -/
structure Agree {ε α : Type} (erase : ε → ε) (x y : Except ε α × Source) : Prop where
  result : x.1.mapError erase = y.1.mapError erase
  rest : Alike x.2 y.2

end Source

open Source

/-- All results that match one verdict are the same up to line numbers. -/
theorem Verdict.agree_of_matches {α : Type} {verdict : Verdict α} {x y : Except DecodeFailure α}
    (hx : verdict.Matches x) (hy : verdict.Matches y) :
    x.mapError DecodeFailure.unplaced = y.mapError DecodeFailure.unplaced := by
  cases verdict with
  | value a =>
    obtain rfl : x = .ok a := hx
    obtain rfl : y = .ok a := hy
    rfl
  | stopped =>
    obtain rfl : x = .error .cancelled := hx
    obtain rfl : y = .error .cancelled := hy
    rfl
  | malformed site token expected =>
    obtain ⟨m, rfl⟩ := hx
    obtain ⟨n, rfl⟩ := hy
    simp only [Except.mapError, Site.unplaced_error, ReadFailure.unplaced]
  | ended site =>
    obtain ⟨m, rfl⟩ := hx
    obtain ⟨n, rfl⟩ := hy
    simp only [Except.mapError, Site.unplaced_error, ReadFailure.unplaced]

namespace Decoder

variable {α : Type} {s t : Source}

/-- A decoder makes the same of two sources with the same tokens, if a stop is asked for all the
time or not at all. -/
theorem run_agree {signal : StopSignal} {stop : Bool}
    (hsignal : ∀ looks lines, signal looks lines = stop) (d : Decoder α) (looks looks' : Nat)
    (h : Alike s t) :
    Agree DecodeFailure.unplaced (d.run signal looks s) (d.run signal looks' t) := by
  obtain ⟨hmatches, htokens, hclean⟩ := run_matches_judge hsignal d looks h.left
  obtain ⟨hmatches', htokens', hclean'⟩ := run_matches_judge hsignal d looks' h.right
  rw [h.tokens_eq] at hmatches htokens
  exact ⟨Verdict.agree_of_matches hmatches hmatches', hclean, hclean', htokens.trans htokens'.symm⟩

/-- The same of a scan, which follows the run that no look stops. -/
theorem scan_agree (d : Decoder α) (h : Alike s t) :
    Agree ReadFailure.unplaced (d.scan s) (d.scan t) := by
  obtain ⟨hresult, hrest⟩ := run_agree StopSignal.never_eq_false d 0 0 h
  rcases scan_of_run d 0 s with ⟨a, s', hrun, hscan⟩ | ⟨site, cause, s', hrun, hscan⟩ <;>
    rcases scan_of_run d 0 t with ⟨b, t', hrun', hscan'⟩ | ⟨site', cause', t', hrun', hscan'⟩ <;>
    rw [hrun, hrun'] at hresult hrest <;> rw [hscan, hscan']
  · obtain rfl : a = b := Except.ok.inj hresult
    exact ⟨rfl, hrest⟩
  · cases hresult
  · cases hresult
  · have herror := Except.error.inj hresult
    rw [Site.unplaced_error, Site.unplaced_error] at herror
    exact ⟨congrArg Except.error (Site.error_inj herror), hrest⟩

end Decoder

/-- A module depends on the records only, so it agrees where they do. -/
theorem Format.generate_agree (format : Format) (context : Context) {signal : StopSignal}
    {stop : Bool} (hsignal : ∀ looks lines, signal looks lines = stop) (looks looks' : Nat)
    {s t : Source} (h : Alike s t) : Agree DecodeFailure.unplaced
      (format.generate context signal looks s) (format.generate context signal looks' t) := by
  have hrun := Decoder.run_agree hsignal (format.decoder context.operators) looks looks' h
  unfold generate
  generalize (format.decoder context.operators).run signal looks s = found at hrun ⊢
  generalize (format.decoder context.operators).run signal looks' t = found' at hrun ⊢
  obtain ⟨e | records, s'⟩ := found <;> obtain ⟨e' | records', t'⟩ := found' <;>
    obtain ⟨hresult, hrest⟩ := hrun
  · exact ⟨congrArg Except.error (Except.error.inj hresult), hrest⟩
  · cases hresult
  · cases hresult
  · obtain rfl : records = records' := Except.ok.inj hresult
    exact ⟨rfl, hrest⟩

/-- Two texts with the same words are decoded alike by every format, and so are the blocks they
start with, whether these are decoded or passed over. -/
theorem decoding_ignores_lines {a b : String}
    (h : Text.words (dropMark a.toList) = Text.words (dropMark b.toList)) (context : Context)
    {signal : StopSignal} {stop : Bool} (hsignal : ∀ looks lines, signal looks lines = stop)
    (looks looks' : Nat) :
    let s := Source.ofBytes a.toUTF8
    let t := Source.ofBytes b.toUTF8
    (∀ format : Format, Agree DecodeFailure.unplaced
        (format.generate context signal looks s) (format.generate context signal looks' t)) ∧
      Agree DecodeFailure.unplaced ((Block.decoder context.operators).run signal looks s)
        ((Block.decoder context.operators).run signal looks' t) ∧
      Agree ReadFailure.unplaced (Block.pass.scan s) (Block.pass.scan t) := by
  intro s t
  have halike : Alike s t := alike_ofBytes_toUTF8 h
  refine ⟨fun format => ?_, ?_, ?_⟩
  · exact format.generate_agree context hsignal looks looks' halike
  · exact Decoder.run_agree hsignal (Block.decoder context.operators) looks looks' halike
  · exact Decoder.scan_agree Block.pass halike

/-- A mark, carriage returns and an empty line against one line: the two failures differ in their
line numbers and in nothing else. -/
theorem decoding_ignores_lines_broken :
    let context : Context := ⟨⟨.vanilla, []⟩, .empty⟩
    let a := "\uFEFF1 a\r\n\r\n-1 x 2"
    let b := "1 a -1 x 2"
    let s := Source.ofBytes a.toUTF8
    let t := Source.ofBytes b.toUTF8
    Text.words (dropMark a.toList) = Text.words (dropMark b.toList) ∧
      (Format.scripts.generate context .never 0 s).1 = .error (.read (.malformed 3 "x" .int)) ∧
      (Format.scripts.generate context .never 0 t).1 = .error (.read (.malformed 1 "x" .int)) ∧
      Agree DecodeFailure.unplaced (Format.scripts.generate context .never 0 s)
        (Format.scripts.generate context .never 0 t) := by
  intro context a b s t
  have h : Text.words (dropMark a.toList) = Text.words (dropMark b.toList) := by decide +kernel
  refine ⟨h, by decide +kernel, by decide +kernel, ?_⟩
  exact (decoding_ignores_lines h context StopSignal.never_eq_false 0 0).1 .scripts

end ModuleSource
