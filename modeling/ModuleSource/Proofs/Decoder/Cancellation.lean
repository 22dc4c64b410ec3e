import ModuleSource.Format
import ModuleSource.Proofs.Decoder.SelfDelimiting

/-!
Stops are all or nothing. A decoder looks for a stop at certain moments of its run and nowhere else.
Whenever a stop is asked for, either one of these looks sees it and the whole run is given up, or
none does and the run ends as if nobody had asked. Since the looks themselves do not depend on the
stop, asking earlier never brings back a result.
-/

namespace ModuleSource

namespace StopSignal

/-- The signal asks for a stop no later than another: it stops every look that the other stops. -/
def NoLater (signal other : StopSignal) : Prop :=
  ∀ looks lines, other looks lines = true → signal looks lines = true

theorem noLater_atLine {m n : Nat} (h : m ≤ n) : (atLine m).NoLater (atLine n) := by
  intro looks lines hn
  have hlines : n ≤ lines := of_decide_eq_true hn
  exact decide_eq_true (h.trans hlines)

end StopSignal

namespace Decoder

variable {α : Type} {signal : StopSignal}

/-- The moments at which a run that nobody stops looks for a stop: the number of the look, and the
lines fetched by then. -/
def lookMoments : Decoder α → (looks : Nat) → Source → List (Nat × Nat)
  | done _, _, _ => []
  | look next, looks, s => (looks, s.fetched) :: next.lookMoments (looks + 1) s
  | read _ kind next, looks, s =>
    match s.read kind with
    | (.ok value, s) => (next value).lookMoments looks s
    | (.error _, _) => []

/-- One of these looks sees the stop. -/
def Sees (signal : StopSignal) (d : Decoder α) (looks : Nat) (s : Source) : Prop :=
  ∃ moment ∈ d.lookMoments looks s, signal moment.1 moment.2 = true

theorem Sees.noLater {d : Decoder α} {looks : Nat} {s : Source} (h : d.Sees signal looks s)
    {earlier : StopSignal} (hearlier : earlier.NoLater signal) : d.Sees earlier looks s := by
  obtain ⟨moment, hmem, hseen⟩ := h
  exact ⟨moment, hmem, hearlier moment.1 moment.2 hseen⟩

/-- A stop that no look sees makes no difference. -/
theorem run_of_not_sees (d : Decoder α) (looks : Nat) (s : Source)
    (h : ¬ d.Sees signal looks s) : d.run signal looks s = d.run .never looks s := by
  induction d generalizing looks s with
  | done a => rfl
  | look next ih =>
    have hhere : ¬ signal looks s.fetched = true :=
      fun hseen => h ⟨(looks, s.fetched), List.mem_cons_self, hseen⟩
    have hnext : ¬ next.Sees signal (looks + 1) s :=
      fun ⟨moment, hmem, hseen⟩ => h ⟨moment, List.mem_cons_of_mem _ hmem, hseen⟩
    unfold run
    rw [if_neg hhere, if_neg (by simp [StopSignal.never]), ih (looks + 1) s hnext]
  | read site kind next ih =>
    unfold Sees lookMoments at h
    unfold run
    rcases hread : s.read kind with ⟨e | value, s'⟩
    · rfl
    · rw [hread] at h
      exact ih value looks s' h

/-- A stop that a look sees is the end of the run. -/
theorem run_of_sees (d : Decoder α) (looks : Nat) (s : Source) (h : d.Sees signal looks s) :
    (d.run signal looks s).1 = .error .cancelled := by
  induction d generalizing looks s with
  | done a =>
    obtain ⟨moment, hmem, -⟩ := h
    cases hmem
  | look next ih =>
    unfold run
    by_cases hhere : signal looks s.fetched = true
    · rw [if_pos hhere]
    · -- This look sees nothing, so it is a later one that does.
      rw [if_neg hhere]
      obtain ⟨moment, hmem, hseen⟩ := h
      rcases List.mem_cons.mp hmem with rfl | hmem
      · exact absurd hseen hhere
      · exact ih (looks + 1) s ⟨moment, hmem, hseen⟩
  | read site kind next ih =>
    unfold Sees lookMoments at h
    unfold run
    rcases hread : s.read kind with ⟨e | value, s'⟩
    · rw [hread] at h
      obtain ⟨moment, hmem, -⟩ := h
      cases hmem
    · rw [hread] at h
      exact ih value looks s' h

theorem run_never_ne_cancelled (d : Decoder α) (looks : Nat) (s : Source) :
    (d.run .never looks s).1 ≠ .error .cancelled := by
  rcases scan_of_run d looks s with ⟨a, s', hrun, -⟩ | ⟨site, cause, s', hrun, -⟩
  · rw [hrun]
    exact fun h => nomatch h
  · rw [hrun]
    cases site with
    | field => exact fun h => nomatch h
    | record index => exact fun h => nomatch h

/-- A run is given up exactly if one of its looks sees the stop. -/
theorem run_cancelled_iff (d : Decoder α) (looks : Nat) (s : Source) :
    (d.run signal looks s).1 = .error .cancelled ↔ d.Sees signal looks s := by
  refine ⟨?_, run_of_sees d looks s⟩
  intro hcancelled
  by_contra hunseen
  rw [run_of_not_sees d looks s hunseen] at hcancelled
  exact run_never_ne_cancelled d looks s hcancelled

section Blind

variable {β : Type} {d : Decoder α}

/-- The decoder does not look for a stop. -/
def Blind : Decoder α → Prop
  | done _ => True
  | look _ => False
  | read _ _ next => ∀ value, (next value).Blind

theorem blind_token (kind : TokenForm) : (token kind).Blind := fun _ => trivial

theorem Blind.bind {f : α → Decoder β} (h : d.Blind) (hf : ∀ a, (f a).Blind) :
    (d >>= f).Blind := by
  change (d.bind f).Blind
  induction d with
  | done a => exact hf a
  | look next ih => exact h.elim
  | read site kind next ih => exact fun value => ih value (h value)

theorem Blind.map (h : d.Blind) (f : α → β) : (f <$> d).Blind :=
  h.bind fun _ => trivial

theorem Blind.inRecord (h : d.Blind) (index : Nat) : (d.inRecord index).Blind := by
  induction d with
  | done a => trivial
  | look next ih => exact h.elim
  | read site kind next ih => exact fun value => ih value (h value)

theorem blind_collect {f : Nat → Decoder α} (hf : ∀ i, (f i).Blind) (n : Nat) :
    (collect f n).Blind := by
  have loop (n i : Nat) (found : List α) : (collectFrom f i n found).Blind := by
    induction n generalizing i found with
    | zero => trivial
    | succ n ih => exact (hf i).bind fun a => ih (i + 1) (a :: found)
  exact loop n 0 []

theorem Blind.lookMoments_eq (h : d.Blind) (looks : Nat) (s : Source) :
    d.lookMoments looks s = [] := by
  induction d generalizing s with
  | done a => rfl
  | look next ih => exact h.elim
  | read site kind next ih =>
    unfold lookMoments
    rcases s.read kind with ⟨e | value, s'⟩
    · rfl
    · exact ih value (h value) s'

/-- A decoder that looks only at its start is stopped there, or not at all. -/
theorem Blind.run_look (h : d.Blind) (signal : StopSignal) (looks : Nat) (s : Source) :
    (look d).run signal looks s = if signal looks s.fetched then (.error .cancelled, s)
      else (look d).run .never looks s := by
  by_cases hstop : signal looks s.fetched = true
  · rw [if_pos hstop, run, if_pos hstop]
  · rw [if_neg hstop]
    refine run_of_not_sees _ looks s ?_
    rintro ⟨moment, hmem, hseen⟩
    rw [lookMoments, h.lookMoments_eq, List.mem_singleton] at hmem
    rw [hmem] at hseen
    exact hstop hseen

end Blind

end Decoder

namespace Format

variable {format : Format} {context : Context} {signal : StopSignal} {looks : Nat} {s : Source}

/-- Rendering neither asks for a stop nor hides one. -/
theorem generate_cancelled_iff : (format.generate context signal looks s).1 = .error .cancelled ↔
    (format.decoder context.operators).Sees signal looks s := by
  rw [← Decoder.run_cancelled_iff]
  refine ⟨?_, generate_eq_error⟩
  unfold generate
  rcases (format.decoder context.operators).run signal looks s with ⟨e | records, t⟩
  · intro h
    exact congrArg Except.error (Except.error.inj h)
  · intro h
    cases h

theorem generate_of_not_sees (h : ¬ (format.decoder context.operators).Sees signal looks s) :
    format.generate context signal looks s = format.generate context .never looks s := by
  rw [generate, generate, Decoder.run_of_not_sees _ looks s h]

/-- Whenever a stop is asked for, a format gives the module or failure that it gives without the
stop, or nothing but the word that it was stopped. It was stopped exactly if one of the looks of the
run without a stop sees the signal, so whoever asks earlier stops it too. -/
theorem generate_stops_whole_or_not (format : Format) (context : Context) (signal : StopSignal)
    (looks : Nat) (s : Source) :
    ((format.generate context signal looks s).1 = .error .cancelled ∨
        format.generate context signal looks s = format.generate context .never looks s) ∧
      ((format.generate context signal looks s).1 = .error .cancelled ↔
        (format.decoder context.operators).Sees signal looks s) ∧
      ∀ earlier : StopSignal, earlier.NoLater signal →
        (format.generate context signal looks s).1 = .error .cancelled →
        (format.generate context earlier looks s).1 = .error .cancelled := by
  refine ⟨?_, generate_cancelled_iff, ?_⟩
  · by_cases hseen : (format.decoder context.operators).Sees signal looks s
    · exact Or.inl (generate_cancelled_iff.mpr hseen)
    · exact Or.inr (generate_of_not_sees hseen)
  · intro earlier hearlier hcancelled
    exact generate_cancelled_iff.mpr ((generate_cancelled_iff.mp hcancelled).noLater hearlier)

/-- Two scripts on four lines. The last look comes when the third line has been fetched: a stop
asked for then, and so one asked for earlier, ends the run, and a stop asked for on the fourth line
comes too late. -/
theorem generate_stops_whole_or_not_atLine :
    let context : Context := ⟨⟨.vanilla, []⟩, .empty⟩
    let s := Source.ofBytes "2\na -1 0\nb -1\n0".toUTF8
    (scripts.generate context (.atLine 3) 0 s).1 = .error .cancelled ∧
      (scripts.generate context (.atLine 2) 0 s).1 = .error .cancelled ∧
      (scripts.generate context (.atLine 4) 0 s).1 ≠ .error .cancelled ∧
      scripts.generate context (.atLine 4) 0 s = scripts.generate context .never 0 s := by
  intro context s
  have hthird : (scripts.generate context (.atLine 3) 0 s).1 = .error .cancelled := by
    decide +kernel
  have hfourth : (scripts.generate context (.atLine 4) 0 s).1 ≠ .error .cancelled := by
    decide +kernel
  refine ⟨hthird, ?_, hfourth, ?_⟩
  · exact (generate_stops_whole_or_not scripts context (.atLine 3) 0 s).2.2 (.atLine 2)
      (StopSignal.noLater_atLine (by decide)) hthird
  · exact (generate_stops_whole_or_not scripts context (.atLine 4) 0 s).1.resolve_left hfourth

end Format

end ModuleSource
