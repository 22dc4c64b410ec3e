import ModuleSource.Run.Basic

/-!
A run step by step: what it does before it comes to its files, and what a visit can do with each of
them. What holds of a whole run is proved by induction on `Visits`, without a look at the loop.
-/

namespace ModuleSource

variable {σ : Type}

/-- The status with which an outcome ends the visit, if it does. -/
def Settings.statusAfter (settings : Settings) : Outcome → Option Status
  | .failed .. => if settings.failFast then some .aborted else none
  | .cancelled => some .cancelled
  | _ => none

/-- Everything that a visit can do with its next file. `failed` tells whether a file failed before.
-/
inductive Visits (settings : Settings) (context : Context) (mishaps : RunMishaps)
    (watcher : Watcher σ) : List Path → (failed : Bool) → σ → Disk → Visit σ → Prop
  | finished {failed : Bool} {state : σ} {disk : Disk} :
    Visits settings context mishaps watcher [] failed state disk
      ⟨if failed then .completedWithErrors else .completed, [], state, disk⟩
  | stopped {path : Path} {rest : List Path} {failed : Bool} {state : σ} {disk : Disk}
    (stop : watcher.stopBefore state = true) :
    Visits settings context mishaps watcher (path :: rest) failed state disk
      ⟨.cancelled, [], state, disk⟩
  | ended {path : Path} {rest : List Path} {failed : Bool} {state : σ} {disk disk' : Disk}
    {result : Except RunFailure (Format × Path)} {status : Status}
    (go : watcher.stopBefore state = false)
    (produced : produceModule context (watcher.stopDuring state) path settings.output disk
      (mishaps.files path) = (result, disk'))
    (ends : settings.statusAfter (.ofResult result) = some status) :
    Visits settings context mishaps watcher (path :: rest) failed state disk
      ⟨status, [⟨path, .ofResult result⟩], watcher.notify state ⟨path, .ofResult result⟩, disk'⟩
  | onward {path : Path} {rest : List Path} {failed : Bool} {state : σ} {disk disk' : Disk}
    {result : Except RunFailure (Format × Path)} {visited : Visit σ}
    (go : watcher.stopBefore state = false)
    (produced : produceModule context (watcher.stopDuring state) path settings.output disk
      (mishaps.files path) = (result, disk'))
    (goesOn : settings.statusAfter (.ofResult result) = none)
    (tail : Visits settings context mishaps watcher rest
      (failed || (Outcome.ofResult result).isFailed)
      (watcher.notify state ⟨path, .ofResult result⟩) disk' visited) :
    Visits settings context mishaps watcher (path :: rest) failed state disk
      { visited with files := ⟨path, .ofResult result⟩ :: visited.files }

theorem visits_visit (settings : Settings) (context : Context) (mishaps : RunMishaps)
    (watcher : Watcher σ) (files : List Path) (failed : Bool) (state : σ) (disk : Disk) :
    Visits settings context mishaps watcher files failed state disk
      (visit settings context mishaps watcher files failed state disk) := by
  induction files generalizing failed state disk with
  | nil => exact .finished
  | cons path rest ih =>
    unfold visit
    by_cases stop : watcher.stopBefore state = true
    · rw [if_pos stop]
      exact .stopped stop
    · rw [if_neg stop]
      have go : watcher.stopBefore state = false := by simpa using stop
      rcases produced : produceModule context (watcher.stopDuring state) path settings.output disk
        (mishaps.files path) with ⟨result, disk'⟩
      dsimp only
      split
      · next error line failure =>
        split
        · next failFast =>
          exact .ended go produced (by simp [Settings.statusAfter, failure, failFast])
        · next failFast =>
          refine .onward go produced (by simp [Settings.statusAfter, failure, failFast]) ?_
          have hfailed : (failed || (Outcome.ofResult result).isFailed) = true := by
            simp [failure, Outcome.isFailed]
          rw [hfailed]
          exact ih true _ disk'
      · next cancelled => exact .ended go produced (by simp [Settings.statusAfter, cancelled])
      · next notFailed notCancelled =>
        have hgoesOn : settings.statusAfter (Outcome.ofResult result) = none ∧
            (Outcome.ofResult result).isFailed = false := by
          cases houtcome : Outcome.ofResult result with
          | written format output => exact ⟨rfl, rfl⟩
          | skipped signature => exact ⟨rfl, rfl⟩
          | failed error line => exact absurd houtcome (notFailed error line)
          | cancelled => exact absurd houtcome notCancelled
        refine .onward go produced hgoesOn.1 ?_
        rw [hgoesOn.2, Bool.or_false]
        exact ih failed _ disk'

/-- A run that has come to its files: the files it will visit, the disk with the output directory
made, and the disk that the visit starts on. -/
structure Settings.Start (settings : Settings) (disk : Disk) (mishaps : RunMishaps) where
  files : List Path
  made : Disk
  ready : Disk
  planned : settings.inputFiles disk = .ok files
  output : disk.makeDirectories settings.output = (.ok (), made)
  prepared : settings.prepare made mishaps.constants = (.ok (), ready)

namespace Settings

variable {settings : Settings} {disk : Disk} {mishaps : RunMishaps} {watcher : Watcher σ}
  {state : σ}

/-- What the files are read and spelt with. The names are taken up before anything is written. -/
def Start.context (start : settings.Start disk mishaps) : Context where
  operators := .ofEngine settings.engine
  lexicon := .ofDirectory start.made (settings.namesDirectory start.made)

def Start.visit (start : settings.Start disk mishaps) (watcher : Watcher σ) (state : σ) : Visit σ :=
  ModuleSource.visit settings start.context mishaps watcher start.files false state start.ready

theorem Start.visits (start : settings.Start disk mishaps) (watcher : Watcher σ) (state : σ) :
    Visits settings start.context mishaps watcher start.files false state start.ready
      (start.visit watcher state) :=
  visits_visit settings start.context mishaps watcher start.files false state start.ready

theorem Start.run_eq (start : settings.Start disk mishaps) (watcher : Watcher σ) (state : σ) :
    settings.run watcher state disk mishaps =
      ⟨.ok ⟨settings.engine, (start.visit watcher state).status, (start.visit watcher state).files⟩,
        (start.visit watcher state).state, (start.visit watcher state).disk⟩ := by
  simp only [run, start.planned, start.output, start.prepared]
  rfl

/-- Everything that a run can come to: it does not find its input, it cannot make or fill the output
directory, or it visits its files. -/
theorem run_cases (settings : Settings) (watcher : Watcher σ) (state : σ) (disk : Disk)
    (mishaps : RunMishaps) :
    (∃ e, settings.inputFiles disk = .error e ∧
        settings.run watcher state disk mishaps = ⟨.error e, state, disk⟩) ∨
      (∃ e made, disk.makeDirectories settings.output = (.error e, made) ∧
        settings.run watcher state disk mishaps =
          ⟨.error (.access settings.output e), state, made⟩) ∨
      (∃ e made ready, disk.makeDirectories settings.output = (.ok (), made) ∧
        settings.prepare made mishaps.constants = (.error e, ready) ∧
        settings.run watcher state disk mishaps = ⟨.error e, state, ready⟩) ∨
      Nonempty (settings.Start disk mishaps) := by
  unfold run
  rcases hfiles : settings.inputFiles disk with e | files
  · exact Or.inl ⟨e, rfl, rfl⟩
  rcases hmade : disk.makeDirectories settings.output with ⟨e | ⟨⟩, made⟩
  · exact Or.inr (Or.inl ⟨e, made, rfl, rfl⟩)
  rcases hready : settings.prepare made mishaps.constants with ⟨e | ⟨⟩, ready⟩
  · refine Or.inr (Or.inr (Or.inl ⟨e, made, ready, rfl, hready, ?_⟩))
    simp only [hready]
  · exact Or.inr (Or.inr (Or.inr ⟨⟨files, made, ready, hfiles, hmade, hready⟩⟩))

/-- A run that gives a report has come to its files. -/
theorem exists_start {report : Report}
    (h : (settings.run watcher state disk mishaps).report = .ok report) :
    Nonempty (settings.Start disk mishaps) := by
  rcases run_cases settings watcher state disk mishaps with ⟨e, -, hrun⟩ | ⟨e, made, -, hrun⟩ |
    ⟨e, made, ready, -, -, hrun⟩ | hstart
  · rw [hrun] at h
    cases h
  · rw [hrun] at h
    cases h
  · rw [hrun] at h
    cases h
  · exact hstart

end Settings

end ModuleSource
