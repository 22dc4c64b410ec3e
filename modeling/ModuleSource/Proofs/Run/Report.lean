import Mathlib.Tactic.Common
import ModuleSource.Proofs.Run.Visit

/-!
Reports are exact. A visit ends in one of three ways: every file was visited, a stop was seen
between two files, or the last file visited was one that ends the run. The status, the order of the
entries and the totals of a report follow from these endings alone, whatever the files hold and
whenever a stop is asked for.
-/

namespace ModuleSource

variable {σ : Type} {settings : Settings} {context : Context} {mishaps : RunMishaps}
  {watcher : Watcher σ}

namespace Settings

theorem statusAfter_eq_none_iff {outcome : Outcome} : settings.statusAfter outcome = none ↔
    outcome ≠ .cancelled ∧ (outcome.isFailed = true → settings.failFast = false) := by
  cases outcome <;> simp [statusAfter, Outcome.isFailed]

theorem statusAfter_eq_some_iff {outcome : Outcome} {status : Status} :
    settings.statusAfter outcome = some status ↔
      outcome.isFailed = true ∧ settings.failFast = true ∧ status = .aborted ∨
        outcome = .cancelled ∧ status = .cancelled := by
  cases outcome <;> simp [statusAfter, Outcome.isFailed, eq_comm (a := status)]

end Settings

/-- How a visit to a number of files ends. -/
inductive Ending (settings : Settings) (failed : Bool) (planned : Nat) (status : Status)
    (files : List FileRecord) : Prop
  | complete (goOn : ∀ file ∈ files, settings.statusAfter file.outcome = none)
    (length_eq : files.length = planned)
    (status_eq : status = if failed || files.any (·.outcome.isFailed) then .completedWithErrors
      else .completed)
  | between (goOn : ∀ file ∈ files, settings.statusAfter file.outcome = none)
    (length_lt : files.length < planned) (status_eq : status = .cancelled)
  | within (before : List FileRecord) (last : FileRecord) (files_eq : files = before ++ [last])
    (goOn : ∀ file ∈ before, settings.statusAfter file.outcome = none)
    (length_le : files.length ≤ planned) (ends : settings.statusAfter last.outcome = some status)

/-- One more file in front of those that a visit goes on to. -/
theorem Ending.cons {file : FileRecord} {files : List FileRecord} {failed : Bool} {planned : Nat}
    {status : Status} (hfile : settings.statusAfter file.outcome = none)
    (h : Ending settings (failed || file.outcome.isFailed) planned status files) :
    Ending settings failed (planned + 1) status (file :: files) := by
  cases h with
  | complete goOn length_eq status_eq =>
    refine .complete (List.forall_mem_cons.mpr ⟨hfile, goOn⟩) (by simp [length_eq]) ?_
    rw [status_eq, List.any_cons, Bool.or_assoc]
  | between goOn length_lt status_eq =>
    exact .between (List.forall_mem_cons.mpr ⟨hfile, goOn⟩) (by simpa using length_lt) status_eq
  | within before last files_eq goOn length_le ends =>
    refine .within (file :: before) last (by rw [files_eq, List.cons_append])
      (List.forall_mem_cons.mpr ⟨hfile, goOn⟩) (by simpa using length_le) ends

namespace Visits

variable {files : List Path} {failed : Bool} {state : σ} {disk : Disk} {visited : Visit σ}

theorem ending (h : Visits settings context mishaps watcher files failed state disk visited) :
    Ending settings failed files.length visited.status visited.files := by
  induction h with
  | finished => exact .complete (fun _ h => nomatch h) rfl (by simp)
  | stopped stop => exact .between (fun _ h => nomatch h) (Nat.succ_pos _) rfl
  | ended go produced ends => exact .within [] _ rfl (fun _ h => nomatch h) (by simp) ends
  | onward go produced goesOn tail ih => exact ih.cons goesOn

/-- The files reported are the first ones to visit, in their order. -/
theorem inputs (h : Visits settings context mishaps watcher files failed state disk visited) :
    visited.files.map (·.input) = files.take visited.files.length := by
  induction h with
  | finished => rfl
  | stopped stop => rfl
  | ended go produced ends => simp
  | onward go produced goesOn tail ih => simp [ih]

theorem input_mem (h : Visits settings context mishaps watcher files failed state disk visited)
    {file : FileRecord} (hfile : file ∈ visited.files) : file.input ∈ files := by
  have hinput := List.mem_map_of_mem (f := (·.input)) hfile
  rw [h.inputs] at hinput
  exact List.mem_of_mem_take hinput

/-- The watcher is told of each file reported, once and in their order. -/
theorem notified (h : Visits settings context mishaps watcher files failed state disk visited) :
    visited.state = visited.files.foldl watcher.notify state := by
  induction h with
  | finished => rfl
  | stopped stop => rfl
  | ended go produced ends => rfl
  | onward go produced goesOn tail ih => exact ih

end Visits

namespace Report

/-- Every file counts once, by what became of it. -/
theorem count_add_count_cancelled (report : Report) :
    report.written + report.skipped + report.failed + report.count (·.isCancelled) =
      report.files.length := by
  obtain ⟨engine, status, files⟩ := report
  simp only [written, skipped, failed, count]
  induction files with
  | nil => rfl
  | cons file files ih =>
    obtain ⟨input, outcome⟩ := file
    cases outcome <;> simp [Outcome.isWritten, Outcome.isSkipped, Outcome.isFailed,
      Outcome.isCancelled] at ih ⊢ <;> omega

/-- What a report says of its run is so: which of the planned files were visited, that nothing comes
after the file that ended the run, which status the outcomes give, and the totals. -/
structure Exact (failFast : Bool) (planned : List Path) (report : Report) : Prop where
  inputs : report.files.map (·.input) = planned.take report.files.length
  cancelled_last : ∀ file ∈ report.files.dropLast, file.outcome ≠ .cancelled
  failed_last : failFast = true → ∀ file ∈ report.files.dropLast, file.outcome.isFailed = false
  aborted : report.status = .aborted ↔
    failFast = true ∧ ∃ last, report.files.getLast? = some last ∧ last.outcome.isFailed = true
  cancelled : report.status = .cancelled ↔
    (∃ last, report.files.getLast? = some last ∧ last.outcome = .cancelled) ∨
      report.files.length < planned.length ∧ report.status ≠ .aborted
  completedWithErrors : report.status = .completedWithErrors ↔
    report.files.length = planned.length ∧ failFast = false ∧
      (∀ file ∈ report.files, file.outcome ≠ .cancelled) ∧
      ∃ file ∈ report.files, file.outcome.isFailed = true
  completed : report.status = .completed ↔ report.files.length = planned.length ∧
    ∀ file ∈ report.files, file.outcome.isWritten = true ∨ file.outcome.isSkipped = true
  totals : report.written + report.skipped + report.failed =
    report.files.length - report.count (·.isCancelled)

end Report

namespace Ending

variable {planned : Nat} {status : Status} {files : List FileRecord}

/-- Only the last file can be one that ends the run. -/
theorem goOn_dropLast (h : Ending settings false planned status files) :
    ∀ file ∈ files.dropLast, settings.statusAfter file.outcome = none := by
  cases h with
  | complete goOn _ _ => exact fun file hfile => goOn file (List.dropLast_subset files hfile)
  | between goOn _ _ => exact fun file hfile => goOn file (List.dropLast_subset files hfile)
  | within before last files_eq goOn _ _ =>
    rw [files_eq, List.dropLast_concat]
    exact goOn

theorem aborted_iff (h : Ending settings false planned status files) : status = .aborted ↔
    settings.failFast = true ∧
      ∃ last, files.getLast? = some last ∧ last.outcome.isFailed = true := by
  cases h with
  | complete goOn _ status_eq => grind [Settings.statusAfter_eq_none_iff, List.mem_of_getLast?]
  | between goOn _ status_eq => grind [Settings.statusAfter_eq_none_iff, List.mem_of_getLast?]
  | within before last files_eq _ _ ends =>
    simp only [files_eq, List.getLast?_concat]
    grind [Settings.statusAfter_eq_some_iff, Outcome.isFailed]

theorem cancelled_iff (h : Ending settings false planned status files) : status = .cancelled ↔
    (∃ last, files.getLast? = some last ∧ last.outcome = .cancelled) ∨
      files.length < planned ∧ status ≠ .aborted := by
  cases h with
  | complete goOn length_eq status_eq =>
    grind [Settings.statusAfter_eq_none_iff, List.mem_of_getLast?]
  | between goOn length_lt status_eq => simp [status_eq, length_lt]
  | within before last files_eq _ _ ends =>
    simp only [files_eq, List.getLast?_concat]
    grind [Settings.statusAfter_eq_some_iff, Outcome.isFailed]

theorem completedWithErrors_iff (h : Ending settings false planned status files) :
    status = .completedWithErrors ↔ files.length = planned ∧ settings.failFast = false ∧
      (∀ file ∈ files, file.outcome ≠ .cancelled) ∧
      ∃ file ∈ files, file.outcome.isFailed = true := by
  cases h with
  | complete goOn length_eq status_eq =>
    have hfailed : status = .completedWithErrors ↔
        ∃ file ∈ files, file.outcome.isFailed = true := by
      rw [status_eq, Bool.false_or, ← List.any_eq_true]
      split <;> simp [*]
    grind [Settings.statusAfter_eq_none_iff]
  | between goOn length_lt status_eq =>
    have hlength : files.length ≠ planned := by omega
    simp [status_eq, hlength]
  | within before last files_eq _ _ ends =>
    have hlast : last ∈ files := by simp [files_eq]
    grind [Settings.statusAfter_eq_some_iff]

theorem completed_iff (h : Ending settings false planned status files) :
    status = .completed ↔ files.length = planned ∧
      ∀ file ∈ files, file.outcome.isWritten = true ∨ file.outcome.isSkipped = true := by
  have four (outcome : Outcome) : outcome.isWritten = true ∨ outcome.isSkipped = true ↔
      outcome.isFailed = false ∧ outcome ≠ .cancelled := by
    cases outcome <;> simp [Outcome.isWritten, Outcome.isSkipped, Outcome.isFailed]
  simp only [four]
  cases h with
  | complete goOn length_eq status_eq =>
    have hfailed : status = .completed ↔ ∀ file ∈ files, file.outcome.isFailed = false := by
      rw [status_eq, Bool.false_or]
      split <;> simp_all
    grind [Settings.statusAfter_eq_none_iff]
  | between goOn length_lt status_eq =>
    have hlength : files.length ≠ planned := by omega
    simp [status_eq, hlength]
  | within before last files_eq _ _ ends =>
    have hlast : last ∈ files := by simp [files_eq]
    grind [Settings.statusAfter_eq_some_iff]

end Ending

/-- Whatever is on the disk and goes wrong with a file in passing, whatever the watcher asks for and
whenever it asks, a report tells what became of the planned files, and the watcher was told of each
entry once, in order. -/
theorem Settings.run_report_exact {disk : Disk} {state : σ} {report : Report}
    (h : (settings.run watcher state disk mishaps).report = .ok report) :
    ∃ planned, settings.inputFiles disk = .ok planned ∧
      report.Exact settings.failFast planned ∧
      (settings.run watcher state disk mishaps).state =
        report.files.foldl watcher.notify state := by
  obtain ⟨start⟩ := exists_start h
  have visits := start.visits watcher state
  have ending := visits.ending
  rw [start.run_eq] at h ⊢
  obtain rfl := Except.ok.inj h
  refine ⟨start.files, start.planned, ?_, visits.notified⟩
  exact {
    inputs := visits.inputs
    cancelled_last := fun file hfile =>
      (statusAfter_eq_none_iff.mp (ending.goOn_dropLast file hfile)).1
    failed_last := by
      intro hfast file hfile
      have hgoOn := (statusAfter_eq_none_iff.mp (ending.goOn_dropLast file hfile)).2
      rw [hfast] at hgoOn
      simpa using hgoOn
    aborted := ending.aborted_iff
    cancelled := ending.cancelled_iff
    completedWithErrors := ending.completedWithErrors_iff
    completed := ending.completed_iff
    totals := by
      have htotal := Report.count_add_count_cancelled
        ⟨settings.engine, (start.visit watcher state).status, (start.visit watcher state).files⟩
      dsimp only at htotal ⊢
      omega }

/-- Three files, of which the first fails and the third is never reached, since the watcher asks for
a stop when it is told of the second. -/
theorem Settings.run_report_exact_stopped :
    let settings : Settings := { input := ⟨"in"⟩, output := ⟨"out"⟩ }
    let disk : Disk := {
      entries := [(["in"], .directory),
        (["in", "conversation.txt"], .file "dialogsfile version 2\n".toUTF8),
        (["in", "scripts.txt"], .file "scriptsfile version 1\n0".toUTF8),
        (["in", "triggers.txt"], .file "notes".toUTF8)]
      here := [] }
    let failure : RunFailure := .decode ⟨"in/conversation.txt"⟩ (.read (.endOfStream 1))
    let report : Report := ⟨.standard, .cancelled,
      [⟨⟨"in/conversation.txt"⟩, .failed failure.message (some 1)⟩,
        ⟨⟨"in/scripts.txt"⟩, .written .scripts ⟨"out/module_scripts.py"⟩⟩]⟩
    (settings.run (Watcher.stopAfter 2) 0 disk).report = .ok report ∧
      ∃ planned, settings.inputFiles disk = .ok planned ∧ report.Exact false planned ∧
        (settings.run (Watcher.stopAfter 2) 0 disk).state =
          report.files.foldl (Watcher.stopAfter 2).notify 0 := by
  intro settings disk failure report
  have h : (settings.run (Watcher.stopAfter 2) 0 disk).report = .ok report := by decide +kernel
  exact ⟨h, run_report_exact h⟩

end ModuleSource
