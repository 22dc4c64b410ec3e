import Mathlib.Data.List.Infix
import ModuleSource.Proofs.Disk.Repetition
import ModuleSource.Proofs.Run.Effect
import ModuleSource.Proofs.Run.Report

/-!
Files do not disturb each other. A run over a directory never writes under the name of a data file,
and whether a module can be published does not depend on those published before. So each file comes
to what it comes to alone, and every module is that of the last file written to it.
-/

namespace ModuleSource

open Disk

/-- A file of the input directory under a name that runs visit. -/
def IsDataFile (disk : Disk) (input path : Path) : Prop :=
  ∃ name ∈ dataFiles, path = input.join name ∧
    ∃ location bytes readOnly, disk.find path = .ok (location, .file bytes readOnly)

namespace IsDataFile

variable {before after : Disk} {input output path : Path}

theorem find_eq (h : IsDataFile before input path)
    (hwrites : WritesIn output targetNames before after) : after.find path = before.find path := by
  obtain ⟨name, hname, rfl, location, bytes, readOnly, hfind⟩ := h
  rw [hfind]
  exact hwrites.find_join_eq_ok (isName_of_mem_dataFiles name hname)
    (not_mem_targetNames_of_mem_dataFiles name hname) hfind

theorem writes (h : IsDataFile before input path)
    (hwrites : WritesIn output targetNames before after) : IsDataFile after input path := by
  have hsame := h.find_eq hwrites
  obtain ⟨name, hname, hpath, location, bytes, readOnly, hfind⟩ := h
  exact ⟨name, hname, hpath, location, bytes, readOnly, hsame.trans hfind⟩

theorem makes {start : Location} {along : List String → Prop} (h : IsDataFile before input path)
    (hmakes : MakesAlong start along before after) :
    after.find path = before.find path ∧ IsDataFile after input path := by
  obtain ⟨name, hname, hpath, location, bytes, readOnly, hfind⟩ := h
  have hafter := hmakes.find_eq_ok hfind
  exact ⟨hafter.trans hfind.symm, name, hname, hpath, location, bytes, readOnly, hafter⟩

end IsDataFile

/-- The files planned for a directory are data files in it. -/
theorem Settings.isDataFile_of_mem {settings : Settings} {disk : Disk} {files : List Path}
    {path : Path} (hdirectory : disk.isDirectory settings.input = true)
    (hplanned : settings.inputFiles disk = .ok files) (hpath : path ∈ files) :
    IsDataFile disk settings.input path := by
  unfold inputFiles at hplanned
  rw [isFile_of_isDirectory hdirectory, if_neg Bool.false_ne_true, if_pos hdirectory] at hplanned
  obtain rfl := Except.ok.inj hplanned
  obtain ⟨hmem, hisFile⟩ := List.mem_filter.mp hpath
  obtain ⟨name, hname, rfl⟩ := List.mem_map.mp hmem
  refine ⟨name, ?_, rfl, isFile_iff.mp hisFile⟩
  unfold Engine.dataFiles at hname
  split at hname
  · exact List.mem_of_mem_filter hname
  · exact hname

/-- A watcher that never asks for a stop. -/
def Watcher.Quiet {σ : Type} (watcher : Watcher σ) : Prop :=
  ∀ state, watcher.stopBefore state = false ∧ watcher.stopDuring state = .never

/-- The format of the module that a file was made into. -/
def Outcome.format? : Outcome → Option Format
  | written format _ => some format
  | _ => none

theorem Outcome.ofResult_eq_cancelled_iff {result : Except RunFailure (Format × Path)} :
    Outcome.ofResult result = .cancelled ↔ result = .error .cancelled := by
  rcases result with e | ⟨format, output⟩
  · cases e <;> simp [Outcome.ofResult]
  · simp [Outcome.ofResult]

theorem Outcome.format?_ofResult_error (e : RunFailure) :
    (Outcome.ofResult (.error e)).format? = none := by
  cases e <;> rfl

/-- The last of some files that was made into the module of a format. -/
def lastWritten? (files : List FileRecord) (format : Format) : Option FileRecord :=
  (files.filter fun file => file.outcome.format? = some format).getLast?

theorem lastWritten?_cons (file : FileRecord) (files : List FileRecord) (format : Format) :
    lastWritten? (file :: files) format = (lastWritten? files format).or
      (if file.outcome.format? = some format then some file else none) := by
  unfold lastWritten?
  rw [List.filter_cons]
  by_cases h : file.outcome.format? = some format
  · rw [if_pos h, if_pos (by simpa using h), List.getLast?_cons]
    cases (files.filter _).getLast? <;> rfl
  · rw [if_neg h, if_neg (by simpa using h), Option.or_none]

/-- At a location is the module that a file on some disk gives. -/
def HoldsModule (context : Context) (source : Disk) (format : Format) (input : Path) (disk : Disk)
    (location : Location) : Prop :=
  ∃ place bytes readOnly text, source.find input = .ok (place, .file bytes readOnly) ∧
    moduleOfBytes context .never input bytes = .ok (format, text) ∧
    disk.get? location = some (.file text.toUTF8)

/-- What producing a module does in the midst of a run, told by the disk that the run started on. -/
theorem produceModule_amid {context : Context} {signal : StopSignal} {input output path : Path}
    {ready disk after : Disk} {mishaps : Mishaps} {dir : Location}
    {result : Except RunFailure (Format × Path)} (hopens : ready.Opens output dir)
    (hwrites : WritesIn output moduleNames ready disk)
    (hfile : IsDataFile ready input path)
    (produced : produceModule context signal path output disk mishaps = (result, after)) :
    (Outcome.ofResult result ≠ .cancelled → Outcome.ofResult result =
        .ofResult (produceModule context .never path output ready mishaps).1) ∧
      ((∃ e, result = .error e ∧ after = disk) ∨
        ∃ place bytes readOnly format text,
          result = .ok (format, output.join format.moduleFile) ∧
          ready.find path = .ok (place, .file bytes readOnly) ∧
          moduleOfBytes context .never path bytes = .ok (format, text) ∧
          after = disk.insert (dir ++ [format.moduleFile]) (.file text.toUTF8)) := by
  rcases produceModule_stops context signal path output disk mishaps with hstopped | hsame
  · obtain ⟨rfl, rfl⟩ := Prod.mk.inj (produced.symm.trans hstopped)
    exact ⟨fun h => absurd rfl h, Or.inl ⟨.cancelled, rfl, rfl⟩⟩
  · have hfindSame := hfile.find_eq (hwrites.mono moduleNames_subset_targetNames)
    obtain ⟨name, -, -, place, bytes, readOnly, hfind⟩ := hfile
    rw [hsame, produceModule_of_find (hfindSame.trans hfind) (hwrites.grows.opens hopens)]
      at produced
    rw [produceModule_of_find hfind hopens]
    rcases hmodule : moduleOfBytes context .never path bytes with e | ⟨format, text⟩
    · rw [hmodule] at produced
      obtain ⟨rfl, rfl⟩ := Prod.mk.inj produced
      exact ⟨fun _ => rfl, Or.inl ⟨e, rfl, rfl⟩⟩
    · rw [hmodule] at produced
      dsimp only at produced ⊢
      rw [hwrites.refusal?_eq] at produced
      rcases hrefusal : ready.refusal? output dir format.moduleFile mishaps with _ | e
      · rw [hrefusal] at produced
        obtain ⟨rfl, rfl⟩ := Prod.mk.inj produced
        exact ⟨fun _ => rfl,
          Or.inr ⟨place, bytes, readOnly, format, text, rfl, hfind, hmodule, rfl⟩⟩
      · rw [hrefusal] at produced
        obtain ⟨rfl, rfl⟩ := Prod.mk.inj produced
        exact ⟨fun _ => rfl, Or.inl ⟨_, rfl, rfl⟩⟩

/-- A file changes the module of its format, if it is made into one, and no other. -/
theorem module_amid {context : Context} {signal : StopSignal} {input output path : Path}
    {ready disk after : Disk} {mishaps : Mishaps} {dir : Location}
    {result : Except RunFailure (Format × Path)} (hopens : ready.Opens output dir)
    (hwrites : WritesIn output moduleNames ready disk)
    (hfile : IsDataFile ready input path)
    (produced : produceModule context signal path output disk mishaps = (result, after))
    (format : Format) :
    ((Outcome.ofResult result).format? = some format →
        HoldsModule context ready format path after (dir ++ [format.moduleFile])) ∧
      ((Outcome.ofResult result).format? ≠ some format →
        after.get? (dir ++ [format.moduleFile]) = disk.get? (dir ++ [format.moduleFile])) := by
  rcases (produceModule_amid hopens hwrites hfile produced).2 with ⟨e, rfl, rfl⟩ |
    ⟨place, bytes, readOnly, made, text, rfl, hfind, hmodule, rfl⟩
  · refine ⟨fun h => ?_, fun _ => rfl⟩
    rw [Outcome.format?_ofResult_error] at h
    cases h
  · have hne : dir ++ [made.moduleFile] ≠ [] := by simp
    refine ⟨fun h => ?_, fun h => ?_⟩
    · obtain rfl : made = format := Option.some.inj h
      exact ⟨place, bytes, readOnly, text, hfind, hmodule, get?_insert_self disk hne _⟩
    · refine get?_insert_of_ne disk hne _ fun hlocation => h ?_
      obtain ⟨-, hnames⟩ := List.append_inj' hlocation rfl
      exact congrArg some (Format.moduleFile_inj (List.singleton_inj.mp hnames)).symm

namespace Visits

variable {σ : Type} {settings : Settings} {context : Context} {mishaps : RunMishaps}
  {watcher : Watcher σ} {files : List Path} {failed : Bool} {state : σ} {ready disk : Disk}
  {visited : Visit σ} {dir : Location}

/-- Each file that no stop keeps back comes to what it comes to alone. -/
theorem alone (h : Visits settings context mishaps watcher files failed state disk visited)
    (hopens : ready.Opens settings.output dir)
    (hwrites : WritesIn settings.output moduleNames ready disk)
    (hfiles : ∀ path ∈ files, IsDataFile ready settings.input path) :
    ∀ file ∈ visited.files, file.outcome ≠ .cancelled → file.outcome =
      .ofResult (produceModule context .never file.input settings.output ready
        (mishaps.files file.input)).1 := by
  induction h with
  | finished => exact fun _ hfile => nomatch hfile
  | stopped stop => exact fun _ hfile => nomatch hfile
  | ended go produced ends =>
    intro file hfile hgoes
    obtain rfl := List.mem_singleton.mp hfile
    exact (produceModule_amid hopens hwrites (hfiles _ List.mem_cons_self) produced).1 hgoes
  | onward go produced goesOn tail ih =>
    intro file hfile hgoes
    rcases List.mem_cons.mp hfile with rfl | hfile
    · exact (produceModule_amid hopens hwrites (hfiles _ List.mem_cons_self) produced).1 hgoes
    · exact ih (hwrites.trans (produceModule_writes produced))
        (fun path hpath => hfiles path (List.mem_cons_of_mem _ hpath)) file hfile hgoes

/-- A module that no file is written to stays as it was. -/
theorem module_kept (h : Visits settings context mishaps watcher files failed state disk visited)
    (hopens : ready.Opens settings.output dir)
    (hwrites : WritesIn settings.output moduleNames ready disk)
    (hfiles : ∀ path ∈ files, IsDataFile ready settings.input path) {format : Format}
    (hnone : lastWritten? visited.files format = none) :
    visited.disk.get? (dir ++ [format.moduleFile]) = disk.get? (dir ++ [format.moduleFile]) := by
  induction h with
  | finished => rfl
  | stopped stop => rfl
  | ended go produced ends =>
    have hmodule := module_amid hopens hwrites (hfiles _ List.mem_cons_self) produced format
    refine hmodule.2 fun hformat => ?_
    rw [lastWritten?_cons, if_pos hformat] at hnone
    cases hnone
  | onward go produced goesOn tail ih =>
    have hmodule := module_amid hopens hwrites (hfiles _ List.mem_cons_self) produced format
    rw [lastWritten?_cons, Option.or_eq_none_iff] at hnone
    obtain ⟨hrest, hhead⟩ := hnone
    have htail := ih (hwrites.trans (produceModule_writes produced))
      (fun path hpath => hfiles path (List.mem_cons_of_mem _ hpath)) hrest
    refine htail.trans (hmodule.2 fun hformat => ?_)
    rw [if_pos hformat] at hhead
    cases hhead

/-- A module that files are written to is that of the last one. -/
theorem module_held (h : Visits settings context mishaps watcher files failed state disk visited)
    (hopens : ready.Opens settings.output dir)
    (hwrites : WritesIn settings.output moduleNames ready disk)
    (hfiles : ∀ path ∈ files, IsDataFile ready settings.input path) {format : Format}
    {file : FileRecord} (hlast : lastWritten? visited.files format = some file) :
    HoldsModule context ready format file.input visited.disk (dir ++ [format.moduleFile]) := by
  induction h with
  | finished => cases hlast
  | stopped stop => cases hlast
  | ended go produced ends =>
    have hmodule := module_amid hopens hwrites (hfiles _ List.mem_cons_self) produced format
    rw [lastWritten?_cons] at hlast
    split at hlast
    · next hformat =>
      obtain rfl := Option.some.inj hlast
      exact hmodule.1 hformat
    · cases hlast
  | onward go produced goesOn tail ih =>
    have hmodule := module_amid hopens hwrites (hfiles _ List.mem_cons_self) produced format
    have hwrites' := hwrites.trans (produceModule_writes produced)
    have hfiles' := fun path hpath => hfiles path (List.mem_cons_of_mem _ hpath)
    rw [lastWritten?_cons, Option.or_eq_some_iff] at hlast
    rcases hlast with hlater | ⟨hnone, hhead⟩
    · exact ih hwrites' hfiles' hlater
    · -- No later file is written to the module, so it stays what this file made it.
      split at hhead
      · next hformat =>
        obtain rfl := Option.some.inj hhead
        obtain ⟨place, bytes, readOnly, text, hfind, htext, hget⟩ := hmodule.1 hformat
        exact ⟨place, bytes, readOnly, text, hfind, htext,
          (tail.module_kept hopens hwrites' hfiles' hnone).trans hget⟩
      · cases hhead

/-- Where nobody asks for a stop, there is none. -/
theorem status_ne_cancelled
    (h : Visits settings context mishaps watcher files failed state disk visited)
    (hquiet : watcher.Quiet) : visited.status ≠ .cancelled := by
  induction h with
  | @finished failed => cases failed <;> exact fun h => nomatch h
  | @stopped _ _ _ state _ stop =>
    rw [(hquiet state).1] at stop
    cases stop
  | @ended path _ _ state disk _ _ _ go produced ends =>
    rintro rfl
    rcases Settings.statusAfter_eq_some_iff.mp ends with ⟨-, -, hstatus⟩ | ⟨houtcome, -⟩
    · cases hstatus
    · obtain rfl := Outcome.ofResult_eq_cancelled_iff.mp houtcome
      rw [(hquiet state).2] at produced
      exact produceModule_never_ne_cancelled context path settings.output disk _
        (congrArg Prod.fst produced)
  | onward go produced goesOn tail ih => exact ih

end Visits

/-- A visit that is neither stopped nor ended by a failure comes to the end of its files. -/
theorem Ending.all_visited {settings : Settings} {planned : Nat} {status : Status}
    {files : List FileRecord} (h : Ending settings false planned status files)
    (hslow : settings.failFast = false) (hstatus : status ≠ .cancelled) :
    files.length = planned ∧ ∀ file ∈ files, file.outcome ≠ .cancelled := by
  cases h with
  | complete goOn length_eq _ =>
    exact ⟨length_eq, fun file hfile => (Settings.statusAfter_eq_none_iff.mp (goOn file hfile)).1⟩
  | between _ _ status_eq => exact absurd status_eq hstatus
  | within before last _ _ _ ends =>
    rcases Settings.statusAfter_eq_some_iff.mp ends with ⟨-, hfast, -⟩ | ⟨-, hcancelled⟩
    · cases hslow.symm.trans hfast
    · exact absurd hcancelled hstatus

/-- Files whose outcomes are a function of their inputs are determined by these. -/
theorem files_eq_map {files : List FileRecord} {outcome : Path → Outcome}
    (h : ∀ file ∈ files, file.outcome = outcome file.input) :
    files = (files.map (·.input)).map fun path => ⟨path, outcome path⟩ := by
  rw [List.map_map]
  refine (List.map_id files).symm.trans (List.map_congr_left fun file hfile => ?_)
  rw [Function.comp_apply, ← h file hfile]
  rfl

namespace Settings

variable {σ : Type} {settings : Settings} {disk : Disk} {mishaps : RunMishaps}

/-- What is done before the visit leaves every data file as it is. -/
theorem Start.find_ready (start : settings.Start disk mishaps) {path : Path}
    (h : IsDataFile disk settings.input path) :
    start.ready.find path = disk.find path ∧ IsDataFile start.ready settings.input path := by
  obtain ⟨hmade, hdata⟩ := h.makes start.makes
  have hwrites := start.writes.mono sharedNames_subset_targetNames
  exact ⟨(hdata.find_eq hwrites).trans hmade, hdata.writes hwrites⟩

/-- What a file comes to if it is the only one, on the disk on which the visit starts. -/
def Start.outcomeAlone (start : settings.Start disk mishaps) (path : Path) : Outcome :=
  .ofResult (produceModule start.context .never path settings.output start.ready
    (mishaps.files path)).1

/-- Of each file the report tells what it comes to alone, and in the output directory the modules
are those of the files written last, or what was there before. Where nothing was, a directory may
have been made on the way to the output. -/
structure Start.Isolated (start : settings.Start disk mishaps) (dir : Location) (report : Report)
    (final : Disk) : Prop where
  alone : ∀ file ∈ report.files, file.outcome ≠ .cancelled →
    file.outcome = start.outcomeAlone file.input
  complete : settings.failFast = false → report.status ≠ .cancelled →
    report.files = start.files.map fun path => ⟨path, start.outcomeAlone path⟩
  module_held : ∀ format file, lastWritten? report.files format = some file →
    HoldsModule start.context disk format file.input final (dir ++ [format.moduleFile])
  module_kept : ∀ format, lastWritten? report.files format = none →
    final.get? (dir ++ [format.moduleFile]) = disk.get? (dir ++ [format.moduleFile]) ∨
      MadeAt disk final (dir ++ [format.moduleFile])

theorem Start.isolated (start : settings.Start disk mishaps) (watcher : Watcher σ) (state : σ)
    {dir : Location} (hopens : start.ready.Opens settings.output dir)
    (hfiles : ∀ path ∈ start.files, IsDataFile disk settings.input path) :
    start.Isolated dir
      ⟨settings.engine, (start.visit watcher state).status, (start.visit watcher state).files⟩
      (start.visit watcher state).disk := by
  have visits := start.visits watcher state
  have hready (path : Path) (hpath : path ∈ start.files) := start.find_ready (hfiles path hpath)
  have hrefl := WritesIn.refl settings.output moduleNames start.ready
  have hdata := fun path hpath => (hready path hpath).2
  have halone := visits.alone hopens hrefl hdata
  exact {
    alone := halone
    complete := by
      intro hslow hstatus
      obtain ⟨hlength, hgoes⟩ := visits.ending.all_visited hslow hstatus
      have hinputs := visits.inputs
      rw [hlength, List.take_length] at hinputs
      rw [← hinputs]
      exact files_eq_map fun file hfile => halone file hfile (hgoes file hfile)
    module_held := by
      intro format file hlast
      have hmem : file.input ∈ start.files :=
        visits.input_mem (List.mem_of_mem_filter (List.mem_of_getLast? hlast))
      obtain ⟨place, bytes, readOnly, text, hfind, htext, hget⟩ :=
        visits.module_held hopens hrefl hdata hlast
      exact ⟨place, bytes, readOnly, text, (hready file.input hmem).1.symm.trans hfind, htext, hget⟩
    module_kept := by
      intro format hnone
      have hkept := visits.module_kept hopens hrefl hdata hnone
      have hshared := start.writes.get?_concat_eq format.moduleFile_not_mem_sharedNames dir
      have hmade := hkept.trans hshared
      rw [MadeAt, hmade]
      rcases start.makes.changed (dir ++ [format.moduleFile]) with hsame | ⟨hnone, hdirectory, -⟩
      · exact Or.inl hsame
      · exact Or.inr ⟨hnone, hdirectory⟩ }

theorem exists_inputFiles (hdirectory : disk.isDirectory settings.input = true) :
    ∃ files, settings.inputFiles disk = .ok files := by
  unfold inputFiles
  rw [isFile_of_isDirectory hdirectory, if_neg Bool.false_ne_true, if_pos hdirectory]
  exact ⟨_, rfl⟩

/-- A run that does not find its input has touched nothing. -/
theorem run_of_inputNotFound {watcher : Watcher σ} {state : σ} {path : Path}
    (h : (settings.run watcher state disk mishaps).report = .error (.inputNotFound path)) :
    (settings.run watcher state disk mishaps).disk = disk := by
  rcases run_cases settings watcher state disk mishaps with ⟨e, -, hrun⟩ | ⟨e, made, -, hrun⟩ |
    ⟨e, made, ready, -, hready, hrun⟩ | hstart
  · rw [hrun]
  · rw [hrun] at h
    cases h
  · obtain ⟨place, cause, rfl⟩ := prepare_error hready
    rw [hrun] at h
    cases h
  · obtain ⟨start⟩ := hstart
    rw [start.run_eq] at h
    cases h

/-- The report of a run over a directory is that of its files taken alone. -/
theorem exists_start_isolated {watcher : Watcher σ} {state : σ} {report : Report}
    (hdirectory : disk.isDirectory settings.input = true)
    (h : (settings.run watcher state disk mishaps).report = .ok report) :
    ∃ (start : settings.Start disk mishaps) (dir : Location),
      (settings.run watcher state disk mishaps).disk.Opens settings.output dir ∧
        start.Isolated dir report (settings.run watcher state disk mishaps).disk := by
  obtain ⟨start⟩ := exists_start h
  have hmade : start.made.isDirectory settings.input = true := by
    obtain ⟨location, hfind⟩ := isDirectory_iff.mp hdirectory
    exact isDirectory_iff.mpr ⟨location, start.makes.find_eq_ok hfind⟩
  obtain ⟨dir, hopens⟩ := exists_opens_of_prepare hmade start.prepared
  rw [start.run_eq] at h ⊢
  obtain rfl := Except.ok.inj h
  refine ⟨start, dir, (start.visits watcher state).writes.grows.opens hopens, ?_⟩
  exact start.isolated watcher state hopens fun path hpath =>
    isDataFile_of_mem hdirectory start.planned hpath

/-- The variables of a directory after a run that has it for its input and its output: they are as
they were. Where there were none, a directory may have been made on the way to the output; and where
one of the two paths to them cannot be resolved, they may have been lost. -/
def KeepsVariables (settings : Settings) (dir : Location) (before after : Disk) : Prop :=
  let place := dir ++ [variablesName]
  after.get? place = before.get? place ∨ MadeAt before after place ∨
    ¬ (after.Resolves (settings.input.join variablesName) ∧
        after.Resolves (settings.output.join variablesName)) ∧
      ∃ bytes, before.get? place = some (.file bytes) ∧ after.get? place = some (.file .empty)

theorem run_keepsVariables (settings : Settings) (watcher : Watcher σ) (state : σ) (disk : Disk)
    (mishaps : RunMishaps) {dir : Location}
    (hinput : (settings.run watcher state disk mishaps).disk.Opens settings.input dir)
    (houtput : (settings.run watcher state disk mishaps).disk.Opens settings.output dir) :
    settings.KeepsVariables dir disk (settings.run watcher state disk mishaps).disk := by
  have hname : IsName variablesName := by decide
  have hother : variablesName ∉ constantsName :: moduleNames := by decide
  obtain ⟨made, handed, hmakes, hhanded, hwrites⟩ := run_effect settings watcher state disk mishaps
  have hkept := hwrites.get?_concat_eq hother dir
  have hgrows := hhanded.writes.grows.trans hwrites.grows
  have hback := hwrites.grows_back.trans hhanded.writes.grows_back
  have hsource := (reach_join_eq_ok_iff hname).mpr ⟨dir, hback.opens hinput, rfl⟩
  have htarget := (reach_join_eq_ok_iff hname).mpr ⟨dir, hback.opens houtput, rfl⟩
  unfold KeepsVariables MadeAt
  dsimp only
  rw [hgrows.resolves_iff hsource, hgrows.resolves_iff htarget, hkept]
  have hunhanded (h : handed = made) :
      handed.get? (dir ++ [variablesName]) = disk.get? (dir ++ [variablesName]) ∨
        MadeAt disk handed (dir ++ [variablesName]) := by
    rw [h]
    rcases hmakes.changed (dir ++ [variablesName]) with hsame | ⟨hnone, hdirectory, -⟩
    · exact Or.inl hsame
    · exact Or.inr ⟨hnone, hdirectory⟩
  rcases hhanded with hsame | hhanded
  · exact (hunhanded hsame).imp_right Or.inl
  rcases handOnVariables_inPlace (hback.opens hinput) (hback.opens houtput) hhanded with
    hsame | ⟨hlost, bytes, hentry, rfl⟩
  · exact (hunhanded hsame).imp_right Or.inl
  · refine Or.inr (Or.inr ⟨hlost, bytes, ?_, get?_insert_self made (by simp) _⟩)
    rcases hmakes.changed (dir ++ [variablesName]) with hsame | ⟨-, hdirectory, -⟩
    · exact hsame.symm.trans hentry
    · cases hentry.symm.trans hdirectory

/-- Whatever is on the disk, whatever goes wrong with a file in passing and whatever a watcher asks
for, a run changes nothing but what is `Confined` to its output: no data file, nothing at all if the
input is not there, and not the variables where the output directory is the input directory, if both
paths to them can be resolved. Each file of a directory comes to what it comes to alone, and each
module is that of the last file written to it. -/
theorem run_confined_isolated (settings : Settings) (watcher : Watcher σ) (state : σ)
    (disk : Disk) (mishaps : RunMishaps) :
    let final := (settings.run watcher state disk mishaps).disk
    Confined settings.output disk final ∧
      (∀ dir, final.Opens settings.input dir → final.Opens settings.output dir →
        settings.KeepsVariables dir disk final) ∧
      (∀ path, (settings.run watcher state disk mishaps).report = .error (.inputNotFound path) →
        final = disk) ∧
      (disk.isDirectory settings.input = true →
        (∀ files, settings.inputFiles disk = .ok files → ∀ path ∈ files,
          final.find path = disk.find path) ∧
        ∀ report, (settings.run watcher state disk mishaps).report = .ok report →
          (watcher.Quiet → report.status ≠ .cancelled) ∧
          ∃ (start : settings.Start disk mishaps) (dir : Location),
            final.Opens settings.output dir ∧ start.Isolated dir report final) := by
  intro final
  obtain ⟨made, hmakes, hwrites⟩ := run_makes_writes settings watcher state disk mishaps
  refine ⟨.of_makes_writes hmakes hwrites,
    fun dir => run_keepsVariables settings watcher state disk mishaps,
    fun path => run_of_inputNotFound, fun hdirectory => ?_⟩
  refine ⟨?_, fun report hreport => ⟨?_, exists_start_isolated hdirectory hreport⟩⟩
  · intro files hplanned path hpath
    obtain ⟨hmade, hdata⟩ := (isDataFile_of_mem hdirectory hplanned hpath).makes hmakes
    exact (hdata.find_eq hwrites).trans hmade
  · intro hquiet
    obtain ⟨start⟩ := exists_start hreport
    rw [start.run_eq] at hreport
    obtain rfl := Except.ok.inj hreport
    exact (start.visits watcher state).status_ne_cancelled hquiet

/-- A run into its own input directory, under another spelling. Two files hold scripts, a file
between them breaks off, and the module is that of the second one. -/
theorem run_confined_isolated_inPlace :
    let settings : Settings := { input := ⟨"in"⟩, output := ⟨"in/../in/"⟩ }
    let disk : Disk := {
      entries := [(["in"], .directory),
        (["in", "conversation.txt"], .file "scriptsfile version 1\n0".toUTF8),
        (["in", "menus.txt"], .file "scriptsfile version 1\n1".toUTF8),
        (["in", "scripts.txt"], .file "scriptsfile version 1\n1\nf -1\n0".toUTF8),
        (["in", "variables.txt"], .file "g".toUTF8)]
      here := [] }
    let final := (settings.run Watcher.counting 0 disk).disk
    let second : FileRecord :=
      ⟨⟨"in/scripts.txt"⟩, .written .scripts ⟨"in/../in/module_scripts.py"⟩⟩
    ∃ report, (settings.run Watcher.counting 0 disk).report = .ok report ∧
      report.status = .completedWithErrors ∧ lastWritten? report.files .scripts = some second ∧
      final.get? ["in", variablesName] = some (.file "g".toUTF8) ∧
      final.find ⟨"in/menus.txt"⟩ = disk.find ⟨"in/menus.txt"⟩ ∧
      ∃ start : settings.Start disk {},
        report.files = start.files.map (fun path => ⟨path, start.outcomeAlone path⟩) ∧
        HoldsModule start.context disk .scripts second.input final ["in", "module_scripts.py"] := by
  intro settings disk final second
  obtain ⟨-, hvariables, -, hdirectory⟩ := run_confined_isolated settings Watcher.counting 0 disk {}
  obtain ⟨hfiles, hreport⟩ := hdirectory (by decide)
  let failure : RunFailure := .decode ⟨"in/menus.txt"⟩ (.read (.endOfStream 2))
  let report : Report := ⟨.standard, .completedWithErrors,
    [⟨⟨"in/conversation.txt"⟩, .written .scripts ⟨"in/../in/module_scripts.py"⟩⟩,
      ⟨⟨"in/menus.txt"⟩, .failed failure.message failure.line?⟩, second]⟩
  have hrun : (settings.run Watcher.counting 0 disk).report = .ok report := by decide +kernel
  -- Both spellings lead to one directory before the run, and so after it.
  obtain ⟨made, hmakes, hwrites⟩ := run_makes_writes settings Watcher.counting 0 disk {}
  have hgrows : Grows disk final := hmakes.grows.trans hwrites.grows
  have hinput : final.Opens settings.input ["in"] :=
    hgrows.opens ⟨by decide +kernel, by decide +kernel⟩
  have houtput : final.Opens settings.output ["in"] :=
    hgrows.opens ⟨by decide +kernel, by decide +kernel⟩
  have hresolves {path : Path} (hreach : disk.reach path = .ok ["in", variablesName])
      (hresolve : disk.resolve path = .ok ["in", variablesName]) : final.Resolves path :=
    (hgrows.resolves_iff hreach).mpr ⟨_, hresolve⟩
  obtain ⟨-, start, dir, hdir, isolated⟩ := hreport report hrun
  obtain rfl := hdir.unique houtput
  refine ⟨report, hrun, rfl, by decide, ?_, ?_, start, ?_, ?_⟩
  · rcases hvariables ["in"] hinput houtput with hsame | ⟨hnone, -⟩ | ⟨hlost, -⟩
    · exact hsame.trans (by decide)
    · cases hnone
    · exact absurd ⟨hresolves (by decide +kernel) (by decide +kernel),
        hresolves (by decide +kernel) (by decide +kernel)⟩ hlost
  · exact hfiles [⟨"in/conversation.txt"⟩, ⟨"in/menus.txt"⟩, ⟨"in/scripts.txt"⟩] (by decide +kernel)
      ⟨"in/menus.txt"⟩ (by decide)
  · exact isolated.complete rfl (by decide)
  · exact isolated.module_held .scripts second (by decide)

/-- In a directory that is its input and its output, a run empties the variables if one of the two
paths to them cannot be resolved, whatever becomes of the rest. -/
theorem run_loses_variables {dir : Location} {bytes : ByteArray} (watcher : Watcher σ) (state : σ)
    (hinput : disk.find settings.input = .ok (dir, .directory))
    (houtput : disk.find settings.output = .ok (dir, .directory))
    (hsource : (settings.input.join variablesName).accept = .ok ())
    (htarget : (settings.output.join variablesName).accept = .ok ())
    (hentry : disk.get? (dir ++ [variablesName]) = some (.file bytes))
    (hlost : ¬ (disk.Resolves (settings.input.join variablesName) ∧
      disk.Resolves (settings.output.join variablesName))) :
    (settings.run watcher state disk mishaps).disk.get? (dir ++ [variablesName]) =
      some (.file .empty) := by
  have hname : IsName variablesName := by decide
  have hdirectory := isDirectory_iff.mpr ⟨dir, hinput⟩
  have hfind : disk.find (settings.input.join variablesName) =
      .ok (dir ++ [variablesName], .file bytes) := by
    rw [find_join_of_opens hname (opens_of_find hinput), hsource, hentry]
  have hlocate : disk.locate (settings.output.join variablesName) = .ok (dir ++ [variablesName]) :=
    locate_eq_ok_iff.mpr
      ⟨htarget, (reach_join_eq_ok_iff hname).mpr ⟨dir, opens_of_find houtput, rfl⟩⟩
  have hdiffer : disk.same (settings.input.join variablesName)
      (settings.output.join variablesName) = false := by
    rw [Bool.eq_false_iff, Ne, same_eq_true_iff]
    rintro ⟨location, hresolve, hresolve', -⟩
    exact hlost ⟨⟨location, hresolve⟩, ⟨location, hresolve'⟩⟩
  have hhanded : settings.handOnVariables disk =
      .ok (disk.insert (dir ++ [variablesName]) (.file .empty)) := by
    simp [handOnVariables_of_copy hfind hdiffer, copy, write, hlocate, hentry, Except.toOption,
      Except.mapError]
  obtain ⟨files, hplanned⟩ := exists_inputFiles hdirectory
  have hprepared := prepare_writes_constants mishaps.constants hdirectory hhanded
  have hmodules := run_writes_modules mishaps watcher state hplanned
    (makeDirectories_of_find houtput)
  rw [hmodules.get?_concat_eq (by decide) dir, hprepared.get?_concat_eq (by decide) dir]
  exact get?_insert_self disk (by simp) _

/-- So it does in a working directory that is too deep for its variables to have a path from the
root. -/
theorem run_here_loses_variables {settings : Settings} {bytes : ByteArray} (watcher : Watcher σ)
    (state : σ) (hinput : settings.input = ⟨"."⟩) (houtput : settings.output = ⟨"."⟩)
    (hhere : disk.get? disk.here = some .directory)
    (hentry : disk.get? (disk.here ++ [variablesName]) = some (.file bytes))
    (hlong : maxPathBytes <
      (Path.ofLocation (disk.here ++ [variablesName])).text.utf8ByteSize) :
    (settings.run watcher state disk mishaps).disk.get? (disk.here ++ [variablesName]) =
      some (.file .empty) := by
  have hopens : disk.Opens ⟨"."⟩ disk.here := by
    refine ⟨?_, hhere⟩
    change disk.walk disk.here ["."] = _
    rw [walk_singleton, step_dot_eq_ok_iff]
    exact ⟨hhere, rfl⟩
  have hfind : disk.find ⟨"."⟩ = .ok (disk.here, .directory) :=
    find_eq_ok_iff.mpr ⟨by decide +kernel, hopens.1, hhere⟩
  refine run_loses_variables watcher state (by rw [hinput, hfind]) (by rw [houtput, hfind]) ?_ ?_
    hentry ?_
  · rw [hinput]
    decide +kernel
  · rw [houtput]
    decide +kernel
  · rw [hinput]
    exact fun h => not_resolves_join (by decide) hopens hlong h.1

private theorem utf8ByteSize_replicate (n : Nat) :
    (String.ofList (List.replicate n 'a')).utf8ByteSize = n := by
  induction n with
  | zero => rfl
  | succ n ih =>
    rw [List.replicate_succ, String.ofList_cons, String.utf8ByteSize_append, ih,
      String.utf8ByteSize_singleton]
    exact Nat.add_comm _ _

private theorem mul_utf8ByteSize_le_intercalate (sep text last : String) (n : Nat) :
    n * text.utf8ByteSize ≤
      (String.intercalate sep (List.replicate n text ++ [last])).utf8ByteSize := by
  induction n with
  | zero => omega
  | succ n ih =>
    have hne : List.replicate n text ++ [last] ≠ [] := by simp
    obtain ⟨next, texts, htexts⟩ := List.exists_cons_of_ne_nil hne
    rw [htexts] at ih
    rw [List.replicate_succ, List.cons_append, htexts, String.intercalate_cons_cons,
      String.utf8ByteSize_append, String.utf8ByteSize_append, Nat.succ_mul]
    omega

/-- In a directory seventeen long names deep, a run over `.` into `.` empties the variables. -/
theorem run_here_loses_variables_deep :
    let name := String.ofList (List.replicate 255 'a')
    let here : Location := List.replicate 17 name
    let settings : Settings := { input := ⟨"."⟩, output := ⟨"."⟩ }
    let disk : Disk := {
      entries := (here ++ [variablesName], .file "g".toUTF8) :: here.inits.map (·, .directory)
      here := here }
    disk.get? (here ++ [variablesName]) = some (.file "g".toUTF8) ∧
      (settings.run Watcher.counting 0 disk).disk.get? (here ++ [variablesName]) =
        some (.file .empty) := by
  intro name here
  have hsize : name.utf8ByteSize = 255 := utf8ByteSize_replicate 255
  have hne : here ≠ [] := nofun
  have hlong : maxPathBytes < (Path.ofLocation (here ++ [variablesName])).text.utf8ByteSize := by
    have hnames := mul_utf8ByteSize_le_intercalate "/" name variablesName 17
    rw [hsize] at hnames
    change _ ≤ (String.intercalate "/" (here ++ [variablesName])).utf8ByteSize at hnames
    rw [Path.ofLocation, String.utf8ByteSize_append]
    unfold maxPathBytes
    omega
  clear_value here
  intro settings disk
  have hentry : disk.get? (here ++ [variablesName]) = some (.file "g".toUTF8) := by
    rw [get?_of_ne_nil disk (by simp), List.lookup_cons_self]
  refine ⟨hentry, run_here_loses_variables Watcher.counting 0 rfl rfl ?_ hentry hlong⟩
  rw [get?_of_ne_nil disk hne]
  have hfar : (here == here ++ [variablesName]) = false := by simp
  rw [List.lookup_cons, hfar]
  exact List.lookup_graph _ ((List.mem_inits _ _).mpr (List.prefix_refl _))

end Settings

end ModuleSource
