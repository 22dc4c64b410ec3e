import ModuleSource.Proofs.Disk.Repetition
import ModuleSource.Proofs.Run.Isolation

/-!
A run over a directory, made again on the disk that it left. Nothing that it wrote is an input: data
files and the files with the names of entities have other names than its targets, and variables
become no others by being handed on. So the second run plans the same files, reads them with the
same names and writes what is there already, if it may.
-/

namespace ModuleSource

open Disk

theorem Engine.dataFiles_subset (engine : Engine) : engine.dataFiles ⊆ ModuleSource.dataFiles := by
  unfold Engine.dataFiles
  split
  · exact List.filter_subset_self _
  · exact List.Subset.refl _

theorem isName_dataFile (entity : Entity) : IsName entity.dataFile := by
  cases entity <;> decide

theorem dataFile_not_mem_targetNames (entity : Entity) : entity.dataFile ∉ targetNames := by
  cases entity <;> decide

/-- The names of entities are not touched by a run, wherever it writes. -/
theorem Lexicon.ofDirectory_eq {before after : Disk} {output directory : Path} {dir : Location}
    (hwrites : WritesIn output targetNames before after) (hopens : before.Opens directory dir) :
    Lexicon.ofDirectory after directory = Lexicon.ofDirectory before directory := by
  unfold Lexicon.ofDirectory
  refine List.foldl_ext _ _ _ fun lexicon entity _ => ?_
  have hfind : after.find (directory.join entity.dataFile) =
      before.find (directory.join entity.dataFile) :=
    find_join_congr (isName_dataFile entity) hopens (hwrites.grows.opens hopens)
      (hwrites.get?_concat_eq (dataFile_not_mem_targetNames entity) dir)
  have hisFile : after.isFile (directory.join entity.dataFile) =
      before.isFile (directory.join entity.dataFile) := by
    rw [isFile, isFile, hfind]
  have hnames : entity.rule.namesAt after (directory.join entity.dataFile) =
      entity.rule.namesAt before (directory.join entity.dataFile) := by
    rw [NameRule.namesAt, NameRule.namesAt, Disk.read, Disk.read, hfind]
  simp only [hisFile, hnames]

/-- Nobody stops a file, so it comes to what it comes to alone. -/
theorem Watcher.Quiet.outcome_eq {σ : Type} {watcher : Watcher σ} (hquiet : watcher.Quiet)
    {context : Context} {mishaps : Mishaps} {state : σ} {input output path : Path}
    {ready disk after : Disk} {dir : Location} {result : Except RunFailure (Format × Path)}
    (hopens : ready.Opens output dir) (hwrites : WritesIn output moduleNames ready disk)
    (hfile : IsDataFile ready input path)
    (produced : produceModule context (watcher.stopDuring state) path output disk mishaps =
      (result, after)) :
    Outcome.ofResult result =
      .ofResult (produceModule context .never path output ready mishaps).1 := by
  refine (produceModule_amid hopens hwrites hfile produced).1 fun hcancelled => ?_
  rw [(hquiet state).2] at produced
  obtain rfl := Outcome.ofResult_eq_cancelled_iff.mp hcancelled
  exact produceModule_never_ne_cancelled context path output disk mishaps
    (congrArg Prod.fst produced)

/-- Two visits to the same files tell the same, however far each has come with writing modules. -/
theorem Visits.agree {σ τ : Type} {settings : Settings} {context : Context}
    {mishaps : RunMishaps} {watcher : Watcher σ} {watcher' : Watcher τ} {files : List Path}
    {failed : Bool} {state : σ} {state' : τ}
    {ready disk disk' : Disk} {visited : Visit σ} {visited' : Visit τ} {dir : Location}
    (h : Visits settings context mishaps watcher files failed state disk visited)
    (h' : Visits settings context mishaps watcher' files failed state' disk' visited')
    (hquiet : watcher.Quiet) (hquiet' : watcher'.Quiet)
    (hopens : ready.Opens settings.output dir)
    (hwrites : WritesIn settings.output moduleNames ready disk)
    (hwrites' : WritesIn settings.output moduleNames ready disk')
    (hfiles : ∀ path ∈ files, IsDataFile ready settings.input path) :
    visited'.status = visited.status ∧ visited'.files = visited.files := by
  induction h generalizing state' disk' visited' with
  | finished =>
    cases h' with
    | finished => exact ⟨rfl, rfl⟩
  | @stopped _ _ _ state _ stop => cases (hquiet state).1.symm.trans stop
  | ended go produced ends =>
    have houtcome := hquiet.outcome_eq hopens hwrites (hfiles _ List.mem_cons_self) produced
    cases h' with
    | stopped stop => cases (hquiet' state').1.symm.trans stop
    | ended go' produced' ends' =>
      rw [hquiet'.outcome_eq hopens hwrites' (hfiles _ List.mem_cons_self) produced'] at ends' ⊢
      rw [houtcome] at ends ⊢
      exact ⟨Option.some.inj (ends'.symm.trans ends), rfl⟩
    | onward go' produced' goesOn' tail' =>
      rw [hquiet'.outcome_eq hopens hwrites' (hfiles _ List.mem_cons_self) produced',
        ← houtcome, ends] at goesOn'
      cases goesOn'
  | onward go produced goesOn tail ih =>
    have houtcome := hquiet.outcome_eq hopens hwrites (hfiles _ List.mem_cons_self) produced
    cases h' with
    | stopped stop => cases (hquiet' state').1.symm.trans stop
    | ended go' produced' ends' =>
      rw [hquiet'.outcome_eq hopens hwrites' (hfiles _ List.mem_cons_self) produced',
        ← houtcome, goesOn] at ends'
      cases ends'
    | onward go' produced' goesOn' tail' =>
      have hsame := (hquiet'.outcome_eq hopens hwrites' (hfiles _ List.mem_cons_self)
        produced').trans houtcome.symm
      rw [hsame] at tail' ⊢
      obtain ⟨hstatus, hrest⟩ := ih tail' (hwrites.trans (produceModule_writes produced))
        (hwrites'.trans (produceModule_writes produced'))
        fun path hpath => hfiles path (List.mem_cons_of_mem _ hpath)
      exact ⟨hstatus, congrArg (List.cons _) hrest⟩

namespace Settings

variable {settings : Settings} {disk made handed ready after : Disk} {dir : Location}
  {names : List String}

/-- The same files are planned after a run as before it. -/
theorem inputFiles_eq {start : Location} {along : List String → Prop}
    (hdirectory : disk.isDirectory settings.input = true)
    (hmakes : MakesAlong start along disk made)
    (hwrites : WritesIn settings.output targetNames made after) :
    settings.inputFiles after = settings.inputFiles disk := by
  obtain ⟨dir, hfind⟩ := isDirectory_iff.mp hdirectory
  have hopens := opens_of_find hfind
  have hafter := hwrites.grows.opens (hmakes.grows.opens hopens)
  have hdirectory' := hwrites.grows.isDirectory (hmakes.grows.isDirectory hdirectory)
  unfold inputFiles
  rw [isFile_of_isDirectory hdirectory, isFile_of_isDirectory hdirectory', hdirectory, hdirectory']
  simp only [Bool.false_eq_true, if_false, if_true]
  congr 1
  refine List.filter_congr fun path hpath => ?_
  obtain ⟨name, hname, rfl⟩ := List.mem_map.mp hpath
  have hdata := settings.engine.dataFiles_subset hname
  refine isFile_join_congr (isName_of_mem_dataFiles name hdata) hopens hafter ?_
  exact (file?_congr (hwrites.get?_concat_eq (not_mem_targetNames_of_mem_dataFiles name hdata)
    dir)).trans (hmakes.file?_eq _)

/-- Read-only variables were copied to another directory, where the copy may not be written. -/
def LocksVariables (settings : Settings) (before after : Disk) : Prop :=
  ∃ origin bytes target, before.find (settings.input.join variablesName) =
      .ok (origin, .file bytes true) ∧
    after.Opens settings.output target ∧
    (∀ old, before.get? (target ++ [variablesName]) ≠ some (.file old true)) ∧
    after.get? (target ++ [variablesName]) = some (.file bytes true)

theorem LocksVariables.of_makes {start : Location} {along : List String → Prop}
    (h : settings.LocksVariables made after) (hmakes : MakesAlong start along disk made)
    (hopens : disk.Opens settings.input dir) : settings.LocksVariables disk after := by
  have hname : IsName variablesName := by decide
  have hfile {location : Location} {bytes : ByteArray} {readOnly : Bool} :
      made.get? location = some (.file bytes readOnly) ↔
        disk.get? location = some (.file bytes readOnly) := by
    rw [get?_eq_file_iff, get?_eq_file_iff, hmakes.file?_eq]
  obtain ⟨origin, bytes, target, hfind, htarget, hwritable, hentry⟩ := h
  obtain ⟨haccept, hreach, hsource⟩ := find_eq_ok_iff.mp hfind
  obtain ⟨dir', hopens', rfl⟩ := (reach_join_eq_ok_iff hname).mp hreach
  obtain rfl := (hmakes.grows.opens hopens).unique hopens'
  have hreach' := (reach_join_eq_ok_iff hname).mpr ⟨_, hopens, rfl⟩
  exact ⟨_, bytes, target, find_eq_ok_iff.mpr ⟨haccept, hreach', hfile.mp hsource⟩, htarget,
    fun old hold => hwritable old (hfile.mpr hold), hentry⟩

/-- Whether variables would be copied onto themselves is seen in the same way after a run. -/
theorem same_variables_eq (hgrows : Grows disk after) (hinput : disk.Opens settings.input dir)
    {target : Location} (houtput : disk.Opens settings.output target)
    (hthere : after.get? (dir ++ [variablesName]) = none ↔
      disk.get? (dir ++ [variablesName]) = none) :
    after.same (settings.input.join variablesName) (settings.output.join variablesName) =
      disk.same (settings.input.join variablesName) (settings.output.join variablesName) := by
  have hname : IsName variablesName := by decide
  have hsource := (reach_join_eq_ok_iff hname).mpr ⟨dir, hinput, rfl⟩
  have htarget := (reach_join_eq_ok_iff hname).mpr ⟨target, houtput, rfl⟩
  rw [Bool.eq_iff_iff, same_eq_true_iff, same_eq_true_iff, hgrows.resolve_eq hsource,
    hgrows.resolve_eq htarget]
  refine exists_congr fun location => and_congr_right fun hresolve => and_congr_right fun _ => ?_
  obtain rfl : location = dir ++ [variablesName] :=
    Except.ok.inj ((reach_of_resolve hresolve).symm.trans hsource)
  exact not_congr hthere

/-- Variables that were handed on are handed on again without a change, unless the first time has
made the copy read-only. -/
theorem handOnVariables_again (hopens : disk.Opens settings.input dir)
    (h : settings.handOnVariables disk = .ok handed)
    (hwrites : WritesIn settings.output names handed after) (hother : variablesName ∉ names) :
    settings.handOnVariables after = .ok after ∨
      settings.handOnVariables after =
        .error (.access (settings.output.join variablesName) .permissionDenied) ∧
      settings.LocksVariables disk after := by
  have hname : IsName variablesName := by decide
  have hgrows : Grows disk after := (handOnVariables_writes h).grows.trans hwrites.grows
  have hopens' := hgrows.opens hopens
  have hkept (place : Location) := hwrites.get?_concat_eq hother place
  rcases handOnVariables_eq_ok h with ⟨rfl, hmissing⟩ | ⟨rfl, hsame⟩ |
    ⟨origin, bytes, readOnly, hfind, hdiffer, hcopy⟩
  · refine Or.inl (handOnVariables_of_missing ?_)
    rwa [find_join_congr hname hopens hopens' (hkept dir)]
  · obtain ⟨location, -, hresolve, -⟩ := same_eq_true_iff.mp hsame
    obtain ⟨target, houtput, -⟩ := (reach_join_eq_ok_iff hname).mp (reach_of_resolve hresolve)
    refine Or.inl (handOnVariables_of_same ?_)
    rwa [same_variables_eq hgrows hopens houtput (by rw [hkept])]
  obtain ⟨haccept, hreach, hentry⟩ := find_eq_ok_iff.mp hfind
  obtain ⟨dir', hdir', rfl⟩ := (reach_join_eq_ok_iff hname).mp hreach
  obtain rfl := hopens.unique hdir'
  obtain ⟨target, houtput, haccept', hfree, hwritable, rfl⟩ := copy_join hname hcopy
  have hlocate : after.locate (settings.output.join variablesName) =
      .ok (target ++ [variablesName]) :=
    locate_eq_ok_iff.mpr ⟨haccept', (reach_join_eq_ok_iff hname).mpr
      ⟨target, hgrows.opens houtput, rfl⟩⟩
  have htarget := (hkept target).trans (get?_insert_self disk (by simp) _)
  have hagain {found : ByteArray}
      (hsource : after.get? (dir ++ [variablesName]) = some (.file found readOnly)) :
      settings.handOnVariables after =
        (after.copy (dir ++ [variablesName]) found readOnly
          (settings.output.join variablesName)).mapError
            (.access (settings.output.join variablesName)) := by
    refine handOnVariables_of_copy ?_ ?_
    · rw [find_join_of_opens hname hopens', haccept, hsource]
    · rwa [same_variables_eq hgrows hopens houtput (by simp [hsource, hentry])]
  unfold copy at hagain
  rw [hlocate, Except.toOption] at hagain
  by_cases hplace : target = dir
  · -- The variables were lost: nothing is copied onto nothing.
    obtain rfl := hplace
    cases readOnly with
    | true => exact absurd hentry (hwritable bytes)
    | false =>
      rw [if_pos rfl] at htarget
      rw [hagain htarget, if_pos rfl, write_of_get? hlocate htarget]
      exact Or.inl rfl
  · have hplaces : target ++ [variablesName] ≠ dir ++ [variablesName] :=
      fun heq => hplace (List.append_inj' heq rfl).1
    have hsource : after.get? (dir ++ [variablesName]) = some (.file bytes readOnly) :=
      (hkept dir).trans ((get?_insert_of_ne disk (by simp) _ hplaces.symm).trans hentry)
    rw [if_neg hplaces] at htarget
    rw [hagain hsource, if_neg (by simpa using hplaces)]
    cases readOnly with
    | false =>
      rw [write_of_get? hlocate htarget]
      exact Or.inl rfl
    | true =>
      rw [write_of_readOnly hlocate htarget]
      exact Or.inr ⟨rfl, _, bytes, target, hfind, hgrows.opens houtput, hwritable, htarget⟩

theorem putConstants_again {mishaps : Mishaps} (h : settings.putConstants disk mishaps = .ok ready)
    (hwrites : WritesIn settings.output names ready after) (hother : constantsName ∉ names) :
    settings.putConstants after mishaps = .ok after := by
  have hname : IsName constantsName := by decide
  unfold putConstants at h ⊢
  dsimp only at h ⊢
  split at h
  · next put hpublish =>
    obtain rfl := Except.ok.inj h
    obtain ⟨dir, hopens, hfree, rfl⟩ := publish_eq_ok hname hpublish
    have hput : WritesIn settings.output (constantsName :: names) disk after :=
      (WritesIn.of_insert hopens List.mem_cons_self hfree _ _).trans
        (hwrites.mono (List.subset_cons_self _ _))
    have hentry : after.get? (dir ++ [constantsName]) =
        some (.file settings.engine.constants.toUTF8) :=
      (hwrites.get?_concat_eq hother dir).trans (get?_insert_self disk (by simp) _)
    have hrefusal := (hput.refusal?_eq dir constantsName mishaps).trans
      (refusal?_eq_none_of_publish hname hopens hpublish)
    rw [publish_of_get? hname (hput.grows.opens hopens) hrefusal hentry]
  · cases h

/-- What preparing a run over a directory can come to. -/
theorem prepare_cases (mishaps : Mishaps) (hdirectory : disk.isDirectory settings.input = true) :
    (∃ e, settings.handOnVariables disk = .error e ∧
        settings.prepare disk mishaps = (.error e, disk)) ∨
      (∃ handed e, settings.handOnVariables disk = .ok handed ∧
        settings.putConstants handed mishaps = .error e ∧
        settings.prepare disk mishaps = (.error e, handed)) ∨
      ∃ handed ready, settings.handOnVariables disk = .ok handed ∧
        settings.putConstants handed mishaps = .ok ready ∧
        settings.prepare disk mishaps = (.ok (), ready) := by
  unfold prepare
  rw [if_pos hdirectory]
  rcases settings.handOnVariables disk with e | handed
  · exact Or.inl ⟨e, rfl, rfl⟩
  dsimp only
  rcases hput : settings.putConstants handed mishaps with e | ready
  · exact Or.inr (Or.inl ⟨handed, e, rfl, hput, rfl⟩)
  · exact Or.inr (Or.inr ⟨handed, ready, rfl, hput, rfl⟩)

/-- The second time preparing fails, since the first time has locked the variables. -/
def Refused (settings : Settings) (mishaps : Mishaps) (before after : Disk) : Prop :=
  settings.LocksVariables before after ∧
    settings.prepare after mishaps =
      (.error (.access (settings.output.join variablesName) .permissionDenied), after)

/-- Preparing goes on to the constants, unless the variables are locked. -/
theorem prepare_again_from_constants (mishaps : Mishaps)
    (hdirectory : disk.isDirectory settings.input = true)
    (hhanded : settings.handOnVariables disk = .ok handed)
    (hwrites : WritesIn settings.output names handed after) (hother : variablesName ∉ names) :
    ((∀ e, settings.putConstants after mishaps = .error e →
          settings.prepare after mishaps = (.error e, after)) ∧
        ∀ put, settings.putConstants after mishaps = .ok put →
          settings.prepare after mishaps = (.ok (), put)) ∨
      settings.Refused mishaps disk after := by
  obtain ⟨dir, hfind⟩ := isDirectory_iff.mp hdirectory
  have hdirectory' := ((handOnVariables_writes hhanded).grows.trans hwrites.grows).isDirectory
    hdirectory
  rcases handOnVariables_again (opens_of_find hfind) hhanded hwrites hother with
    hagain | ⟨hrefused, hlocked⟩
  · refine Or.inl ⟨fun e hput => ?_, fun put hput => ?_⟩
    · simp only [prepare, hdirectory', hagain, hput, if_true]
    · simp only [prepare, hdirectory', hagain, hput, if_true]
  · refine Or.inr ⟨hlocked, ?_⟩
    rw [prepare, if_pos hdirectory', hrefused]

/-- What a run prepares is there when it is prepared again, whatever modules were written since. -/
theorem prepare_again {mishaps : Mishaps} (hdirectory : disk.isDirectory settings.input = true)
    (h : settings.prepare disk mishaps = (.ok (), ready))
    (hwrites : WritesIn settings.output moduleNames ready after) :
    settings.prepare after mishaps = (.ok (), after) ∨ settings.Refused mishaps disk after := by
  rcases prepare_cases mishaps hdirectory with ⟨e, -, hfailed⟩ | ⟨handed, e, -, -, hfailed⟩ |
    ⟨handed, put, hhanded, hput, hprepared⟩
  · cases h.symm.trans hfailed
  · cases h.symm.trans hfailed
  obtain ⟨-, rfl⟩ := Prod.mk.inj (hprepared.symm.trans h)
  obtain ⟨target, htarget, hfree, hinsert⟩ := putConstants_eq_ok hput
  have hlater : WritesIn settings.output (constantsName :: moduleNames) handed after := by
    refine WritesIn.trans ?_ (hwrites.mono (List.subset_cons_self _ _))
    rw [hinsert]
    exact .of_insert htarget List.mem_cons_self hfree _ _
  refine (prepare_again_from_constants mishaps hdirectory hhanded hlater (by decide)).imp_left ?_
  rintro ⟨-, hagain⟩
  exact hagain _ (putConstants_again hput hwrites (by decide))

/-- A failure to prepare comes again, after the variables that were handed on before it. -/
theorem prepare_again_error {e : RunFailure} {mishaps : Mishaps}
    (hdirectory : disk.isDirectory settings.input = true)
    (h : settings.prepare disk mishaps = (.error e, ready)) :
    settings.prepare ready mishaps = (.error e, ready) ∨ settings.Refused mishaps disk ready := by
  rcases prepare_cases mishaps hdirectory with ⟨y, -, hfailed⟩ |
    ⟨handed, y, hhanded, hput, hfailed⟩ | ⟨handed, put, -, -, hprepared⟩
  · obtain ⟨-, rfl⟩ := Prod.mk.inj (hfailed.symm.trans h)
    exact Or.inl h
  · obtain ⟨he, rfl⟩ := Prod.mk.inj (hfailed.symm.trans h)
    obtain rfl := Except.error.inj he
    refine (prepare_again_from_constants mishaps hdirectory hhanded (.refl _ [] handed)
      (by simp)).imp_left ?_
    rintro ⟨hagain, -⟩
    exact hagain _ hput
  · cases h.symm.trans hprepared

/-- A run that came to its files comes to them again, on a disk with what it prepared and any
modules that it wrote, if it can prepare them there. -/
def Start.again {mishaps : RunMishaps} (start : settings.Start disk mishaps)
    (hdirectory : disk.isDirectory settings.input = true)
    (hwrites : WritesIn settings.output moduleNames start.ready after)
    (hprepared : settings.prepare after mishaps.constants = (.ok (), after)) :
    settings.Start after mishaps where
  files := start.files
  made := after
  ready := after
  planned := by
    have hall := (start.writes.mono sharedNames_subset_targetNames).trans
      (hwrites.mono moduleNames_subset_targetNames)
    rw [inputFiles_eq hdirectory start.makes hall, start.planned]
  output := makeDirectories_of_ok start.output (start.writes.grows.trans hwrites.grows)
  prepared := hprepared

theorem Start.again_context {mishaps : RunMishaps} (start : settings.Start disk mishaps)
    (hdirectory : disk.isDirectory settings.input = true)
    (hwrites : WritesIn settings.output moduleNames start.ready after)
    (hprepared : settings.prepare after mishaps.constants = (.ok (), after)) :
    (start.again hdirectory hwrites hprepared).context = start.context := by
  have hmade := start.makes.grows.isDirectory hdirectory
  have hall := (start.writes.mono sharedNames_subset_targetNames).trans
    (hwrites.mono moduleNames_subset_targetNames)
  obtain ⟨dir, hfind⟩ := isDirectory_iff.mp hmade
  have hnames : settings.namesDirectory start.made = settings.input := by
    rw [namesDirectory, if_pos hmade]
  have hnames' : settings.namesDirectory after = settings.input := by
    rw [namesDirectory, if_pos (hall.grows.isDirectory hmade)]
  have hlexicon := Lexicon.ofDirectory_eq hall (opens_of_find hfind)
  change Context.mk _ (.ofDirectory after (settings.namesDirectory after)) = Context.mk _ _
  rw [hnames, hnames', hlexicon]

/-- A visit made again tells the same and leaves every file as it is. -/
theorem Start.again_visit {σ τ : Type} {mishaps : RunMishaps} (start : settings.Start disk mishaps)
    (hdirectory : disk.isDirectory settings.input = true) {watcher : Watcher σ}
    {watcher' : Watcher τ} (hquiet : watcher.Quiet) (hquiet' : watcher'.Quiet) (state : σ)
    (state' : τ)
    (hprepared : settings.prepare (start.visit watcher state).disk mishaps.constants =
      (.ok (), (start.visit watcher state).disk)) :
    let first := start.visit watcher state
    let second :=
      (start.again hdirectory (start.visits watcher state).writes hprepared).visit watcher' state'
    second.status = first.status ∧ second.files = first.files ∧
      second.disk.here = first.disk.here ∧
      ∀ location, second.disk.get? location = first.disk.get? location := by
  intro first second
  have hmade := start.makes.grows.isDirectory hdirectory
  obtain ⟨dir, hopens⟩ := exists_opens_of_prepare hmade start.prepared
  have hdata : ∀ path ∈ start.files, IsDataFile start.ready settings.input path :=
    fun path hpath =>
      (start.find_ready (isDataFile_of_mem hdirectory start.planned hpath)).2
  have visits := start.visits watcher state
  have visits' :=
    (start.again hdirectory (start.visits watcher state).writes hprepared).visits watcher' state'
  rw [start.again_context] at visits'
  have hrefl := WritesIn.refl settings.output moduleNames start.ready
  obtain ⟨hstatus, hfiles⟩ := visits.agree visits' hquiet hquiet' hopens hrefl visits.writes hdata
  refine ⟨hstatus, hfiles, visits'.writes.here, fun location => ?_⟩
  rcases visits'.writes.changed location with hsame | ⟨-, -, dir', name, hname, hopens', rfl⟩
  · exact hsame
  obtain rfl := (visits.writes.grows.opens hopens).unique hopens'
  obtain ⟨format, -, rfl⟩ := List.mem_map.mp hname
  rcases hlast : lastWritten? first.files format with _ | file
  · exact visits'.module_kept hopens visits.writes hdata (by rw [hfiles]; exact hlast)
  · -- Both times the module is that of the last file written to it.
    obtain ⟨place, bytes, readOnly, text, hfind, htext, hget⟩ :=
      visits.module_held hopens hrefl hdata hlast
    obtain ⟨place', bytes', readOnly', text', hfind', htext', hget'⟩ :=
      visits'.module_held hopens visits.writes hdata (by rw [hfiles]; exact hlast)
    obtain ⟨-, hentry⟩ := Prod.mk.inj (Except.ok.inj (hfind'.symm.trans hfind))
    obtain ⟨rfl, -⟩ := Entry.file.inj hentry
    obtain ⟨-, rfl⟩ := Prod.mk.inj (Except.ok.inj (htext'.symm.trans htext))
    exact hget'.trans hget.symm

section

variable {σ τ : Type} {mishaps : RunMishaps}

/-- A run that cannot make its output directory ends in the same way again. -/
theorem run_again_of_unmade {e : AccessFailure}
    (hdirectory : disk.isDirectory settings.input = true)
    (hmade : disk.makeDirectories settings.output = (.error e, made)) (watcher : Watcher σ)
    (state : σ) :
    ∃ e', settings.run watcher state made mishaps =
        ⟨.error (.access settings.output e'), state, made⟩ ∧
      (e' = e ∨ e = .alreadyExists ∧ e' = .notADirectory ∧
        (∃ location, made.get? location ≠ disk.get? location) ∧
        (disk.IsTree → ".." ∈ settings.output.segments)) := by
  have hmakes := MakesAlong.of_makeDirectories disk settings.output
  rw [hmade] at hmakes
  obtain ⟨files, hplanned⟩ := exists_inputFiles (hmakes.grows.isDirectory hdirectory)
  obtain ⟨e', hagain, hreason⟩ := makeDirectories_of_error hmade
  refine ⟨e', ?_, hreason⟩
  simp only [run, hplanned, hagain]

/-- A run that has made its output directory fails if it cannot prepare what it left. -/
theorem run_again_of_unprepared {e : RunFailure}
    (hdirectory : disk.isDirectory settings.input = true)
    (hmade : disk.makeDirectories settings.output = (.ok (), made)) (hgrows : Grows made after)
    (hagain : settings.prepare after mishaps.constants = (.error e, after)) (watcher : Watcher σ)
    (state : σ) : settings.run watcher state after mishaps = ⟨.error e, state, after⟩ := by
  have hmakes := MakesAlong.of_makeDirectories disk settings.output
  rw [hmade] at hmakes
  obtain ⟨files, hplanned⟩ :=
    exists_inputFiles (hgrows.isDirectory (hmakes.grows.isDirectory hdirectory))
  have houtput := makeDirectories_of_ok hmade hgrows
  simp only [run, hplanned, houtput, hagain]

/-- A run over a directory, made again on the disk that it left, changes nothing and tells the same,
wherever the output directory lies, however the first run ended and whatever goes wrong with files
in passing, both times. There are two exceptions. A directory cannot be made since a file in the way
exists, if the way to it was missing at first and had to be made; once that way is there, the file
is no directory. On a tree this takes a path that leads up again from a directory that was missing.
And a copy of read-only variables is read-only, so the second run may not write it. -/
theorem run_idempotent (settings : Settings) (watcher : Watcher σ) (state : σ)
    (watcher' : Watcher τ) (state' : τ) (disk : Disk) (mishaps : RunMishaps)
    (hquiet : watcher.Quiet) (hquiet' : watcher'.Quiet)
    (hdirectory : disk.isDirectory settings.input = true) :
    let first := settings.run watcher state disk mishaps
    let second := settings.run watcher' state' first.disk mishaps
    (second.disk.here = first.disk.here ∧
        ∀ location, second.disk.get? location = first.disk.get? location) ∧
      (second.report = first.report ∨
        (first.report = .error (.access settings.output .alreadyExists) ∧
          second.report = .error (.access settings.output .notADirectory) ∧
          (∃ location, first.disk.get? location ≠ disk.get? location) ∧
          (disk.IsTree → ".." ∈ settings.output.segments)) ∨
        second.report =
            .error (.access (settings.output.join variablesName) .permissionDenied) ∧
          settings.LocksVariables disk first.disk) := by
  intro first second
  obtain ⟨dir, hfind⟩ := isDirectory_iff.mp hdirectory
  have hmakes := MakesAlong.of_makeDirectories disk settings.output
  -- Preparing was refused on the disk that the first run left.
  have hrefused {made final : Disk} (hmade : disk.makeDirectories settings.output = (.ok (), made))
      (hdisk : first.disk = final) (hgrows : Grows made final)
      (h : settings.Refused mishaps.constants made final) :
      second = ⟨.error (.access (settings.output.join variablesName) .permissionDenied), state',
          first.disk⟩ ∧ settings.LocksVariables disk first.disk := by
    rw [hmade] at hmakes
    subst hdisk
    exact ⟨run_again_of_unprepared hdirectory hmade hgrows h.2 watcher' state',
      h.1.of_makes hmakes (opens_of_find hfind)⟩
  rcases run_cases settings watcher state disk mishaps with ⟨e, hmissing, -⟩ |
    ⟨e, made, hmade, hrun⟩ | ⟨e, made, ready, hmade, hready, hrun⟩ | ⟨⟨start⟩⟩
  · obtain ⟨files, hplanned⟩ := exists_inputFiles hdirectory
    cases hmissing.symm.trans hplanned
  · obtain ⟨e', hagain, hreason⟩ := run_again_of_unmade hdirectory hmade watcher' state'
    have hfirst : first = ⟨.error (.access settings.output e), state, made⟩ := hrun
    have hdisk : first.disk = made := congrArg RunResult.disk hfirst
    have hsecond : second = ⟨.error (.access settings.output e'), state', made⟩ :=
      (congrArg (settings.run watcher' state' · mishaps) hdisk).trans hagain
    rw [hsecond, hfirst]
    refine ⟨⟨rfl, fun _ => rfl⟩, ?_⟩
    rcases hreason with rfl | ⟨rfl, rfl, hchanged, hup⟩
    · exact Or.inl rfl
    · exact Or.inr (Or.inl ⟨rfl, rfl, hchanged, hup⟩)
  · have hfirst : first = ⟨.error e, state, ready⟩ := hrun
    have hdisk : first.disk = ready := congrArg RunResult.disk hfirst
    have hgrows : Grows made ready := by
      have hwrites := prepare_writes_shared settings made mishaps.constants
      rw [hready] at hwrites
      exact hwrites.grows
    have hinput : made.isDirectory settings.input = true := by
      rw [hmade] at hmakes
      exact hmakes.grows.isDirectory hdirectory
    rcases prepare_again_error hinput hready with hagain | hlocked
    · have hsecond : second = ⟨.error e, state', ready⟩ :=
        (congrArg (settings.run watcher' state' · mishaps) hdisk).trans
          (run_again_of_unprepared hdirectory hmade hgrows hagain watcher' state')
      rw [hsecond, hfirst]
      exact ⟨⟨rfl, fun _ => rfl⟩, Or.inl rfl⟩
    · obtain ⟨hsecond, hlocks⟩ := hrefused hmade hdisk hgrows hlocked
      rw [hsecond]
      exact ⟨⟨rfl, fun _ => rfl⟩, Or.inr (Or.inr ⟨rfl, hlocks⟩)⟩
  · have hfirst : first = _ := start.run_eq watcher state
    have hdisk : first.disk = (start.visit watcher state).disk := congrArg RunResult.disk hfirst
    have hwrites := (start.visits watcher state).writes
    rcases prepare_again (start.makes.grows.isDirectory hdirectory) start.prepared hwrites with
      hprepared | hlocked
    · obtain ⟨hstatus, hfiles, hhere, hget⟩ :=
        start.again_visit hdirectory hquiet hquiet' state state' hprepared
      have hsecond : second = _ := (congrArg (settings.run watcher' state' · mishaps) hdisk).trans
        ((start.again hdirectory hwrites hprepared).run_eq watcher' state')
      rw [hsecond, hfirst]
      refine ⟨⟨hhere, hget⟩, Or.inl ?_⟩
      rw [hstatus, hfiles]
    · obtain ⟨hsecond, hlocks⟩ :=
        hrefused start.output hdisk (start.writes.grows.trans hwrites.grows) hlocked
      rw [hsecond]
      exact ⟨⟨rfl, fun _ => rfl⟩, Or.inr (Or.inr ⟨rfl, hlocks⟩)⟩

/-- A run into a directory below its input that has to be made. One file fails, and two others are
made into one module. -/
theorem run_idempotent_below_input :
    let settings : Settings := { input := ⟨"in"⟩, output := ⟨"in/../in/./made/"⟩ }
    let disk : Disk := {
      entries := [(["in"], .directory),
        (["in", "conversation.txt"], .file "scriptsfile version 1\n0".toUTF8),
        (["in", "menus.txt"], .file "scriptsfile version 1\n1".toUTF8),
        (["in", "scripts.txt"], .file "scriptsfile version 1\n1\nf -1\n0".toUTF8),
        (["in", "variables.txt"], .file "g".toUTF8)]
      here := [] }
    ∃ report, (settings.run Watcher.counting 0 disk).report = .ok report ∧
      report.status = .completedWithErrors ∧ report.files.length = 3 ∧
      disk.get? ["in", "made"] = none ∧
      (settings.run Watcher.counting 7 (settings.run Watcher.counting 0 disk).disk).report =
        .ok report ∧
      ∀ location,
        (settings.run Watcher.counting 7 (settings.run Watcher.counting 0 disk).disk).disk.get?
            location = (settings.run Watcher.counting 0 disk).disk.get? location := by
  intro settings disk
  have hquiet : Watcher.counting.Quiet := fun _ => ⟨rfl, rfl⟩
  obtain ⟨⟨-, hdisk⟩, hreport⟩ := run_idempotent settings Watcher.counting 0 Watcher.counting 7 disk
    {} hquiet hquiet (by decide +kernel)
  let failure : RunFailure := .decode ⟨"in/menus.txt"⟩ (.read (.endOfStream 2))
  let target : Path := ⟨"in/../in/./made/module_scripts.py"⟩
  let report : Report := ⟨.standard, .completedWithErrors,
    [⟨⟨"in/conversation.txt"⟩, .written .scripts target⟩,
      ⟨⟨"in/menus.txt"⟩, .failed failure.message failure.line?⟩,
      ⟨⟨"in/scripts.txt"⟩, .written .scripts target⟩]⟩
  have hrun : (settings.run Watcher.counting 0 disk).report = .ok report := by decide +kernel
  refine ⟨report, hrun, rfl, rfl, by decide, ?_, hdisk⟩
  rcases hreport with hsame | ⟨hfailed, -⟩ | ⟨-, origin, bytes, target, hfind, -⟩
  · exact hsame.trans hrun
  · cases hrun.symm.trans hfailed
  · have hwritable : disk.find (settings.input.join variablesName) =
        .ok (["in", "variables.txt"], .file "g".toUTF8) := by decide +kernel
    cases hwritable.symm.trans hfind

/-- A run made again can tell something else. The directory `a` is missing at first, and made on the
way to a file that is no directory; and read-only variables are handed on once. -/
theorem run_again_other_reason :
    let blocked : Settings := { input := ⟨"in"⟩, output := ⟨"a/../f/x"⟩ }
    let copying : Settings := { input := ⟨"in"⟩, output := ⟨"out"⟩ }
    let disk : Disk := {
      entries := [(["in"], .directory), (["in", "variables.txt"], .file "g".toUTF8 true),
        (["f"], .file "x".toUTF8)]
      here := [] }
    let first (settings : Settings) := settings.run Watcher.counting 0 disk
    let second (settings : Settings) := settings.run Watcher.counting 0 (first settings).disk
    disk.isDirectory ⟨"in"⟩ = true ∧
      ((first blocked).report = .error (.access blocked.output .alreadyExists) ∧
        (second blocked).report = .error (.access blocked.output .notADirectory)) ∧
      (first copying).report = .ok ⟨.standard, .completed, []⟩ ∧
        (second copying).report = .error (.access ⟨"out/variables.txt"⟩ .permissionDenied) := by
  decide +kernel

end

end Settings

end ModuleSource
