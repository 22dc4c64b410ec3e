import ModuleSource.Proofs.Decoder.Cancellation
import ModuleSource.Proofs.Disk.Effect
import ModuleSource.Proofs.Run.Visit

/-!
What a run changes on the disk. Each step writes under a few fixed names in the output directory,
and none of them is the name of a data file; the rest follows from how writes compose. A file whose
module cannot be generated or published leaves no trace.
-/

namespace ModuleSource

open Disk

/-- The names of the generated modules. -/
def moduleNames : List String := Format.all.map Format.moduleFile

/-- The names of what the generated modules share. -/
def sharedNames : List String := [variablesName, constantsName]

/-- The names under which a run writes. -/
def targetNames : List String := sharedNames ++ moduleNames

namespace Format

theorem moduleFile_mem_moduleNames (format : Format) : format.moduleFile ∈ moduleNames :=
  List.mem_map_of_mem (by cases format <;> decide)

theorem isName_moduleFile (format : Format) : IsName format.moduleFile := by
  cases format <;> decide

theorem moduleFile_not_mem_sharedNames (format : Format) : format.moduleFile ∉ sharedNames := by
  cases format <;> decide

theorem moduleFile_inj {format other : Format} (h : format.moduleFile = other.moduleFile) :
    format = other := by
  cases format <;> cases other <;> first | rfl | exact absurd h (by decide)

end Format

theorem moduleNames_subset_targetNames : moduleNames ⊆ targetNames :=
  List.subset_append_right _ _

theorem sharedNames_subset_targetNames : sharedNames ⊆ targetNames :=
  List.subset_append_left _ _

theorem isName_of_mem_dataFiles : ∀ name ∈ dataFiles, IsName name := by decide

theorem not_mem_targetNames_of_mem_dataFiles : ∀ name ∈ dataFiles, name ∉ targetNames := by decide

section Production

variable {context : Context} {signal : StopSignal} {input output : Path} {disk : Disk}
  {mishaps : Mishaps}

/-- A stop keeps a module from being generated, or makes no difference. -/
theorem moduleOfBytes_stops (context : Context) (signal : StopSignal) (input : Path)
    (bytes : ByteArray) : moduleOfBytes context signal input bytes = .error .cancelled ∨
      moduleOfBytes context signal input bytes = moduleOfBytes context .never input bytes := by
  unfold moduleOfBytes
  rcases openFile bytes with e | ⟨line, source⟩
  · exact Or.inr rfl
  dsimp only
  rcases Format.ofSignature? line with _ | format
  · exact Or.inr rfl
  by_cases hseen : (format.decoder context.operators).Sees signal 1 source
  · left
    simp only [Format.generate_cancelled_iff.mpr hseen]
  · right
    simp only [Format.generate_of_not_sees hseen]

theorem moduleOfBytes_never_ne_cancelled (context : Context) (input : Path) (bytes : ByteArray) :
    moduleOfBytes context .never input bytes ≠ .error .cancelled := by
  unfold moduleOfBytes
  rcases openFile bytes with e | ⟨line, source⟩
  · intro h
    cases h
  dsimp only
  rcases Format.ofSignature? line with _ | format
  · intro h
    cases h
  have hunseen : (format.generate context .never 1 source).1 ≠ .error .cancelled := by
    intro hcancelled
    obtain ⟨moment, -, hseen⟩ := Format.generate_cancelled_iff.mp hcancelled
    cases hseen
  dsimp only
  split
  · intro h
    cases h
  · next hcancelled => exact absurd hcancelled hunseen
  · intro h
    cases h

/-- A module is generated after the first line, which tells the format. -/
theorem moduleOfBytes_eq_ok_iff {bytes : ByteArray} {format : Format} {text : String} :
    moduleOfBytes context signal input bytes = .ok (format, text) ↔
      ∃ line source, openFile bytes = .ok (line, source) ∧
        Format.ofSignature? line = some format ∧
        (format.generate context signal 1 source).1 = .ok text := by
  unfold moduleOfBytes
  rcases openFile bytes with e | ⟨line, source⟩
  · simp
  · dsimp only
    rcases hformat : Format.ofSignature? line with _ | found
    · simp [hformat]
    · dsimp only
      rcases hgenerate : (found.generate context signal 1 source).1 with e | generated
      · constructor
        · intro h
          cases e <;> cases h
        · rintro ⟨_, _, hsame, hfound, htext⟩
          obtain ⟨rfl, rfl⟩ := Prod.mk.inj (Except.ok.inj hsame)
          obtain rfl := Option.some.inj (hformat.symm.trans hfound)
          cases hgenerate.symm.trans htext
      · simp only [Except.ok.injEq, Prod.mk.injEq]
        constructor
        · rintro ⟨rfl, rfl⟩
          exact ⟨line, source, ⟨rfl, rfl⟩, hformat, hgenerate⟩
        · rintro ⟨_, _, ⟨rfl, rfl⟩, hsame, htext⟩
          obtain rfl := Option.some.inj (hformat.symm.trans hsame)
          exact ⟨rfl, Except.ok.inj (hgenerate.symm.trans htext)⟩

theorem produceModule_stops (context : Context) (signal : StopSignal) (input output : Path)
    (disk : Disk) (mishaps : Mishaps) :
    produceModule context signal input output disk mishaps = (.error .cancelled, disk) ∨
      produceModule context signal input output disk mishaps =
        produceModule context .never input output disk mishaps := by
  unfold produceModule
  rw [StopSignal.never_eq_false, if_neg Bool.false_ne_true]
  split
  · exact Or.inl rfl
  rcases disk.find input with e | ⟨location, ⟨bytes, readOnly⟩ | _⟩
  · exact Or.inr rfl
  · rcases moduleOfBytes_stops context signal input bytes with hstopped | hsame
    · exact Or.inl (by simp only [hstopped])
    · exact Or.inr (by simp only [hsame])
  · exact Or.inr rfl

theorem produceModule_never_ne_cancelled (context : Context) (input output : Path) (disk : Disk)
    (mishaps : Mishaps) :
    (produceModule context .never input output disk mishaps).1 ≠ .error .cancelled := by
  unfold produceModule
  rw [StopSignal.never_eq_false, if_neg Bool.false_ne_true]
  rcases disk.find input with e | ⟨location, ⟨bytes, readOnly⟩ | _⟩
  · intro h
    cases h
  · dsimp only
    rcases hmodule : moduleOfBytes context .never input bytes with e | ⟨format, text⟩
    · intro h
      exact moduleOfBytes_never_ne_cancelled context input bytes
        (hmodule.trans (congrArg Except.error (Except.error.inj h)))
    · dsimp only
      split <;> intro h <;> cases h
  · intro h
    cases h

/-- What becomes of a file that nobody stops, if the output directory is there. -/
theorem produceModule_of_find {location dir : Location} {bytes : ByteArray} {readOnly : Bool}
    (hfind : disk.find input = .ok (location, .file bytes readOnly))
    (hopens : disk.Opens output dir) :
    produceModule context .never input output disk mishaps =
      match moduleOfBytes context .never input bytes with
      | .error e => (.error e, disk)
      | .ok (format, text) =>
        match disk.refusal? output dir format.moduleFile mishaps with
        | some e => (.error (.access (output.join format.moduleFile) e), disk)
        | none => (.ok (format, output.join format.moduleFile),
            disk.insert (dir ++ [format.moduleFile]) (.file text.toUTF8)) := by
  unfold produceModule
  rw [StopSignal.never_eq_false, if_neg Bool.false_ne_true, hfind]
  dsimp only
  rcases moduleOfBytes context .never input bytes with e | ⟨format, text⟩
  · rfl
  · dsimp only
    rw [publish_of_opens hopens format.isName_moduleFile]
    rcases disk.refusal? output dir format.moduleFile mishaps with _ | e <;> rfl

/-- A module that was produced is published under the name of its format. -/
theorem produceModule_eq_ok {format : Format} {target : Path}
    (h : (produceModule context signal input output disk mishaps).1 = .ok (format, target)) :
    target = output.join format.moduleFile ∧ ∃ location bytes readOnly text after,
      disk.find input = .ok (location, .file bytes readOnly) ∧
      moduleOfBytes context signal input bytes = .ok (format, text) ∧
      disk.publish output format.moduleFile text.toUTF8 mishaps = .ok after := by
  unfold produceModule at h
  split at h
  · cases h
  rcases hfind : disk.find input with e | ⟨location, ⟨bytes, readOnly⟩ | _⟩
  · rw [hfind] at h
    cases h
  · rw [hfind] at h
    dsimp only at h
    rcases hmodule : moduleOfBytes context signal input bytes with e | ⟨made, text⟩
    · rw [hmodule] at h
      cases h
    · rw [hmodule] at h
      dsimp only at h
      split at h
      · cases h
      · next after hpublish =>
        obtain ⟨rfl, rfl⟩ := Prod.mk.inj (Except.ok.inj h)
        exact ⟨rfl, location, bytes, readOnly, text, after, rfl, hmodule, hpublish⟩
  · rw [hfind] at h
    cases h

theorem produceModule_writes {result : Except RunFailure (Format × Path)} {after : Disk}
    (h : produceModule context signal input output disk mishaps = (result, after)) :
    WritesIn output moduleNames disk after := by
  obtain rfl : (produceModule context signal input output disk mishaps).2 = after :=
    congrArg Prod.snd h
  unfold produceModule
  split
  · exact .refl _ _ disk
  rcases disk.find input with e | ⟨location, ⟨bytes, readOnly⟩ | _⟩
  · exact .refl _ _ disk
  · dsimp only
    rcases moduleOfBytes context signal input bytes with e | ⟨format, text⟩
    · exact .refl _ _ disk
    · dsimp only
      split
      · exact .refl _ _ disk
      · next after hpublish =>
        obtain ⟨dir, hopens, hfree, rfl⟩ := publish_eq_ok format.isName_moduleFile hpublish
        exact .of_insert hopens format.moduleFile_mem_moduleNames hfree _ _
  · exact .refl _ _ disk

end Production

theorem Visits.writes {σ : Type} {settings : Settings} {context : Context} {mishaps : RunMishaps}
    {watcher : Watcher σ} {files : List Path} {failed : Bool} {state : σ} {disk : Disk}
    {visited : Visit σ}
    (h : Visits settings context mishaps watcher files failed state disk visited) :
    WritesIn settings.output moduleNames disk visited.disk := by
  induction h with
  | finished => exact .refl _ _ _
  | stopped stop => exact .refl _ _ _
  | ended go produced ends => exact produceModule_writes produced
  | onward go produced goesOn tail ih => exact (produceModule_writes produced).trans ih

namespace Settings

variable {settings : Settings} {disk handed after : Disk} {dir : Location} {mishaps : Mishaps}

/-- Variables that are handed on without a failure are copied, unless there are none or they are
seen to be in place. -/
theorem handOnVariables_eq_ok (h : settings.handOnVariables disk = .ok after) :
    (after = disk ∧ ∀ origin bytes readOnly,
        disk.find (settings.input.join variablesName) ≠ .ok (origin, .file bytes readOnly)) ∨
      (after = disk ∧ disk.same (settings.input.join variablesName)
        (settings.output.join variablesName) = true) ∨
      ∃ origin bytes readOnly,
        disk.find (settings.input.join variablesName) = .ok (origin, .file bytes readOnly) ∧
        disk.same (settings.input.join variablesName)
          (settings.output.join variablesName) = false ∧
        disk.copy origin bytes readOnly (settings.output.join variablesName) = .ok after := by
  unfold handOnVariables at h
  dsimp only at h
  split at h
  · next origin bytes readOnly hfind =>
    split at h
    · next hsame => exact Or.inr (Or.inl ⟨(Except.ok.inj h).symm, hsame⟩)
    next hdiffer =>
    split at h
    · next copied hcopy =>
      obtain rfl := Except.ok.inj h
      exact Or.inr (Or.inr ⟨origin, bytes, readOnly, hfind, by simpa using hdiffer, hcopy⟩)
    · cases h
  · next hmissing => exact Or.inl ⟨(Except.ok.inj h).symm, hmissing⟩

theorem handOnVariables_of_missing (h : ∀ origin bytes readOnly,
    disk.find (settings.input.join variablesName) ≠ .ok (origin, .file bytes readOnly)) :
    settings.handOnVariables disk = .ok disk := by
  unfold handOnVariables
  dsimp only
  split
  · next origin bytes readOnly hfind => exact absurd hfind (h origin bytes readOnly)
  · rfl

theorem handOnVariables_of_same (h : disk.same (settings.input.join variablesName)
    (settings.output.join variablesName) = true) : settings.handOnVariables disk = .ok disk := by
  unfold handOnVariables
  dsimp only
  split
  · rw [h, if_pos rfl]
  · rfl

theorem handOnVariables_of_copy {origin : Location} {bytes : ByteArray} {readOnly : Bool}
    (hfind : disk.find (settings.input.join variablesName) = .ok (origin, .file bytes readOnly))
    (hdiffer : disk.same (settings.input.join variablesName)
      (settings.output.join variablesName) = false) :
    settings.handOnVariables disk =
      (disk.copy origin bytes readOnly (settings.output.join variablesName)).mapError
        (.access (settings.output.join variablesName)) := by
  unfold handOnVariables
  dsimp only
  rw [hfind]
  dsimp only
  rw [hdiffer, if_neg Bool.false_ne_true]
  rcases disk.copy origin bytes readOnly (settings.output.join variablesName) with e | copied
    <;> rfl

theorem handOnVariables_writes (h : settings.handOnVariables disk = .ok after) :
    WritesIn settings.output [variablesName] disk after := by
  rcases handOnVariables_eq_ok h with ⟨rfl, -⟩ | ⟨rfl, -⟩ | ⟨origin, bytes, readOnly, -, -, hcopy⟩
  · exact .refl _ _ _
  · exact .refl _ _ _
  · obtain ⟨dir, hopens, -, hfree, -, rfl⟩ := copy_join (by decide) hcopy
    exact .of_insert hopens List.mem_cons_self hfree _ _

/-- In the directory that they come from the variables are left alone, unless one of the two paths
to them cannot be resolved: then they are copied onto themselves, and lost. -/
theorem handOnVariables_inPlace (hinput : disk.Opens settings.input dir)
    (houtput : disk.Opens settings.output dir) (h : settings.handOnVariables disk = .ok after) :
    after = disk ∨ ¬ (disk.Resolves (settings.input.join variablesName) ∧
        disk.Resolves (settings.output.join variablesName)) ∧
      ∃ bytes, disk.get? (dir ++ [variablesName]) = some (.file bytes) ∧
        after = disk.insert (dir ++ [variablesName]) (.file .empty) := by
  have hname : IsName variablesName := by decide
  rcases handOnVariables_eq_ok h with ⟨hkept, -⟩ | ⟨hkept, -⟩ |
    ⟨origin, bytes, readOnly, hfind, hdiffer, hcopy⟩
  · exact Or.inl hkept
  · exact Or.inl hkept
  have hsource := (reach_join_eq_ok_iff hname).mpr ⟨dir, hinput, rfl⟩
  have htarget := (reach_join_eq_ok_iff hname).mpr ⟨dir, houtput, rfl⟩
  obtain ⟨-, hreach, hentry⟩ := find_eq_ok_iff.mp hfind
  obtain rfl : origin = dir ++ [variablesName] := Except.ok.inj (hreach.symm.trans hsource)
  obtain ⟨dir', hopens, -, -, hwritable, rfl⟩ := copy_join hname hcopy
  obtain rfl := hopens.unique houtput
  refine Or.inr ⟨fun hresolves => ?_, bytes, ?_, ?_⟩
  · rw [same_of_resolves hresolves.1 hresolves.2 hsource htarget (by simp [hentry])] at hdiffer
    cases hdiffer
  · cases readOnly with
    | false => exact hentry
    | true => exact absurd hentry (hwritable bytes)
  · cases readOnly with
    | false => rw [if_pos rfl]
    | true => exact absurd hentry (hwritable bytes)

theorem putConstants_eq_ok (h : settings.putConstants disk mishaps = .ok after) :
    ∃ dir, disk.Opens settings.output dir ∧ disk.get? (dir ++ [constantsName]) ≠ some .directory ∧
      after = disk.insert (dir ++ [constantsName])
        (.file settings.engine.constants.toUTF8) := by
  unfold putConstants at h
  dsimp only at h
  split at h
  · next written hpublish =>
    obtain rfl := Except.ok.inj h
    exact publish_eq_ok (by decide) hpublish
  · cases h

/-- The disk after variables were handed on, or as it was if the run did not come to that. -/
def HandsOn (settings : Settings) (disk handed : Disk) : Prop :=
  handed = disk ∨ settings.handOnVariables disk = .ok handed

theorem HandsOn.writes (h : settings.HandsOn disk handed) :
    WritesIn settings.output [variablesName] disk handed := by
  rcases h with rfl | h
  · exact .refl _ _ _
  · exact handOnVariables_writes h

/-- After the variables preparing only writes the constants. -/
theorem prepare_writes_constants (mishaps : Mishaps)
    (hdirectory : disk.isDirectory settings.input = true)
    (h : settings.handOnVariables disk = .ok handed) :
    WritesIn settings.output [constantsName] handed (settings.prepare disk mishaps).2 := by
  unfold prepare
  rw [if_pos hdirectory, h]
  dsimp only
  rcases hput : settings.putConstants handed mishaps with e | put
  · exact .refl _ _ handed
  · obtain ⟨dir, hopens, hfree, rfl⟩ := putConstants_eq_ok hput
    exact .of_insert hopens (List.mem_singleton_self _) hfree _ _

/-- Preparing hands the variables on and writes the constants. -/
theorem prepare_effect (settings : Settings) (disk : Disk) (mishaps : Mishaps) :
    ∃ handed, settings.HandsOn disk handed ∧
      WritesIn settings.output [constantsName] handed (settings.prepare disk mishaps).2 := by
  by_cases hdirectory : disk.isDirectory settings.input = true
  · rcases hhanded : settings.handOnVariables disk with e | handed
    · refine ⟨disk, Or.inl rfl, ?_⟩
      rw [prepare, if_pos hdirectory, hhanded]
      exact .refl _ _ disk
    · exact ⟨handed, Or.inr hhanded, prepare_writes_constants mishaps hdirectory hhanded⟩
  · refine ⟨disk, Or.inl rfl, ?_⟩
    rw [prepare, if_neg hdirectory]
    exact .refl _ _ disk

theorem prepare_writes_shared (settings : Settings) (disk : Disk) (mishaps : Mishaps) :
    WritesIn settings.output sharedNames disk (settings.prepare disk mishaps).2 := by
  obtain ⟨handed, hhanded, hwrites⟩ := prepare_effect settings disk mishaps
  exact (hhanded.writes.mono (by decide)).trans (hwrites.mono (by decide))

/-- Over a directory the constants are written, so the output directory is there. -/
theorem exists_opens_of_prepare (hdirectory : disk.isDirectory settings.input = true)
    (h : settings.prepare disk mishaps = (.ok (), after)) :
    ∃ dir, after.Opens settings.output dir := by
  unfold prepare at h
  rw [if_pos hdirectory] at h
  rcases hhanded : settings.handOnVariables disk with e | handed
  · rw [hhanded] at h
    cases h
  rw [hhanded] at h
  dsimp only at h
  rcases hput : settings.putConstants handed mishaps with e | put
  · rw [hput] at h
    cases h
  rw [hput] at h
  obtain ⟨-, rfl⟩ := Prod.mk.inj h
  obtain ⟨dir, hopens, hfree, rfl⟩ := putConstants_eq_ok hput
  have hwrites := WritesIn.of_insert hopens (List.mem_singleton_self constantsName) hfree
    settings.engine.constants.toUTF8 false
  exact ⟨dir, hwrites.grows.opens hopens⟩

/-- Preparing fails only where the system refuses a path. -/
theorem prepare_error {e : RunFailure} (h : settings.prepare disk mishaps = (.error e, after)) :
    ∃ path cause, e = .access path cause := by
  unfold prepare handOnVariables putConstants at h
  grind

/-- What may be otherwise on a disk after a run: directories are there that were missing, on the way
to the output directory, and files with the names of the run in that directory. -/
structure Confined (output : Path) (before after : Disk) : Prop where
  here : after.here = before.here
  changed : ∀ location, after.get? location = before.get? location ∨
    (before.get? location = none ∧ after.get? location = some .directory ∧
      ∃ segments, output.MadeAlong segments ∧
        after.walk (after.start output) segments = .ok location) ∨
    (before.get? location ≠ some .directory ∧
      (∃ bytes readOnly, after.get? location = some (.file bytes readOnly)) ∧
      ∃ dir, after.Opens output dir ∧ ∃ name ∈ targetNames, location = dir ++ [name])

theorem Confined.of_makes_writes {output : Path} {before made after : Disk}
    (hmakes : MakesAlong (before.start output) output.MadeAlong before made)
    (hwrites : WritesIn output targetNames made after) : Confined output before after := by
  have hstart : after.start output = before.start output :=
    (hwrites.grows.start_eq output).trans (hmakes.grows.start_eq output)
  refine ⟨hwrites.here.trans hmakes.here, fun location => ?_⟩
  rcases hwrites.changed location with hsame | ⟨hfree, hfile, dir, name, hname, hopens, hlocation⟩
  · rw [hsame]
    rcases hmakes.changed location with hfirst | ⟨hnone, hmade, segments, halong, hwalk⟩
    · exact Or.inl hfirst
    · refine Or.inr (Or.inl ⟨hnone, hmade, segments, halong, ?_⟩)
      rw [hstart]
      exact hwrites.grows.walk hwalk
  · refine Or.inr (Or.inr ⟨?_, hfile, dir, hwrites.grows.opens hopens, name, hname, hlocation⟩)
    exact fun hdir => hfree (hmakes.grows.directory location hdir)

section Running

variable {σ : Type} {mishaps : RunMishaps}

theorem Start.makes (start : settings.Start disk mishaps) :
    MakesAlong (disk.start settings.output) settings.output.MadeAlong disk start.made := by
  have hmakes := MakesAlong.of_makeDirectories disk settings.output
  rwa [start.output] at hmakes

theorem Start.writes (start : settings.Start disk mishaps) :
    WritesIn settings.output sharedNames start.made start.ready := by
  have hwrites := prepare_writes_shared settings start.made mishaps.constants
  rwa [start.prepared] at hwrites

/-- A run that has made its output directory and prepared what it can only writes modules. -/
theorem run_writes_modules {files : List Path} {made : Disk} (mishaps : RunMishaps)
    (watcher : Watcher σ) (state : σ)
    (hplanned : settings.inputFiles disk = .ok files)
    (hmade : disk.makeDirectories settings.output = (.ok (), made)) :
    WritesIn settings.output moduleNames (settings.prepare made mishaps.constants).2
      (settings.run watcher state disk mishaps).disk := by
  rcases hready : settings.prepare made mishaps.constants with ⟨e | ⟨⟩, ready⟩
  · simp only [run, hplanned, hmade, hready]
    exact .refl _ _ _
  · let start : settings.Start disk mishaps := ⟨files, made, ready, hplanned, hmade, hready⟩
    rw [start.run_eq]
    exact (start.visits watcher state).writes

/-- A run makes directories, hands the variables on and then writes under its other names. -/
theorem run_effect (settings : Settings) (watcher : Watcher σ) (state : σ) (disk : Disk)
    (mishaps : RunMishaps) :
    ∃ made handed,
      MakesAlong (disk.start settings.output) settings.output.MadeAlong disk made ∧
      settings.HandsOn made handed ∧
      WritesIn settings.output (constantsName :: moduleNames) handed
        (settings.run watcher state disk mishaps).disk := by
  have hmakes := MakesAlong.of_makeDirectories disk settings.output
  rcases hplanned : settings.inputFiles disk with e | files
  · simp only [run, hplanned]
    exact ⟨disk, disk, .refl _ _ disk, Or.inl rfl, .refl _ _ disk⟩
  rcases hmade : disk.makeDirectories settings.output with ⟨e | ⟨⟩, made⟩
  · simp only [run, hplanned, hmade]
    rw [hmade] at hmakes
    exact ⟨made, made, hmakes, Or.inl rfl, .refl _ _ made⟩
  · rw [hmade] at hmakes
    obtain ⟨handed, hhanded, hwrites⟩ := prepare_effect settings made mishaps.constants
    refine ⟨made, handed, hmakes, hhanded, (hwrites.mono (by simp)).trans ?_⟩
    exact (run_writes_modules mishaps watcher state hplanned hmade).mono (List.subset_cons_self _ _)

/-- What a run writes has one of its names, and comes after the directories that it makes. -/
theorem run_makes_writes (settings : Settings) (watcher : Watcher σ) (state : σ) (disk : Disk)
    (mishaps : RunMishaps) :
    ∃ made, MakesAlong (disk.start settings.output) settings.output.MadeAlong disk made ∧
      WritesIn settings.output targetNames made
        (settings.run watcher state disk mishaps).disk := by
  obtain ⟨made, handed, hmakes, hhanded, hwrites⟩ := run_effect settings watcher state disk mishaps
  exact ⟨made, hmakes, (hhanded.writes.mono (by decide)).trans (hwrites.mono (by decide))⟩

end Running

end Settings

end ModuleSource
