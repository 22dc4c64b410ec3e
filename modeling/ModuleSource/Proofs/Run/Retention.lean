import ModuleSource.Proofs.Run.Isolation

/-!
Which modules a run keeps. A module is named by its format, and the format of a file is told by its
first line alone. So two files that start alike go to one path, where the run leaves the module of
the later one and reports both. A module that no later file is written to is that of its own file.
-/

namespace ModuleSource

open Disk

/-- The file at a path gives a module of a format. -/
def Yields (context : Context) (disk : Disk) (input : Path) (format : Format) (text : String) :
    Prop :=
  ∃ bytes, disk.read input = .ok bytes ∧
    moduleOfBytes context .never input bytes = .ok (format, text)

theorem Yields.of_run {context : Context} {disk : Disk} {input : Path} {bytes : ByteArray}
    {line : String} {source source' : Source} {format : Format} {records : List format.Record}
    (hread : disk.read input = .ok bytes) (hopen : openFile bytes = .ok (line, source))
    (hformat : Format.ofSignature? line = some format)
    (hrun : (format.decoder context.operators).run .never 1 source = (.ok records, source')) :
    Yields context disk input format (format.render context.lexicon records) := by
  refine ⟨bytes, hread, moduleOfBytes_eq_ok_iff.mpr ⟨line, source, hopen, hformat, ?_⟩⟩
  rw [Format.generate_eq_ok.mpr ⟨records, hrun, rfl⟩]

namespace Outcome

/-- The path of the module that a file was made into. -/
def output? : Outcome → Option Path
  | written _ output => some output
  | _ => none

theorem ofResult_eq_written_iff {result : Except RunFailure (Format × Path)} {format : Format}
    {output : Path} : Outcome.ofResult result = .written format output ↔
      result = .ok (format, output) := by
  rcases result with e | ⟨made, path⟩
  · cases e <;> simp [Outcome.ofResult]
  · simp [Outcome.ofResult]

theorem format?_eq_some_iff {outcome : Outcome} {format : Format} :
    outcome.format? = some format ↔ ∃ output, outcome = .written format output := by
  cases outcome <;> simp [format?]

end Outcome

theorem lastWritten?_append_cons {before after : List FileRecord} {file : FileRecord}
    {format : Format} (hfile : file.outcome.format? = some format)
    (hafter : ∀ later ∈ after, later.outcome.format? ≠ some format) :
    lastWritten? (before ++ file :: after) format = some file := by
  have hnone : after.filter (fun file => file.outcome.format? = some format) = [] :=
    List.filter_eq_nil_iff.mpr fun later hlater => by simpa using hafter later hlater
  unfold lastWritten?
  rw [List.filter_append, List.filter_cons_of_pos (by simpa using hfile), hnone,
    List.getLast?_concat]

namespace Settings

variable {σ : Type} {settings : Settings} {disk : Disk} {mishaps : RunMishaps}

/-- Of the files that a report says were written, two go to one path exactly if they have the same
format. Each gives a module, which is at its path in the end if no later file went there. -/
structure Start.Retained (start : settings.Start disk mishaps) (report : Report) (final : Disk) :
    Prop where
  path_eq_iff : ∀ a ∈ report.files, ∀ b ∈ report.files, ∀ f p g q, a.outcome = .written f p →
    b.outcome = .written g q → (p = q ↔ f = g)
  kept : ∀ before file after format output, report.files = before ++ file :: after →
    file.outcome = .written format output →
    ∃ text, Yields start.context disk file.input format text ∧
      ((∀ later ∈ after, later.outcome.output? ≠ some output) →
        final.read output = .ok text.toUTF8)

/-- The files of a report on a directory are data files in it. -/
theorem Start.isDataFile_of_mem_files (start : settings.Start disk mishaps)
    {watcher : Watcher σ} {state : σ} {report : Report}
    (hdirectory : disk.isDirectory settings.input = true)
    (h : (settings.run watcher state disk mishaps).report = .ok report) {file : FileRecord}
    (hfile : file ∈ report.files) : IsDataFile disk settings.input file.input := by
  rw [start.run_eq] at h
  obtain rfl := Except.ok.inj h
  exact isDataFile_of_mem hdirectory start.planned ((start.visits watcher state).input_mem hfile)

namespace Start.Isolated

variable {start : settings.Start disk mishaps} {dir : Location} {report : Report} {final : Disk}
  {file : FileRecord} {format : Format} {output : Path}

/-- A file that was written gives a module, and has a path for it that the system takes. -/
theorem written (isolated : start.Isolated dir report final) (hfile : file ∈ report.files)
    (hdata : IsDataFile disk settings.input file.input)
    (houtcome : file.outcome = .written format output) :
    output = settings.output.join format.moduleFile ∧ output.accept = .ok () ∧
      ∃ text, Yields start.context disk file.input format text := by
  have halone := isolated.alone file hfile (by simp [houtcome])
  obtain ⟨rfl, location, bytes, readOnly, text, after, hfind, hmodule, hpublish⟩ :=
    produceModule_eq_ok (Outcome.ofResult_eq_written_iff.mp (halone.symm.trans houtcome))
  rw [(start.find_ready hdata).1] at hfind
  exact ⟨rfl, accept_of_publish hpublish, text, bytes, read_of_find hfind, hmodule⟩

/-- The module of the last file that was written for a format is at the path it was written to. -/
theorem read_of_lastWritten (isolated : start.Isolated dir report final)
    (hopens : final.Opens settings.output dir) (haccept : output.accept = .ok ())
    (houtput : output = settings.output.join format.moduleFile)
    (hlast : lastWritten? report.files format = some file) {text : String}
    (hyields : Yields start.context disk file.input format text) :
    final.read output = .ok text.toUTF8 := by
  obtain ⟨place, bytes, readOnly, made, hfind, hmodule, hget⟩ :=
    isolated.module_held format file hlast
  obtain ⟨found, hread, hfound⟩ := hyields
  obtain rfl : found = bytes := Except.ok.inj (hread.symm.trans (read_of_find hfind))
  obtain rfl : made = text := (Prod.mk.inj (Except.ok.inj (hmodule.symm.trans hfound))).2
  subst houtput
  exact read_join format.isName_moduleFile haccept hopens hget

end Start.Isolated

/-- A run over a directory keeps every module that no later file is written to, whatever the other
files hold, whatever goes wrong with them and whenever a stop is asked for. Files are written to the
same path exactly if they have the same format. -/
theorem run_keeps_last_written {watcher : Watcher σ} {state : σ} {report : Report}
    (hdirectory : disk.isDirectory settings.input = true)
    (h : (settings.run watcher state disk mishaps).report = .ok report) :
    ∃ start : settings.Start disk mishaps,
      start.Retained report (settings.run watcher state disk mishaps).disk := by
  obtain ⟨start, dir, hopens, isolated⟩ := exists_start_isolated hdirectory h
  have hwritten {file : FileRecord} {format : Format} {output : Path} (hfile : file ∈ report.files)
      (houtcome : file.outcome = .written format output) :=
    isolated.written hfile (start.isDataFile_of_mem_files hdirectory h hfile) houtcome
  refine ⟨start, ?_, ?_⟩
  · intro a ha b hb f p g q hp hq
    rw [(hwritten ha hp).1, (hwritten hb hq).1]
    refine ⟨fun heq => Format.moduleFile_inj (Path.join_inj heq), fun heq => ?_⟩
    rw [heq]
  · intro before file after format output hsplit houtcome
    have hfile : file ∈ report.files := by simp [hsplit]
    obtain ⟨houtput, haccept, text, hyields⟩ := hwritten hfile houtcome
    refine ⟨text, hyields, fun hlater => ?_⟩
    refine isolated.read_of_lastWritten hopens haccept houtput ?_ hyields
    rw [hsplit]
    refine lastWritten?_append_cons (by rw [houtcome]; rfl) fun later hmem hformat => ?_
    -- A later file of the same format would have gone to the same path.
    obtain ⟨other, hother⟩ := Outcome.format?_eq_some_iff.mp hformat
    refine hlater later hmem ?_
    rw [hother, (hwritten (by simp [hsplit, hmem]) hother).1, houtput]
    rfl

/-- Three files, of which the first two hold scripts. The module of the second one is kept, and so
is that of the third. -/
theorem run_keeps_last_written_three :
    let settings : Settings := { input := ⟨"in"⟩, output := ⟨"out"⟩ }
    let disk : Disk := {
      entries := [(["in"], .directory),
        (["in", "conversation.txt"], .file "scriptsfile version 1\n0".toUTF8),
        (["in", "scripts.txt"], .file "scriptsfile version 1\n1\nf -1\n0".toUTF8),
        (["in", "triggers.txt"], .file "triggersfile version 1\n0".toUTF8)]
      here := [] }
    let final := (settings.run Watcher.counting 0 disk).disk
    let scriptsPath : Path := ⟨"out/module_scripts.py"⟩
    let triggersPath : Path := ⟨"out/module_triggers.py"⟩
    let report : Report := ⟨.standard, .completed,
      [⟨⟨"in/conversation.txt"⟩, .written .scripts scriptsPath⟩,
        ⟨⟨"in/scripts.txt"⟩, .written .scripts scriptsPath⟩,
        ⟨⟨"in/triggers.txt"⟩, .written .triggers triggersPath⟩]⟩
    disk.isDirectory settings.input = true ∧
      (settings.run Watcher.counting 0 disk).report = .ok report ∧
      ∃ (start : settings.Start disk {}) (scripts triggers : String),
        Yields start.context disk ⟨"in/scripts.txt"⟩ .scripts scripts ∧
        final.read scriptsPath = .ok scripts.toUTF8 ∧
        Yields start.context disk ⟨"in/triggers.txt"⟩ .triggers triggers ∧
        final.read triggersPath = .ok triggers.toUTF8 := by
  intro settings disk final scriptsPath triggersPath report
  have hdirectory : disk.isDirectory settings.input = true := by decide +kernel
  have hrun : (settings.run Watcher.counting 0 disk).report = .ok report := by decide +kernel
  obtain ⟨start, retained⟩ := run_keeps_last_written hdirectory hrun
  obtain ⟨scripts, hscripts, hkept⟩ :=
    retained.kept [⟨⟨"in/conversation.txt"⟩, .written .scripts scriptsPath⟩] _ _ _ _ rfl rfl
  obtain ⟨triggers, htriggers, hkept'⟩ :=
    retained.kept [⟨⟨"in/conversation.txt"⟩, .written .scripts scriptsPath⟩,
      ⟨⟨"in/scripts.txt"⟩, .written .scripts scriptsPath⟩] _ _ _ _ rfl rfl
  exact ⟨hdirectory, hrun, start, scripts, triggers, hscripts, hkept (by decide), htriggers,
    hkept' (by decide)⟩

/-- Two files that both hold scripts are reported as written to one path, and in the end the module
of the first is not there. -/
theorem run_overwrites_module :
    let settings : Settings := { input := ⟨"in"⟩, output := ⟨"out"⟩ }
    let disk : Disk := {
      entries := [(["in"], .directory),
        (["in", "conversation.txt"], .file "scriptsfile version 1\n0\n".toUTF8),
        (["in", "scripts.txt"], .file "scriptsfile version 1\n1\nf -1\n0\n".toUTF8)]
      here := [] }
    let final := (settings.run Watcher.counting 0 disk).disk
    let output : Path := ⟨"out/module_scripts.py"⟩
    let first : FileRecord := ⟨⟨"in/conversation.txt"⟩, .written .scripts output⟩
    let second : FileRecord := ⟨⟨"in/scripts.txt"⟩, .written .scripts output⟩
    disk.isDirectory settings.input = true ∧
      (settings.run Watcher.counting 0 disk).report = .ok ⟨.standard, .completed, [first, second]⟩ ∧
      ∃ (start : settings.Start disk {}) (text : String),
        Yields start.context disk first.input .scripts text ∧
        final.read output ≠ .ok text.toUTF8 := by
  intro settings disk final output first second
  have hdirectory : disk.isDirectory settings.input = true := by decide +kernel
  have hrun : (settings.run Watcher.counting 0 disk).report =
      .ok ⟨.standard, .completed, [first, second]⟩ := by decide +kernel
  obtain ⟨start, dir, hopens, isolated⟩ := exists_start_isolated hdirectory hrun
  have hfirst : Yields start.context disk first.input .scripts
      (Format.scripts.render start.context.lexicon []) := by
    let source : Source := {
      pending := [.text ['0']]
      fetched := 1
      line := 1
      text := "scriptsfile version 1".toList }
    have hopen : openFile "scriptsfile version 1\n0\n".toUTF8 =
        .ok ("scriptsfile version 1", source) := by
      decide +kernel
    have hdecode : (Format.scripts.decoder (.ofEngine .standard)).run .never 1 source =
        (.ok [], { pending := [], fetched := 2, line := 2, text := ['0'] }) := by
      decide +kernel
    have hfind : disk.find ⟨"in/conversation.txt"⟩ =
        .ok (["in", "conversation.txt"], .file "scriptsfile version 1\n0\n".toUTF8) := by
      decide +kernel
    exact .of_run (read_of_find hfind) hopen (by decide +kernel) hdecode
  have hsecond : Yields start.context disk second.input .scripts
      (Format.scripts.render start.context.lexicon [⟨"f", "-1", []⟩]) := by
    let source : Source := {
      pending := [.text ['1'], .text "f -1".toList, .text ['0']]
      fetched := 1
      line := 1
      text := "scriptsfile version 1".toList }
    have hopen : openFile "scriptsfile version 1\n1\nf -1\n0\n".toUTF8 =
        .ok ("scriptsfile version 1", source) := by
      decide +kernel
    have hdecode : (Format.scripts.decoder (.ofEngine .standard)).run .never 1 source =
        (.ok [⟨"f", "-1", []⟩], { pending := [], fetched := 4, line := 4, text := ['0'] }) := by
      decide +kernel
    have hfind : disk.find ⟨"in/scripts.txt"⟩ =
        .ok (["in", "scripts.txt"], .file "scriptsfile version 1\n1\nf -1\n0\n".toUTF8) := by
      decide +kernel
    exact .of_run (read_of_find hfind) hopen (by decide +kernel) hdecode
  have hkept : final.read output = .ok
      (Format.scripts.render start.context.lexicon [⟨"f", "-1", []⟩]).toUTF8 :=
    isolated.read_of_lastWritten hopens (by decide +kernel) (by decide +kernel) (by decide +kernel)
      hsecond
  refine ⟨hdirectory, hrun, start, _, hfirst, ?_⟩
  rw [hkept]
  intro hsame
  -- The two modules differ in length by what is written of the script.
  have hlength := congrArg (·.toList.length) (String.toByteArray_inj.mp (Except.ok.inj hsame))
  simp [Format.render, Format.renderRecord, Layout.frame, Layout.Script.render, Layout.quoted,
    Block.render] at hlength

end Settings

end ModuleSource
