import ModuleSource.Proofs.Disk.Publication
import ModuleSource.Proofs.Disk.Repetition
import ModuleSource.Proofs.Run.Effect
import ModuleSource.Proofs.Source.Tokens

/-!
Atomicity of one file. A file becomes the module of its format as a whole, or the disk stays as it
was: whether reading or decoding fails, a stop is seen at whatever token, or publishing goes wrong
in one of its steps.
-/

namespace ModuleSource

open Text Disk

namespace Format

/-- Blanks around it aside, the first line of a file of a format is its signature. -/
theorem ofSignature?_eq_some_iff {line : String} {format : Format} :
    ofSignature? line = some format ↔ trim line.toList = format.signature.toList := by
  unfold ofSignature?
  constructor
  · intro h
    have hfound := List.find?_some h
    exact (beq_iff_eq.mp hfound).symm
  · intro h
    rw [h]
    cases format <;> decide

/-- The bytes have the signature of the format in their first line, and the text is generated from
the lines behind it. -/
def MadeFrom (format : Format) (context : Context) (signal : StopSignal) (bytes : ByteArray)
    (text : String) : Prop :=
  ∃ first rest chars, physicalLines bytes = first :: rest ∧ decode? first = some chars ∧
    let line := dropMark (dropReturns chars)
    trim line = format.signature.toList ∧
      (format.generate context signal 1
        { pending := rest.map .ofBytes, fetched := 1, line := 1, text := line }).1 = .ok text

end Format

/-- A file is opened at its first line, if that line decodes. -/
theorem openFile_eq (bytes : ByteArray) : openFile bytes =
    match physicalLines bytes with
    | [] => .ok ("", { pending := [] })
    | first :: rest =>
      match decode? first with
      | none => .error (.access .invalidText)
      | some chars =>
        let line := dropMark (dropReturns chars)
        .ok (String.ofList line,
          { pending := rest.map .ofBytes, fetched := 1, line := 1, text := line }) := by
  unfold openFile Source.takeLine
  rw [Source.ofBytes_pending]
  cases physicalLines bytes with
  | nil => rfl
  | cons first rest =>
    rw [List.map_cons, PhysicalLine.ofBytes]
    dsimp only
    cases decode? first with
    | none => rfl
    | some chars => rfl

section Production

variable {context : Context} {signal : StopSignal} {input output : Path} {disk : Disk}
  {format : Format} {text : String} {mishaps : Mishaps}

theorem moduleOfBytes_eq_ok_iff_madeFrom {bytes : ByteArray} :
    moduleOfBytes context signal input bytes = .ok (format, text) ↔
      format.MadeFrom context signal bytes text := by
  rw [moduleOfBytes_eq_ok_iff]
  simp only [Format.ofSignature?_eq_some_iff, openFile_eq]
  constructor
  · rintro ⟨line, source, hopen, hsignature, hgenerate⟩
    split at hopen
    · -- A file without lines has an empty first line, which is no signature.
      obtain ⟨rfl, rfl⟩ := Prod.mk.inj (Except.ok.inj hopen)
      cases format <;> exact absurd hsignature (by decide)
    · next first rest hlines =>
      split at hopen
      · cases hopen
      · next chars hdecode =>
        obtain ⟨rfl, rfl⟩ := Prod.mk.inj (Except.ok.inj hopen)
        rw [String.toList_ofList] at hsignature
        exact ⟨first, rest, chars, hlines, hdecode, hsignature, hgenerate⟩
  · rintro ⟨first, rest, chars, hlines, hdecode, hsignature, hgenerate⟩
    simp only [hlines, hdecode]
    refine ⟨_, _, rfl, ?_, hgenerate⟩
    rw [String.toList_ofList]
    exact hsignature

/-- The module generated from the file at a path, unless a stop is seen first. -/
def moduleAt (context : Context) (signal : StopSignal) (input : Path) (disk : Disk) :
    Except RunFailure (Format × String) :=
  if signal 0 0 then .error .cancelled
  else
    match disk.find input with
    | .error e => .error (.access input e)
    | .ok (_, .directory) => .error (.decode input (.read (.access .isADirectory)))
    | .ok (_, .file bytes _) => moduleOfBytes context signal input bytes

theorem moduleAt_eq_ok_iff : moduleAt context signal input disk = .ok (format, text) ↔
    signal 0 0 = false ∧ ∃ location bytes readOnly,
      disk.find input = .ok (location, .file bytes readOnly) ∧
      format.MadeFrom context signal bytes text := by
  unfold moduleAt
  cases signal 0 0 with
  | true => simp
  | false =>
    rcases disk.find input with e | ⟨location, ⟨bytes, readOnly⟩ | _⟩
    · simp
    · simp [moduleOfBytes_eq_ok_iff_madeFrom]
    · simp

/-- A module is published when it is complete. -/
theorem produceModule_eq (context : Context) (signal : StopSignal) (input output : Path)
    (disk : Disk) (mishaps : Mishaps) : produceModule context signal input output disk mishaps =
      match moduleAt context signal input disk with
      | .error e => (.error e, disk)
      | .ok (format, text) =>
        match disk.publish output format.moduleFile text.toUTF8 mishaps with
        | .error e => (.error (.access (output.join format.moduleFile) e), disk)
        | .ok after => (.ok (format, output.join format.moduleFile), after) := by
  unfold produceModule moduleAt
  cases signal 0 0 with
  | true => rfl
  | false => rcases disk.find input with e | ⟨location, ⟨bytes, readOnly⟩ | _⟩ <;> rfl

theorem eq_of_produceModule_error {e : RunFailure} {after : Disk}
    (h : produceModule context signal input output disk mishaps = (.error e, after)) :
    after = disk := by
  rw [produceModule_eq] at h
  split at h
  · exact (Prod.mk.inj h).2.symm
  · split at h
    · exact (Prod.mk.inj h).2.symm
    · cases h

theorem produceModule_eq_ok_iff {target : Path} {after : Disk} :
    produceModule context signal input output disk mishaps = (.ok (format, target), after) ↔
      target = output.join format.moduleFile ∧
        ∃ text, moduleAt context signal input disk = .ok (format, text) ∧
          disk.publish output format.moduleFile text.toUTF8 mishaps = .ok after := by
  rw [produceModule_eq]
  constructor
  · intro h
    split at h
    · cases h
    · next made text hmodule =>
      split at h
      · cases h
      · next written hpublish =>
        cases h
        exact ⟨rfl, text, hmodule, hpublish⟩
  · intro ⟨htarget, text, hmodule, hpublish⟩
    rw [htarget, hmodule]
    dsimp only
    rw [hpublish]

/-- Makes a file into a module as `produceModule` does, with the steps of publishing it and what
goes wrong in them. -/
def produceModuleInSteps (mishaps : Mishaps) (passing : String) (context : Context)
    (signal : StopSignal) (input output : Path) (disk : Disk) :
    Except RunFailure (Format × Path) × Disk :=
  match moduleAt context signal input disk with
  | .error e => (.error e, disk)
  | .ok (format, text) =>
    let target := output.join format.moduleFile
    match disk.publishInSteps mishaps passing output format.moduleFile text.toUTF8 with
    | (.error e, after) => (.error (.access target e), after)
    | (.ok (), after) => (.ok (format, target), after)

/-- The names of modules are longer than those in passing. -/
theorem ne_moduleFile_of_isPassing {passing : String} (h : IsPassing passing) (format : Format) :
    passing ≠ format.moduleFile := by
  intro heq
  have hbytes : format.moduleFile.utf8ByteSize = passingName.utf8ByteSize := by
    rw [← heq, h.bytes]
  cases format <;> exact absurd hbytes (by decide)

/-- Step by step a module is produced as at once. -/
theorem produceModuleInSteps_eq (mishaps : Mishaps) {passing : String}
    (hspare : disk.Spare output passing) (context : Context) (signal : StopSignal) (input : Path) :
    produceModuleInSteps mishaps passing context signal input output disk =
      produceModule context signal input output disk mishaps := by
  rw [produceModule_eq]
  unfold produceModuleInSteps
  rcases moduleAt context signal input disk with e | ⟨format, text⟩
  · rfl
  dsimp only
  rw [publishInSteps_eq mishaps hspare format.isName_moduleFile
    (ne_moduleFile_of_isPassing hspare.isPassing format)]
  rcases disk.publish output format.moduleFile text.toUTF8 mishaps with e | after <;> rfl

end Production

theorem Disk.publish_eq_ok_iff {disk : Disk} {directory : Path} {name : String}
    {bytes : ByteArray} {mishaps : Mishaps} (hname : IsName name) :
    (∃ after, disk.publish directory name bytes mishaps = .ok after) ↔
      ∃ dir, disk.Opens directory dir ∧ disk.refusal? directory dir name mishaps = none := by
  constructor
  · intro ⟨after, h⟩
    obtain ⟨dir, hopens, -, -⟩ := publish_eq_ok hname h
    exact ⟨dir, hopens, refusal?_eq_none_of_publish hname hopens h⟩
  · intro ⟨dir, hopens, hrefusal⟩
    rw [publish_of_opens hopens hname, hrefusal]
    exact ⟨_, rfl⟩

/-- A file becomes a module as a whole or leaves no trace, whatever goes wrong with the file that it
is written to in passing. After a failure the disk is as it was, with the module of that name that
there may be. After a success the module, generated from the lines behind the signature of its
format, is in the output directory and all else as it was. The module can be published step by step
as well, with its passing file made, filled, renamed and, after a failure, taken away. -/
theorem produceModule_atomic (context : Context) (signal : StopSignal) (input output : Path)
    (disk : Disk) (mishaps : Mishaps) :
    (∀ e after, produceModule context signal input output disk mishaps = (.error e, after) →
      after = disk) ∧
    (∀ format target after,
      produceModule context signal input output disk mishaps = (.ok (format, target), after) →
        target = output.join format.moduleFile ∧ ∃ location bytes readOnly text place,
          disk.find input = .ok (location, .file bytes readOnly) ∧
          format.MadeFrom context signal bytes text ∧
          after.find target = .ok (place, .file text.toUTF8) ∧ after.here = disk.here ∧
          ∀ other, other ≠ place → after.get? other = disk.get? other) ∧
    ((∃ made after, produceModule context signal input output disk mishaps = (.ok made, after)) ↔
      signal 0 0 = false ∧ ∃ format : Format, ∃ location bytes readOnly text dir,
        disk.find input = .ok (location, .file bytes readOnly) ∧
        format.MadeFrom context signal bytes text ∧
        disk.Opens output dir ∧ disk.refusal? output dir format.moduleFile mishaps = none) ∧
    ∀ passing, disk.Spare output passing →
      produceModuleInSteps mishaps passing context signal input output disk =
        produceModule context signal input output disk mishaps := by
  refine ⟨fun e after h => eq_of_produceModule_error h, ?_, ?_,
    fun passing hspare => produceModuleInSteps_eq mishaps hspare context signal input⟩
  · intro format target after h
    obtain ⟨rfl, text, hmodule, hpublish⟩ := produceModule_eq_ok_iff.mp h
    obtain ⟨-, location, bytes, readOnly, hfind, hmade⟩ := moduleAt_eq_ok_iff.mp hmodule
    obtain ⟨place, hplace⟩ := find_of_publish format.isName_moduleFile hpublish
    exact ⟨rfl, location, bytes, readOnly, text, place, hfind, hmade, hplace⟩
  · constructor
    · intro ⟨⟨format, target⟩, after, h⟩
      obtain ⟨-, text, hmodule, hpublish⟩ := produceModule_eq_ok_iff.mp h
      obtain ⟨hgo, location, bytes, readOnly, hfind, hmade⟩ := moduleAt_eq_ok_iff.mp hmodule
      obtain ⟨dir, hdir⟩ := (publish_eq_ok_iff format.isName_moduleFile).mp ⟨after, hpublish⟩
      exact ⟨hgo, format, location, bytes, readOnly, text, dir, hfind, hmade, hdir⟩
    · intro ⟨hgo, format, location, bytes, readOnly, text, dir, hfind, hmade, hdir⟩
      have hmodule := moduleAt_eq_ok_iff.mpr ⟨hgo, location, bytes, readOnly, hfind, hmade⟩
      obtain ⟨after, hpublish⟩ := (publish_eq_ok_iff format.isName_moduleFile).mpr ⟨dir, hdir⟩
      exact ⟨_, after, produceModule_eq_ok_iff.mpr ⟨rfl, text, hmodule, hpublish⟩⟩

/-- Where an old module is replaced, a directory that is no data file and a renaming that fails
leave it alone. -/
theorem produceModule_atomic_replaced :
    let context : Context := ⟨⟨.vanilla, []⟩, .empty⟩
    let input : Path := ⟨"scripts.txt"⟩
    let output : Path := ⟨"out"⟩
    let disk : Disk :=
      ⟨[(["scripts.txt"], .file "scriptsfile version 1\r\n0\r\n".toUTF8), (["out"], .directory),
        (["out", "module_scripts.py"], .file "old".toUTF8)], []⟩
    disk.Spare output ".tmpA1b2C3" ∧
      (produceModule context .never output output disk).1 =
        .error (.decode output (.read (.access .isADirectory))) ∧
      (produceModule context .never output output disk).2 = disk ∧
      (∃ after place text, produceModule context .never input output disk =
          (.ok (.scripts, ⟨"out/module_scripts.py"⟩), after) ∧
        after.find ⟨"out/module_scripts.py"⟩ = .ok (place, .file text) ∧
        (∀ other, other ≠ place → after.get? other = disk.get? other)) ∧
      ∃ e, produceModuleInSteps
        { rename := some (.other "No space left on device (os error 28)") } ".tmpA1b2C3" context
        .never input output disk = (.error e, disk) := by
  intro context input output disk
  have hspare : disk.Spare output ".tmpA1b2C3" := by
    refine ⟨⟨by decide, by decide, by decide⟩, fun dir hdir => ?_⟩
    have hout : disk.Opens output ["out"] := ⟨by decide +kernel, by decide +kernel⟩
    rw [hdir.unique hout]
    decide +kernel
  have hfailed : (produceModule context .never output output disk).1 =
      .error (.decode output (.read (.access .isADirectory))) := by
    decide +kernel
  have hmade : (produceModule context .never input output disk).1 =
      .ok (.scripts, ⟨"out/module_scripts.py"⟩) := by
    decide +kernel
  have hunmade : (produceModule context .never input output disk
      { rename := some (.other "No space left on device (os error 28)") }).1 =
        .error (.access ⟨"out/module_scripts.py"⟩
          (.other "No space left on device (os error 28)")) := by
    decide +kernel
  refine ⟨hspare, hfailed, ?_, ?_, ?_⟩
  · exact (produceModule_atomic context .never output output disk {}).1 _ _ (Prod.ext hfailed rfl)
  · have hproduced : produceModule context .never input output disk =
        (.ok (.scripts, ⟨"out/module_scripts.py"⟩), _) := Prod.ext hmade rfl
    obtain ⟨-, location, bytes, readOnly, text, place, -, -, hfind, -, hothers⟩ :=
      (produceModule_atomic context .never input output disk {}).2.1 _ _ _ hproduced
    exact ⟨_, place, text.toUTF8, hproduced, hfind, hothers⟩
  · obtain ⟨hleft, -, -, hsteps⟩ := produceModule_atomic context .never input output disk
      { rename := some (.other "No space left on device (os error 28)") }
    rw [hsteps ".tmpA1b2C3" hspare]
    exact ⟨_, Prod.ext hunmade (hleft _ _ (Prod.ext hunmade rfl))⟩

end ModuleSource
