import ModuleSource.Run.File
import ModuleSource.Run.Report

/-!
Runs over one data file, or over the data files of a directory. Files are made into modules one
after the other; a file that fails does not keep the others from being written.
-/

namespace ModuleSource

structure Settings where
  input : Path := ⟨"."⟩
  output : Path := ⟨"decompiled"⟩
  engine : Engine := .standard
  /-- Whether the first file that fails ends the run. -/
  failFast : Bool := false
deriving DecidableEq

/-- The data files of a directory, in the order in which they are visited. -/
def dataFiles : List String :=
  ["actions.txt", "conversation.txt", "factions.txt", "info_pages.txt", "item_kinds1.txt",
    "map_icons.txt", "menus.txt", "meshes.txt", "mission_templates.txt", "music.txt",
    "particle_systems.txt", "parties.txt", "party_templates.txt", "postfx.txt",
    "presentations.txt", "quests.txt", "scene_props.txt", "scenes.txt", "scripts.txt",
    "simple_triggers.txt", "skills.txt", "skins.txt", "sounds.txt", "strings.txt",
    "tableau_materials.txt", "triggers.txt", "troops.txt"]

/-- Data files that came with Warband. -/
def warbandFiles : List String := ["info_pages.txt", "postfx.txt"]

def Engine.dataFiles (engine : Engine) : List String :=
  if engine = .vanilla then ModuleSource.dataFiles.filter (!warbandFiles.contains ·)
  else ModuleSource.dataFiles

/-- The list of global variables, which is handed on as it is. -/
def variablesName : String := "variables.txt"

/-- The module that all generated modules import. -/
def constantsName : String := "module_constants.py"

def Engine.constants (engine : Engine) : String :=
  let game := if engine = .vanilla then "Mount&Blade 1.011" else "Mount&Blade Warband"
  "# -*- coding: utf-8 -*-\n" ++
  "from header_common import *\n" ++
  "\n" ++
  "# Module constants for " ++ game ++ ".\n" ++
  "# Slot and range names are not kept in compiled data; generated modules use\n" ++
  "# their numeric values. Define names here as they are recovered.\n"

/-- Who follows a run: it is told of every file that is finished, and may ask for a stop before a
file or in the midst of one. -/
structure Watcher (σ : Type) where
  notify : σ → FileRecord → σ
  stopBefore : σ → Bool
  stopDuring : σ → StopSignal

/-- A watcher that never asks for a stop, and counts the files. -/
def Watcher.counting : Watcher Nat where
  notify n _ := n + 1
  stopBefore _ := false
  stopDuring _ := .never

/-- A watcher that counts the files and asks for a stop when it is told of file number `limit`. -/
def Watcher.stopAfter (limit : Nat) : Watcher Nat where
  notify n _ := n + 1
  stopBefore n := limit ≤ n
  stopDuring n := fun _ _ => limit ≤ n

namespace Settings

/-- The files that a run will visit. -/
def inputFiles (settings : Settings) (disk : Disk) : Except RunFailure (List Path) :=
  if disk.isFile settings.input then .ok [settings.input]
  else if disk.isDirectory settings.input then
    .ok ((settings.engine.dataFiles.map settings.input.join).filter disk.isFile)
  else .error (.inputNotFound settings.input)

/-- The directory whose files give the names of entities. -/
def namesDirectory (settings : Settings) (disk : Disk) : Path :=
  if disk.isDirectory settings.input then settings.input
  else match settings.input.parent? with
    | some parent => if parent.text.isEmpty then ⟨"."⟩ else parent
    | none => ⟨"."⟩

/-- Hands the variables on, unless there are none or the two directories are seen to be the same.
-/
def handOnVariables (settings : Settings) (disk : Disk) : Except RunFailure Disk :=
  let source := settings.input.join variablesName
  let target := settings.output.join variablesName
  match disk.find source with
  | .ok (origin, .file bytes readOnly) =>
    if disk.same source target then .ok disk
    else match disk.copy origin bytes readOnly target with
      | .ok disk => .ok disk
      | .error e => .error (.access target e)
  | _ => .ok disk

def putConstants (settings : Settings) (disk : Disk) (mishaps : Disk.Mishaps := {}) :
    Except RunFailure Disk :=
  let target := settings.output.join constantsName
  match disk.publish settings.output constantsName settings.engine.constants.toUTF8 mishaps with
  | .ok disk => .ok disk
  | .error e => .error (.access target e)

/-- What a run over a directory writes before it visits the files. What is written stays if a later
step fails. -/
def prepare (settings : Settings) (disk : Disk) (mishaps : Disk.Mishaps := {}) :
    Except RunFailure Unit × Disk :=
  if disk.isDirectory settings.input then
    match settings.handOnVariables disk with
    | .error e => (.error e, disk)
    | .ok disk =>
      match settings.putConstants disk mishaps with
      | .error e => (.error e, disk)
      | .ok disk => (.ok (), disk)
  else (.ok (), disk)

end Settings

/-- What becomes of one file, as the report tells it. -/
def Outcome.ofResult : Except RunFailure (Format × Path) → Outcome
  | .ok (format, output) => .written format output
  | .error (.unknownFormat _ signature) => .skipped signature
  | .error .cancelled => .cancelled
  | .error e => .failed e.message e.line?

/-- What goes wrong in a run for reasons that the disk does not show: with the constants, and with
the module of each file. -/
structure RunMishaps where
  constants : Disk.Mishaps := {}
  files : Path → Disk.Mishaps := fun _ => {}

/-- The end of a visit to a list of files. -/
structure Visit (σ : Type) where
  status : Status
  files : List FileRecord
  state : σ
  disk : Disk

variable {σ : Type}

/-- Visits files until a stop, or until a failure if the first one is to end the run. `failed` tells
whether a file failed before. -/
def visit (settings : Settings) (context : Context) (mishaps : RunMishaps) (watcher : Watcher σ) :
    List Path → (failed : Bool) → σ → Disk → Visit σ
  | [], failed, state, disk =>
    ⟨if failed then .completedWithErrors else .completed, [], state, disk⟩
  | path :: rest, failed, state, disk =>
    if watcher.stopBefore state then ⟨.cancelled, [], state, disk⟩
    else
      let (result, disk) :=
        produceModule context (watcher.stopDuring state) path settings.output disk
          (mishaps.files path)
      let file : FileRecord := ⟨path, .ofResult result⟩
      let state := watcher.notify state file
      let onward (failed : Bool) : Visit σ :=
        let visited := visit settings context mishaps watcher rest failed state disk
        { visited with files := file :: visited.files }
      match file.outcome with
      | .failed .. =>
        if settings.failFast then ⟨.aborted, [file], state, disk⟩ else onward true
      | .cancelled => ⟨.cancelled, [file], state, disk⟩
      | _ => onward failed

/-- The end of a run: its report, or why it could not start; what the watcher knows; and the disk.
-/
structure RunResult (σ : Type) where
  report : Except RunFailure Report
  state : σ
  disk : Disk

/-- Makes the input into modules in the output directory. -/
def Settings.run (settings : Settings) (watcher : Watcher σ) (state : σ) (disk : Disk)
    (mishaps : RunMishaps := {}) : RunResult σ :=
  match settings.inputFiles disk with
  | .error e => ⟨.error e, state, disk⟩
  | .ok files =>
    match disk.makeDirectories settings.output with
    | (.error e, disk) => ⟨.error (.access settings.output e), state, disk⟩
    | (.ok (), disk) =>
      let context : Context :=
        { operators := .ofEngine settings.engine
          lexicon := .ofDirectory disk (settings.namesDirectory disk) }
      match settings.prepare disk mishaps.constants with
      | (.error e, disk) => ⟨.error e, state, disk⟩
      | (.ok (), disk) =>
        let visited := visit settings context mishaps watcher files false state disk
        ⟨.ok ⟨settings.engine, visited.status, visited.files⟩, visited.state, visited.disk⟩

end ModuleSource
