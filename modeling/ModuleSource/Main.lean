import ModuleSource.Command.Response

/-!
The program: takes up the part of the disk that a run may look at, by the spelling of its paths
alone, answers, and puts down what has changed.
-/

namespace ModuleSource

/-- The locations that a path passes, if nothing on the way is missing. -/
def Path.trail (here : Location) (path : Path) : List Location :=
  go (if path.isAbsolute then [] else here) path.segments
where
  go (location : Location) : List String → List Location
    | [] => [location]
    | segment :: rest =>
      let next :=
        if segment = "." then location
        else if segment = ".." then location.dropLast
        else location ++ [segment]
      location :: go next rest

/-- The files that a run may read or write. -/
def Settings.files (settings : Settings) : List Path :=
  let sources := variablesName :: dataFiles ++ Entity.all.map (·.dataFile)
  let parent := settings.input.parent?.getD ⟨""⟩
  let targets := variablesName :: constantsName :: Format.all.map (·.moduleFile)
  settings.input :: settings.output :: sources.map settings.input.join ++
    sources.map parent.join ++ targets.map settings.output.join

/-- All locations of the files, and of the directories around the working directory. -/
def Settings.footprint (settings : Settings) (here : Location) : List Location :=
  (settings.files.flatMap (·.trail here) ++ Path.trail.go [] here).eraseDups.filter (!·.isEmpty)

namespace Command

def helpText : String :=
  "Turn compiled module .txt files back into module source\n\n" ++
  "Usage: mbdecomp [OPTIONS] <COMMAND>\n\n" ++
  "Commands:\n" ++
  "  decompile <INPUT> <OUTPUT>  Decompile a module directory or a single data file\n" ++
  "  modes                       List supported engine modes\n" ++
  "  help                        Print this message\n\n" ++
  "Options:\n" ++
  "  -v, --verbose  Increase log verbosity\n" ++
  "  -h, --help     Print help\n" ++
  "  -V, --version  Print version\n\n" ++
  "Options of decompile:\n" ++
  "  -m, --mode <MODE>      Engine build the files were compiled for [default: wse-450]\n" ++
  "      --fail-fast        Stop at the first file that fails to decompile\n" ++
  "  -f, --format <FORMAT>  Report format: text or json [default: text]\n" ++
  "  -p, --progress         Accepted, shows nothing\n" ++
  "      --timeout <SECS>   Accepted, the run is not timed\n"

def placeText (location : Location) : String := (Path.ofLocation location).text

/-- The entry at a location of the system's own files. A file that cannot be opened for appending is
not to be written. -/
def takeUp (location : Location) : IO (Option (Location × Entry)) := do
  let place := (← IO.currentDir) / placeText location
  if ← place.isDir then return some (location, .directory)
  else if ← place.pathExists then
    let readOnly ← try
        let _ ← IO.FS.Handle.mk place .append
        pure false
      catch _ => pure true
    return some (location, .file (← IO.FS.readBinFile place) readOnly)
  else return none

/-- Writes a changed entry. A file is renamed into its place when it is complete. -/
def putDown (after : Disk) (change : Location × Disk.Change) : IO Unit := do
  match change with
  | (location, .directory) => IO.FS.createDirAll (placeText location)
  | (location, .file bytes) =>
    IO.FS.createDirAll (placeText location.dropLast)
    IO.FS.writeBinFile (placeText location ++ ".part") bytes
    IO.FS.rename (placeText location ++ ".part") (placeText location)
    if after.get? location = some (.file bytes true) then
      let reading : IO.AccessRight := { read := true }
      IO.setAccessRights (placeText location)
        { user := reading, group := reading, other := reading }

def diskFor (invocation : Invocation) : IO Disk := do
  let here := (Path.mk (← IO.currentDir).toString).segments
  match invocation with
  | .decompile request =>
    let found ← (request.settings.footprint here).filterMapM takeUp
    return { entries := found, here }
  | _ => return { entries := [], here }

end Command

end ModuleSource

open ModuleSource.Command in
def main (args : List String) : IO UInt32 := do
  let invocation := parse args
  let disk ← diskFor invocation
  let (response, after) := invocation.respond disk
  (after.changesSince disk).forM (putDown after)
  match invocation with
  | .help => IO.print helpText
  | .misuse => IO.eprint helpText
  | _ => IO.print response.output
  IO.eprint response.errors
  return response.exitCode.toUInt32
