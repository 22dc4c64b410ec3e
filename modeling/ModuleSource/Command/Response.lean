import ModuleSource.Command.Arguments

/-! What the program prints, and the exit code it ends with. -/

namespace ModuleSource.Command

structure Response where
  exitCode : Nat
  output : String := ""
  errors : String := ""
deriving DecidableEq

def versionText : String := "mbdecomp 0.1.0\n"

def padRight (width : Nat) (s : String) : String :=
  s ++ String.ofList (List.replicate (width - s.length) ' ')

/-- The builds with the sizes of their operator sets. -/
def enginesText : String :=
  String.join (Engine.all.map fun engine =>
    padRight 10 engine.name ++ " " ++ engine.description ++ " - " ++
      toString (OperatorSet.ofEngine engine).size ++ " operators" ++
      (if engine = .standard then " (default)" else "") ++ "\n")

/-- Zero if every file was written or skipped, one after failures, two after a stop. -/
def exitCodeOf : Status → Nat
  | .completed => 0
  | .completedWithErrors => 1
  | .aborted => 1
  | .cancelled => 2

def reportText (style : ReportStyle) (report : Report) : String :=
  match style with
  | .text => report.text
  | .json => report.json ++ "\n"

def Request.respond (request : Request) (disk : Disk) : Response × Disk :=
  let result := request.settings.run Watcher.counting 0 disk
  match result.report with
  | .error e => ({ exitCode := 1, errors := "Error: " ++ e.message ++ "\n" }, result.disk)
  | .ok report =>
    ({ exitCode := exitCodeOf report.status, output := reportText request.style report },
      result.disk)

/-- Answers an invocation. The texts of help and of usage are left to whoever prints them. -/
def Invocation.respond (invocation : Invocation) (disk : Disk) : Response × Disk :=
  match invocation with
  | .help => ({ exitCode := 0 }, disk)
  | .version => ({ exitCode := 0, output := versionText }, disk)
  | .misuse => ({ exitCode := 2 }, disk)
  | .engines => ({ exitCode := 0, output := enginesText }, disk)
  | .decompile request => request.respond disk

end ModuleSource.Command
