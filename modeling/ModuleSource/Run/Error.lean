import ModuleSource.Decoder
import ModuleSource.Disk.Path

/-! Why a file, or a whole run, fails. -/

namespace ModuleSource

inductive RunFailure where
  | inputNotFound (path : Path)
  | unknownFormat (path : Path) (signature : String)
  | decode (path : Path) (cause : DecodeFailure)
  | access (path : Path) (cause : AccessFailure)
  | cancelled
deriving DecidableEq

namespace RunFailure

def message : RunFailure → String
  | inputNotFound path => s!"input file/directory `{path.text}` not found"
  | unknownFormat path signature => s!"unknown format in `{path.text}` (signature `{signature}`)"
  | decode path cause => s!"failed to decompile `{path.text}`: {cause.message}"
  | access path cause => s!"`{path.text}`: {cause.message}"
  | cancelled => "decompilation cancelled"

/-- The messages of what lies behind the failure, outermost first. -/
def causes : RunFailure → List String
  | decode _ cause => cause.message :: cause.causes
  | access _ cause => [cause.message]
  | _ => []

def line? : RunFailure → Option Nat
  | decode _ cause => cause.line?
  | _ => none

end RunFailure

end ModuleSource
