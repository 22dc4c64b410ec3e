import ModuleSource.Source.Token

/-! Why a read fails. -/

namespace ModuleSource

/-- Why the system does not give or take the bytes of a file. -/
inductive AccessFailure where
  | invalidText
  | notFound
  | alreadyExists
  | notADirectory
  | isADirectory
  | nameTooLong
  | nulInName
  | permissionDenied
  /-- Any other reason, such as want of room, with what the system says of it. -/
  | other (text : String)
deriving DecidableEq

def AccessFailure.message : AccessFailure → String
  | invalidText => "stream did not contain valid UTF-8"
  | notFound => "No such file or directory (os error 2)"
  | alreadyExists => "File exists (os error 17)"
  | notADirectory => "Not a directory (os error 20)"
  | isADirectory => "Is a directory (os error 21)"
  | nameTooLong => "File name too long (os error 36)"
  | nulInName => "file name contained an unexpected NUL byte"
  | permissionDenied => "Permission denied (os error 13)"
  | other text => text

/-- Failure of one read. The line is the one the source stands on. -/
inductive ReadFailure where
  | endOfStream (line : Nat)
  | malformed (line : Nat) (token : String) (expected : TokenForm)
  | access (cause : AccessFailure)
deriving DecidableEq

namespace ReadFailure

def message : ReadFailure → String
  | endOfStream line => s!"unexpected end of stream at line {line}"
  | malformed line token expected =>
    s!"expected {expected.description} at line {line}, found `{token}`"
  | access cause => s!"read failed: {cause.message}"

/-- The messages of what lies behind the failure, outermost first. -/
def causes : ReadFailure → List String
  | access cause => [cause.message]
  | _ => []

def line? : ReadFailure → Option Nat
  | endOfStream line => some line
  | malformed line _ _ => some line
  | access _ => none

end ReadFailure

end ModuleSource
