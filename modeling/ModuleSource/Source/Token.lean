import ModuleSource.Number.Decimal

/-! What a reader may ask of the next token. -/

namespace ModuleSource

open Number

inductive TokenForm where
  | word
  | int
  | word32
  | word64
  | float
deriving DecidableEq

namespace TokenForm

@[reducible]
def Value : TokenForm → Type
  | word => String
  | int => Int
  | word32 => UInt32
  | word64 => UInt64
  | float => Binary64

/-- The value of a token of the given kind. Every token is a word. -/
def parse? : (kind : TokenForm) → List Char → Option kind.Value
  | word, cs => some (String.ofList cs)
  | int, cs => int? cs
  | word32, cs => word32? cs
  | word64, cs => word64? cs
  | float, cs => float? cs

def description : TokenForm → String
  | word => "word"
  | int => "integer"
  | word32 => "32-bit unsigned integer"
  | word64 => "64-bit unsigned integer"
  | float => "float"

end TokenForm

/-- What can be read from a source: the next token, or the rest of a line. -/
inductive Reading where
  | token (kind : TokenForm)
  | line
deriving DecidableEq

namespace Reading

def all : List Reading :=
  [.token .word, .token .int, .token .word32, .token .word64, .token .float, .line]

def description : Reading → String
  | token kind => kind.description
  | line => "line"

end Reading

end ModuleSource
