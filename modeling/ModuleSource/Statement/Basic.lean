import ModuleSource.Engine
import ModuleSource.Name.Lexicon
import ModuleSource.Number.Shortest

/-!
Statements of scripts. A record of the data file is an opcode and its operands; a negative opcode
stands for the negated operator. Statements keep the numbers of the record and the operator found
for them, and are spelt only when they are rendered.
-/

namespace ModuleSource

open Number

inductive Operand where
  | int (value : Int)
  | float (value : Binary64)
  | entity (kind : Entity) (index : Int)
deriving DecidableEq

def Operand.render (lexicon : Lexicon) : Operand → String
  | int value => toString value
  | float value => value.literal
  | entity kind index => lexicon.spell kind index

structure Statement where
  opcode : Int
  operator : Option Operator
  operands : List Operand
deriving DecidableEq

namespace Statement

/-- What stands before a negated operator. -/
def negation : String := "neg|"

def negated (s : Statement) : Bool := s.opcode < 0

/-- The operator's name, or the opcode without its sign if no operator has it. -/
def head (s : Statement) : String :=
  match s.operator with
  | some op => op.name
  | none => toString s.opcode.natAbs

def render (lexicon : Lexicon) (s : Statement) : String :=
  (if s.negated then negation else "") ++ s.head ++ "(" ++
    String.intercalate ", " (s.operands.map (·.render lexicon)) ++ ")"

end Statement

abbrev Block := List Statement

namespace Block

/-- One line for each statement. -/
def lines (lexicon : Lexicon) (indent : String) (block : Block) : String :=
  String.join (block.map fun s => indent ++ s.render lexicon ++ ",\n")

/-- A bracketed list: an empty block stays on its line, and the statements of another go two spaces
further in than its closing bracket. -/
def render (lexicon : Lexicon) (indent : String) (block : Block) : String :=
  if block.isEmpty then "[]"
  else "[\n" ++ block.lines lexicon (indent ++ "  ") ++ indent ++ "]"

end Block

end ModuleSource
