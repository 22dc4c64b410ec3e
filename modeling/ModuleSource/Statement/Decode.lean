import ModuleSource.Decoder
import ModuleSource.Statement.Basic

/-!
Reading statement blocks. A block is a count and that many records; a record is an opcode, a count
and that many operands. Which operands are floating point is for the operator to say; an opcode
without an operator has integers only.
-/

namespace ModuleSource

namespace Operand

def decoder : Role → Decoder Operand
  | .int => int <$> Decoder.int
  | .float => float <$> Decoder.float
  | .entity kind => entity kind <$> Decoder.int

end Operand

namespace Statement

def roleOf (operator : Option Operator) (slot : Nat) : Role :=
  match operator with
  | some op => op.roleAt slot
  | none => .int

def decoder (table : OperatorSet) : Decoder Statement := do
  let opcode ← Decoder.int
  let operator := table.find? opcode.natAbs
  let n ← Decoder.count
  let operands ← Decoder.collect (fun slot => Operand.decoder (roleOf operator slot)) n
  return { opcode, operator, operands }

end Statement

namespace Block

/-- A look, a count, and the records. The count is a field; all else belongs to its record. -/
def decoder (table : OperatorSet) : Decoder Block :=
  .look do
    let n ← Decoder.count
    Decoder.collect (fun r => (Statement.decoder table).inRecord r) n

/-- Passes over a block. Operands may be any words, since no table says what they are. -/
def pass : Decoder Unit := do
  let n ← Decoder.count
  let _ ← Decoder.times n do
    let _ ← Decoder.int
    let m ← Decoder.count
    let _ ← Decoder.times m Decoder.word
  return ()

end Block

end ModuleSource
