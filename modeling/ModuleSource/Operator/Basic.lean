import ModuleSource.Name.Entity

/-! Operators of the script language. -/

namespace ModuleSource

/-- How many operands an operator is declared with. -/
inductive Arity where
  | exactly (n : Nat)
  | atLeast (n : Nat)
deriving DecidableEq

def Arity.admits : Arity → Nat → Bool
  | exactly n, count => count == n
  | atLeast n, count => n ≤ count

/-- What an operand slot holds. -/
inductive Role where
  | int
  | float
  | entity (kind : Entity)
deriving DecidableEq

structure Operator where
  code : UInt32
  name : String
  arity : Arity
  roles : List Role
deriving DecidableEq

/-- Slots past the declared ones hold plain integers. -/
def Operator.roleAt (op : Operator) (slot : Nat) : Role := (op.roles[slot]?).getD .int

end ModuleSource
