import ModuleSource.Operator.Builds
import ModuleSource.Operator.Shared

/-!
Engine builds and their operators. A build adds one list of operators to another; an operator of
a later list replaces the one with the same code.
-/

namespace ModuleSource

inductive Engine where
  | vanilla
  | warband
  | enhancer320
  | enhancer450
  | caribbean
deriving DecidableEq

namespace Engine

def all : List Engine := [vanilla, warband, enhancer320, enhancer450, caribbean]

/-- The build assumed when none is named. -/
def standard : Engine := enhancer450

def name : Engine → String
  | vanilla => "vanilla"
  | warband => "warband"
  | enhancer320 => "wse-320"
  | enhancer450 => "wse-450"
  | caribbean => "caribbean"

def description : Engine → String
  | vanilla => "Mount&Blade 1.010/1.011"
  | warband => "Mount&Blade: Warband"
  | enhancer320 => "Warband + script enhancer 3.2"
  | enhancer450 => "Warband + script enhancer 4.5"
  | caribbean => "Caribbean!"

def operatorLists : Engine → List (List Operator)
  | vanilla => [Operator.shared, Operator.vanilla]
  | warband => [Operator.shared, Operator.warband]
  | enhancer320 => [Operator.shared, Operator.warband, Operator.enhancer3]
  | enhancer450 => [Operator.shared, Operator.warband, Operator.enhancer3, Operator.enhancer45]
  | caribbean => [Operator.shared, Operator.warband, Operator.caribbean]

/-- The build of the given name, in letters of either case. -/
def ofName? (name : String) : Option Engine :=
  all.find? fun engine => engine.name.toList == name.toList.map Char.toLower

def unknownMessage (name : String) : String := s!"unknown module type `{name}`"

end Engine

/-- The operators of a build, by ascending codes. -/
structure OperatorSet where
  engine : Engine
  operators : List Operator

namespace OperatorSet

/-- Puts an operator in its place among ascending codes, where it replaces one of the same code. -/
def insert (op : Operator) : List Operator → List Operator
  | [] => [op]
  | other :: rest =>
    if op.code < other.code then op :: other :: rest
    else if op.code = other.code then op :: rest
    else other :: insert op rest

def ofList (engine : Engine) (operators : List Operator) : OperatorSet where
  engine
  operators := operators.foldl (fun table op => insert op table) []

def ofEngine (engine : Engine) : OperatorSet := ofList engine engine.operatorLists.flatten

def find? (table : OperatorSet) (code : Nat) : Option Operator :=
  table.operators.find? fun op => op.code.toNat == code

def size (table : OperatorSet) : Nat := table.operators.length

/-- The operators with codes from `low` to `high`. -/
def between (table : OperatorSet) (low high : Nat) : List Operator :=
  table.operators.filter fun op => low ≤ op.code.toNat && op.code.toNat ≤ high

end OperatorSet

end ModuleSource
