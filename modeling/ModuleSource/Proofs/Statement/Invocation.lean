import ModuleSource.Proofs.Decoder.Grammar
import ModuleSource.Statement.Basic

/-!
How statements are written. A reference to an entity is its tagged name, or a number where there is
no name for it; a statement is a call with the texts of its operands. The relations here say what
the texts are, and what is rendered is such a text.
-/

namespace ModuleSource

/-- How a reference is written: by the tagged name that the table has at its index, or as the number
it is. -/
inductive Lexicon.Resolves (lexicon : Lexicon) (kind : Entity) : Int → String → Prop
  | named {i : Nat} {name : String} (found : (lexicon.table kind)[i]? = some name) :
    Resolves lexicon kind i (kind.tag ++ name)
  | unnamed {v : Int} (outside : v < 0 ∨ (lexicon.table kind).size ≤ v) :
    Resolves lexicon kind v (toString v)

namespace Lexicon

variable {lexicon : Lexicon} {kind : Entity}

theorem spell_of_get? {i : Int} {name : String} (h : (lexicon.table kind).get? i = some name) :
    lexicon.spell kind i = kind.tag ++ name := by
  simp only [spell, NameTable.spell, h]

theorem spell_of_get?_none {i : Int} (h : (lexicon.table kind).get? i = none) :
    lexicon.spell kind i = toString i := by
  simp only [spell, NameTable.spell, h]

theorem resolves_spell (lexicon : Lexicon) (kind : Entity) (index : Int) :
    lexicon.Resolves kind index (lexicon.spell kind index) := by
  cases hget : (lexicon.table kind).get? index with
  | none =>
    rw [spell_of_get?_none hget]
    refine .unnamed ?_
    cases index with
    | ofNat i => exact Or.inr (by simpa using Array.getElem?_eq_none_iff.mp hget)
    | negSucc i => exact Or.inl (Int.negSucc_lt_zero i)
  | some name =>
    rw [spell_of_get? hget]
    cases index with
    | ofNat i => exact .named hget
    | negSucc i => cases hget

end Lexicon

/-- What a statement calls: an operator, or an opcode without its sign that no operator has. -/
inductive Callee where
  | operator (name : String)
  | raw (code : Nat)
deriving DecidableEq

def Callee.ofFound (code : Nat) : Option Operator → Callee
  | some op => .operator op.name
  | none => .raw code

def Callee.text : Callee → String
  | .operator name => name
  | .raw code => toString code

/-- A statement with its operands written out. -/
structure Invocation where
  negated : Bool
  callee : Callee
  operands : List String
deriving DecidableEq

/-- The text of a call, with its mark if it is negated. -/
def Invocation.text (call : Invocation) : String :=
  (if call.negated then "neg|" else "") ++ call.callee.text ++ "(" ++
    String.intercalate ", " call.operands ++ ")"

/-- How an operand is written. -/
inductive Operand.Spelt (lexicon : Lexicon) : Operand → String → Prop
  | int (value : Int) : Spelt lexicon (.int value) (toString value)
  | float (value : Number.Binary64) : Spelt lexicon (.float value) value.literal
  | entity {kind : Entity} {index : Int} {text : String}
    (resolved : lexicon.Resolves kind index text) : Spelt lexicon (.entity kind index) text

theorem Operand.spelt_render (lexicon : Lexicon) (operand : Operand) :
    operand.Spelt lexicon (operand.render lexicon) := by
  cases operand with
  | int value => exact .int value
  | float value => exact .float value
  | entity kind index => exact .entity (lexicon.resolves_spell kind index)

namespace Statement

/-- The call that a statement is. -/
inductive Spelt (lexicon : Lexicon) : Statement → Invocation → Prop
  | known {opcode : Int} {op : Operator} {operands : List Operand} {texts : List String}
    (spelt : List.Forall₂ (Operand.Spelt lexicon) operands texts) :
    Spelt lexicon ⟨opcode, some op, operands⟩ ⟨opcode < 0, .operator op.name, texts⟩
  | unknown {opcode : Int} {operands : List Operand} {texts : List String}
    (spelt : List.Forall₂ (Operand.Spelt lexicon) operands texts) :
    Spelt lexicon ⟨opcode, none, operands⟩ ⟨opcode < 0, .raw opcode.natAbs, texts⟩

def invocation (lexicon : Lexicon) (s : Statement) : Invocation where
  negated := s.negated
  callee := .ofFound s.opcode.natAbs s.operator
  operands := s.operands.map (·.render lexicon)

theorem spelt_invocation (lexicon : Lexicon) (s : Statement) :
    s.Spelt lexicon (s.invocation lexicon) := by
  obtain ⟨opcode, operator, operands⟩ := s
  have hspelt := Decoder.forall₂_map_self (Operand.spelt_render lexicon) operands
  cases operator with
  | some op => exact .known hspelt
  | none => exact .unknown hspelt

theorem render_eq_invocation (lexicon : Lexicon) (s : Statement) :
    s.render lexicon = (s.invocation lexicon).text := by
  obtain ⟨opcode, operator, operands⟩ := s
  cases operator with
  | some op => rfl
  | none => rfl

end Statement

end ModuleSource
