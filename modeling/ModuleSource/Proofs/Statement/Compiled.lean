import ModuleSource.Format
import ModuleSource.Proofs.Decoder.Logic

/-!
What the words of a script file say. Each relation here gives the words that a part of a file is
compiled to, without a reader: the numerals of counts, opcodes and operands may be spelt in any way
that has their value, and nothing else is free. The decoders come to a value only from its words.
-/

namespace ModuleSource

open Text Number Layout

/-- An operand is one word, a numeral of the kind that its role asks for. -/
inductive Operand.Compiled : Role → List (List Char) → Operand → Prop
  | int {w : List Char} {value : Int} (parsed : int? w = some value) :
    Compiled .int [w] (.int value)
  | float {w : List Char} {value : Binary64} (parsed : float? w = some value) :
    Compiled .float [w] (.float value)
  | entity {kind : Entity} {w : List Char} {index : Int} (parsed : int? w = some index) :
    Compiled (.entity kind) [w] (.entity kind index)

/-- A statement is an opcode and its operands; the operator is the one that the set has for it. -/
inductive Statement.Compiled (table : OperatorSet) : List (List Char) → Statement → Prop
  | mk {w : List Char} {ws : List (List Char)} {opcode : Int} {operands : List Operand}
    (parsed : int? w = some opcode)
    (listed : Decoder.Counted
      (fun slot => Operand.Compiled (roleOf (table.find? opcode.natAbs) slot)) ws operands) :
    Compiled table (w :: ws) ⟨opcode, table.find? opcode.natAbs, operands⟩

inductive Layout.Script.Compiled (table : OperatorSet) : List (List Char) → Script → Prop
  | mk {name flags : List Char} {ws : List (List Char)} {body : Block} (isName : IsWord name)
    (isFlags : IsWord flags)
    (listed : Decoder.Counted (fun _ => Statement.Compiled table) ws body) :
    Compiled table (name :: flags :: ws) ⟨.ofList name, .ofList flags, body⟩

theorem Operand.decoder_reads (role : Role) : (decoder role).Reads (Compiled role) := by
  cases role with
  | int => exact fun w v _ parsed => .int parsed
  | float => exact fun w v _ parsed => .float parsed
  | entity kind => exact fun w v _ parsed => .entity parsed

theorem Statement.decoder_reads (table : OperatorSet) :
    (decoder table).Reads (Compiled table) := by
  refine (Decoder.reads_token .int).bind ?_
  rintro ws opcode ⟨w, rfl, -, parsed⟩
  refine Decoder.reads_count.bind ?_
  rintro ws n ⟨v, m, rfl, counted, rfl⟩
  refine Decoder.Reads.map ((Decoder.Reads.collect (fun slot => Operand.decoder_reads _) _).mono ?_)
  rintro rest operands ⟨hlen, listed⟩
  exact .mk parsed ⟨v, m, rest, rfl, counted, hlen.symm, listed⟩

theorem Block.decoder_reads (table : OperatorSet) :
    (decoder table).Reads (Decoder.Counted fun _ => Statement.Compiled table) :=
  Decoder.Reads.counted fun r => (Statement.decoder_reads table).inRecord r

theorem Layout.Script.decoder_reads (table : OperatorSet) :
    (decoder table).Reads (Compiled table) := by
  refine (Decoder.reads_token .word).bind ?_
  rintro _ _ ⟨name, rfl, isName, ⟨⟩⟩
  refine (Decoder.reads_token .word).bind ?_
  rintro _ _ ⟨flags, rfl, isFlags, ⟨⟩⟩
  refine Decoder.Reads.map ((Block.decoder_reads table).mono ?_)
  intro ws body listed
  exact .mk isName isFlags listed

theorem Format.scripts_decoder_reads (table : OperatorSet) : (scripts.decoder table).Reads
    (Decoder.Counted fun _ => Script.Compiled table) :=
  Decoder.Reads.listOf (Script.decoder_reads table)

end ModuleSource
