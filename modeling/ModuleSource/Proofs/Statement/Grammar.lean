import Mathlib.Algebra.Group.Nat.Defs
import ModuleSource.Proofs.Decoder.Grammar
import ModuleSource.Proofs.Operator.Names
import ModuleSource.Proofs.Statement.Compiled
import ModuleSource.Proofs.Statement.Invocation

/-!
The grammar of statement blocks, with what is made of each token. A block is a count and that many
records; a record is an opcode, a count and that many operands; the slot of an operand says what it
is and how it is written. The decoder of blocks accepts the token lists that start so and no others,
stops where the block ends, and its statements are those of the grammar.
-/

namespace ModuleSource

open Text Number

/-- What a code calls, and the roles of the operands. Operators have codes of 32 bits. -/
inductive OperatorSet.Calls (table : OperatorSet) (code : Nat) : Callee → List Role → Prop
  | known {op : Operator} (small : code < 2 ^ 32) (found : table.find? code = some op) :
    Calls table code (.operator op.name) op.roles
  | unknown (missing : ¬(code < 2 ^ 32 ∧ ∃ op, table.find? code = some op)) :
    Calls table code (.raw code) []

/-- How the token in a slot is written. A slot past the roles holds a plain integer; an integer in a
slot for entities is written by its name if the table of the kind has that index. -/
inductive Operand.Written (lexicon : Lexicon) : Option Role → List Char → String → Prop
  | undeclared {w : List Char} {v : Int} (parsed : int? w = some v) :
    Written lexicon none w (toString v)
  | int {w : List Char} {v : Int} (parsed : int? w = some v) :
    Written lexicon (some .int) w (toString v)
  | float {w : List Char} {x : Binary64} (parsed : float? w = some x) :
    Written lexicon (some .float) w x.literal
  | named {kind : Entity} {w : List Char} {i : Nat} {name : String}
    (parsed : int? w = some (i : Int)) (found : (lexicon.table kind)[i]? = some name) :
    Written lexicon (some (.entity kind)) w (kind.tag ++ name)
  | unnamed {kind : Entity} {w : List Char} {v : Int} (parsed : int? w = some v)
    (outside : v < 0 ∨ (lexicon.table kind).size ≤ v) :
    Written lexicon (some (.entity kind)) w (toString v)

/-- A record: an opcode, a count and the operands, slot by slot. A negative count stands for none.
-/
inductive Statement.Written (table : OperatorSet) (lexicon : Lexicon) :
    List (List Char) → Invocation → Prop
  | mk {w m : List Char} {ws : List (List Char)} {opcode n : Int} {callee : Callee}
    {roles : List Role} {texts : List String} (parsed : int? w = some opcode)
    (counted : int? m = some n) (calls : table.Calls opcode.natAbs callee roles)
    (length : ws.length = n.toNat) (length_eq : ws.length = texts.length)
    (slots : ∀ (slot : Nat) (v : List Char) (text : String), ws[slot]? = some v →
      texts[slot]? = some text → Operand.Written lexicon roles[slot]? v text) :
    Written table lexicon (w :: m :: ws) ⟨opcode < 0, callee, texts⟩

/-- A block: a count and the records, each with its own tokens. -/
def Block.Written (table : OperatorSet) (lexicon : Lexicon) (ws : List (List Char))
    (calls : List Invocation) : Prop :=
  ∃ (w : List Char) (n : Int) (records : List (List (List Char))),
    ws = w :: records.flatten ∧ int? w = some n ∧ records.length = n.toNat ∧
      List.Forall₂ (Statement.Written table lexicon) records calls

namespace Operand

variable {lexicon : Lexicon}

theorem Compiled.eq_singleton {role : Role} {ws : List (List Char)} {operand : Operand}
    (h : operand.Compiled role ws) : ∃ w, ws = [w] := by
  cases h <;> exact ⟨_, rfl⟩

theorem written_entity {kind : Entity} {w : List Char} {index : Int}
    (parsed : int? w = some index) :
    Written lexicon (some (.entity kind)) w (lexicon.spell kind index) := by
  have hspelt := lexicon.resolves_spell kind index
  generalize lexicon.spell kind index = text at hspelt
  cases hspelt with
  | named found => exact .named parsed found
  | unnamed outside => exact .unnamed parsed outside

/-- The token of a slot is written as the operand compiled to it is rendered. -/
theorem written_iff {role : Option Role} {w : List Char} {text : String} :
    Written lexicon role w text ↔
      ∃ operand : Operand,
        operand.Compiled (role.getD .int) [w] ∧ operand.render lexicon = text := by
  constructor
  · intro h
    cases h with
    | undeclared parsed => exact ⟨_, .int parsed, rfl⟩
    | int parsed => exact ⟨_, .int parsed, rfl⟩
    | float parsed => exact ⟨_, .float parsed, rfl⟩
    | named parsed found => exact ⟨_, .entity parsed, Lexicon.spell_of_get? found⟩
    | @unnamed kind w v parsed outside =>
      refine ⟨_, .entity parsed, Lexicon.spell_of_get?_none ?_⟩
      cases v with
      | ofNat i =>
        rw [Int.ofNat_eq_natCast] at outside
        exact Array.getElem?_eq_none (by omega)
      | negSucc i => rfl
  · rintro ⟨operand, h, rfl⟩
    rcases role with _ | _ | _ | kind
    · obtain ⟨parsed⟩ := h
      exact .undeclared parsed
    · obtain ⟨parsed⟩ := h
      exact .int parsed
    · obtain _ | ⟨parsed⟩ := h
      exact .float parsed
    · obtain _ | _ | ⟨parsed⟩ := h
      exact written_entity parsed

end Operand

namespace OperatorSet

variable {table : OperatorSet} {code : Nat} {callee : Callee} {roles : List Role}

theorem lt_of_find? {op : Operator} (h : table.find? code = some op) : code < 2 ^ 32 := by
  rw [← (find?_eq_some h).2]
  exact op.code.toNat_lt

/-- The roles that an operator declares, if there is one. -/
def rolesOf : Option Operator → List Role
  | some op => op.roles
  | none => []

/-- A code calls what is found for it, and nothing else. -/
theorem calls_iff : table.Calls code callee roles ↔
    callee = .ofFound code (table.find? code) ∧ roles = rolesOf (table.find? code) := by
  constructor
  · intro h
    cases h with
    | known small found =>
      rw [found]
      exact ⟨rfl, rfl⟩
    | unknown missing =>
      have hnone : table.find? code = none := by
        rw [Option.eq_none_iff_forall_not_mem]
        exact fun op hop => missing ⟨lt_of_find? hop, op, hop⟩
      rw [hnone]
      exact ⟨rfl, rfl⟩
  · rintro ⟨rfl, rfl⟩
    cases hfind : table.find? code with
    | some op => exact .known (lt_of_find? hfind) hfind
    | none => exact .unknown fun ⟨_, op, hop⟩ => nomatch hfind.symm.trans hop

end OperatorSet

namespace Statement

variable {table : OperatorSet} {lexicon : Lexicon} {ws : List (List Char)} {call : Invocation}

theorem roleOf_eq (operator : Option Operator) (slot : Nat) :
    roleOf operator slot = ((OperatorSet.rolesOf operator)[slot]?).getD .int := by
  cases operator with
  | some op => rfl
  | none => rfl

/-- The operands of a record are written slot by slot. -/
theorem exists_operands_iff {operator : Option Operator} {texts : List String} :
    (∃ operands : List Operand,
        Decoder.Listed (fun slot => Operand.Compiled (roleOf operator slot)) 0 ws operands ∧
          operands.map (·.render lexicon) = texts) ↔
      ws.length = texts.length ∧
        ∀ (slot : Nat) (v : List Char) (text : String), ws[slot]? = some v →
          texts[slot]? = some text →
            Operand.Written lexicon (OperatorSet.rolesOf operator)[slot]? v text := by
  have hslot (slot : Nat) (ws : List (List Char)) (text : String) :
      (∃ w, ws = [w] ∧ Operand.Written lexicon (OperatorSet.rolesOf operator)[slot]? w text) ↔
        ∃ operand : Operand, operand.Compiled (roleOf operator slot) ws ∧
          operand.render lexicon = text := by
    rw [roleOf_eq]
    constructor
    · rintro ⟨w, rfl, hwritten⟩
      exact Operand.written_iff.mp hwritten
    · rintro ⟨operand, hcompiled, htext⟩
      obtain ⟨w, rfl⟩ := hcompiled.eq_singleton
      exact ⟨w, rfl, Operand.written_iff.mpr ⟨operand, hcompiled, htext⟩⟩
  rw [← Decoder.listed_iff_exists_map hslot, Decoder.listed_iff_getElem?]
  simp only [Nat.zero_add]

theorem written_iff :
    Written table lexicon ws call ↔
      ∃ s : Statement, s.Compiled table ws ∧ s.invocation lexicon = call := by
  constructor
  · rintro ⟨parsed, counted, calls, length, length_eq, slots⟩
    obtain ⟨rfl, rfl⟩ := OperatorSet.calls_iff.mp calls
    obtain ⟨operands, listed, rfl⟩ := exists_operands_iff.mpr ⟨length_eq, slots⟩
    rw [List.length_map] at length_eq
    exact ⟨_, .mk parsed ⟨_, _, _, rfl, counted, length.symm.trans length_eq, listed⟩, rfl⟩
  · rintro ⟨s, ⟨parsed, m, n, rest, rfl, counted, length, listed⟩, rfl⟩
    obtain ⟨length_eq, slots⟩ := exists_operands_iff.mp ⟨_, listed, rfl⟩
    refine .mk parsed counted (OperatorSet.calls_iff.mpr ⟨rfl, rfl⟩) ?_ length_eq slots
    rw [length_eq, List.length_map, length]

end Statement

namespace Block

variable {table : OperatorSet} {lexicon : Lexicon} {ws : List (List Char)} {calls : List Invocation}

theorem written_iff :
    Written table lexicon ws calls ↔
      ∃ block : Block, Decoder.Counted (fun _ => Statement.Compiled table) ws block ∧
        block.map (·.invocation lexicon) = calls := by
  have hlisted (rest : List (List Char)) :
      (∃ records : List (List (List Char)), rest = records.flatten ∧
          List.Forall₂ (Statement.Written table lexicon) records calls) ↔
        ∃ block : Block, Decoder.Listed (fun _ => Statement.Compiled table) 0 rest block ∧
          block.map (·.invocation lexicon) = calls := by
    rw [← Decoder.listed_iff_forall₂ (i := 0)]
    exact Decoder.listed_iff_exists_map (S := fun _ => Statement.Written table lexicon)
      (R := fun _ => Statement.Compiled table) fun _ _ _ => Statement.written_iff
  constructor
  · rintro ⟨w, n, records, rfl, parsed, length, written⟩
    obtain ⟨block, listed, rfl⟩ := (hlisted _).mp ⟨records, rfl, written⟩
    refine ⟨block, ⟨w, n, _, rfl, parsed, ?_, listed⟩, rfl⟩
    rw [← length, written.length_eq, List.length_map]
  · rintro ⟨block, ⟨w, n, rest, rfl, parsed, length, listed⟩, rfl⟩
    obtain ⟨records, rfl, written⟩ := (hlisted rest).mpr ⟨block, listed, rfl⟩
    refine ⟨w, n, records, rfl, parsed, ?_, written⟩
    rw [written.length_eq, List.length_map, length]

end Block

theorem Operand.Compiled.consumes {role : Role} {ws : List (List Char)} {operand : Operand}
    (h : operand.Compiled role ws) : (decoder role).Consumes ws operand := by
  cases h with
  | int parsed => exact (Decoder.consumes_token .int parsed).map _
  | float parsed => exact (Decoder.consumes_token .float parsed).map _
  | entity parsed => exact (Decoder.consumes_token .int parsed).map _

theorem Statement.Compiled.consumes {table : OperatorSet} {ws : List (List Char)} {s : Statement}
    (h : s.Compiled table ws) : (decoder table).Consumes ws s := by
  obtain ⟨parsed, m, n, rest, rfl, counted, length, listed⟩ := h
  refine (Decoder.consumes_token .int parsed).bind ?_
  refine (Decoder.consumes_count counted).bind ?_
  rw [length]
  exact (listed.consumes fun _ _ _ hcompiled => hcompiled.consumes).map _

theorem Block.decoder_consumes {table : OperatorSet} {ws : List (List Char)} {block : Block}
    (h : Decoder.Counted (fun _ => Statement.Compiled table) ws block) :
    (decoder table).Consumes ws block :=
  (h.consumes fun r _ _ hcompiled => hcompiled.consumes.inRecord r).look

/-- The decoder of blocks accepts what starts with a block, takes the tokens of the block, and comes
to its statements. -/
theorem Block.decoder_accepts_written (table : OperatorSet) (lexicon : Lexicon) (looks : Nat)
    {s : Source} (hs : s.Clean) (calls : List Invocation) (rest : List (List Char)) :
    (∃ (block : Block) (s' : Source), (decoder table).run .never looks s = (.ok block, s') ∧
        s'.tokens = rest ∧ block.map (·.invocation lexicon) = calls) ↔
      ∃ ws, s.tokens = ws ++ rest ∧ Written table lexicon ws calls := by
  have hruns := Decoder.run_eq_ok_iff (decoder_reads table)
    (fun _ _ => decoder_consumes) hs looks
  constructor
  · rintro ⟨block, s', hrun, hrest, hcalls⟩
    obtain ⟨ws, htokens, hcounted⟩ := (hruns block rest).mp ⟨s', hrun, hrest⟩
    exact ⟨ws, htokens, written_iff.mpr ⟨block, hcounted, hcalls⟩⟩
  · rintro ⟨ws, htokens, hwritten⟩
    obtain ⟨block, hcounted, hcalls⟩ := written_iff.mp hwritten
    obtain ⟨s', hrun, hrest⟩ := (hruns block rest).mpr ⟨ws, htokens, hcounted⟩
    exact ⟨block, s', hrun, hrest, hcalls⟩

/-- Two records: an operator with a name, an index without one, a float and an integer past its
roles; and the least opcode, which no operator has, with a count below nought. -/
theorem Block.decoder_accepts_written_extremes :
    let table : OperatorSet :=
      ⟨.vanilla, [⟨1, "op", .atLeast 3, [.entity .troop, .entity .troop, .float]⟩]⟩
    let lexicon := Lexicon.empty.insert .troop #["farmer"]
    let s := Source.ofBytes "2 -1 4 0 7 1.5 9 -9223372036854775808 -3 x".toUTF8
    s.Clean ∧ ∃ (block : Block) (s' : Source),
      (decoder table).run .never 0 s = (.ok block, s') ∧ s'.tokens = [['x']] ∧
        block.map (·.invocation lexicon) =
          [⟨true, .operator "op", ["trp_farmer", "7", "1.5", "9"]⟩, ⟨true, .raw (2 ^ 63), []⟩] := by
  intro table lexicon s
  have hclean : s.Clean := Source.clean_ofBytes_toUTF8 _
  have htokens : s.tokens = ["2", "-1", "4", "0", "7", "1.5", "9", "-9223372036854775808", "-3",
      "x"].map String.toList := by decide +kernel
  have hfirst : Statement.Written table lexicon
      (["-1", "4", "0", "7", "1.5", "9"].map String.toList)
      ⟨true, .operator "op", ["trp_farmer", "7", "1.5", "9"]⟩ := by
    have hopcode : int? "-1".toList = some (-1) := by decide +kernel
    have hcount : int? "4".toList = some 4 := by decide +kernel
    refine .mk hopcode hcount (OperatorSet.calls_iff.mpr ⟨rfl, rfl⟩) rfl rfl ?_
    rintro (_ | _ | _ | _ | slot) v text ⟨⟩ ⟨⟩
    · exact Operand.written_iff.mpr ⟨.entity .troop 0, .entity (by decide +kernel), by decide⟩
    · exact Operand.written_iff.mpr ⟨.entity .troop 7, .entity (by decide +kernel), by decide⟩
    · exact Operand.written_iff.mpr
        ⟨.float (.finite false (3 * 2 ^ 51) (-52)), .float (by decide +kernel), by decide +kernel⟩
    · exact Operand.written_iff.mpr ⟨.int 9, .int (by decide +kernel), by decide⟩
  have hsecond : Statement.Written table lexicon
      (["-9223372036854775808", "-3"].map String.toList) ⟨true, .raw (2 ^ 63), []⟩ := by
    have hopcode : int? "-9223372036854775808".toList = some (-2 ^ 63) := by decide +kernel
    have hcount : int? "-3".toList = some (-3) := by decide +kernel
    refine .mk hopcode hcount (.unknown fun h => absurd h.1 (by decide)) rfl rfl ?_
    rintro slot v text ⟨⟩
  refine ⟨hclean, (decoder_accepts_written table lexicon 0 hclean _ _).mpr ?_⟩
  exact ⟨_, htokens, _, 2, [_, _], rfl, by decide +kernel, rfl, .cons hfirst (.cons hsecond .nil)⟩

end ModuleSource
