import ModuleSource.Proofs.Operator.Names
import ModuleSource.Proofs.Statement.Compiled
import ModuleSource.Proofs.Statement.Invocation
import ModuleSource.Proofs.Text.Legible

/-!
The text of a block tells its statements. A head is a name or a numeral, which look different; the
sign of the opcode stands before it. An operand is a tagged name or a numeral, which look different
too, and its slot tells what it refers to. Floating-point operands are left out.
-/

namespace ModuleSource

open Text

/-- The names of each kind are without blanks, and no two entities of a kind have the same name. -/
structure Lexicon.Distinct (lexicon : Lexicon) : Prop where
  nodup : ∀ kind, (lexicon.table kind).toList.Nodup
  solid : ∀ kind, ∀ name ∈ lexicon.table kind, ∀ c ∈ name.toList, isBlank c = false

theorem Entity.tag_start {kind : Entity} (h : kind ≠ .dialogState) :
    ∃ c ∈ kind.tag.toList.head?, c ≠ '-' ∧ c.isDigit = false := by
  cases kind with
  | dialogState => exact absurd rfl h
  | _ => exact ⟨_, rfl, by decide, rfl⟩

theorem Entity.isBlank_tag (kind : Entity) : ∀ c ∈ kind.tag.toList, isBlank c = false := by
  cases kind <;> exact solid_of_all (by decide)

theorem NameTable.get?_inj {table : NameTable} (h : table.toList.Nodup) {i j : Int} {name : String}
    (hi : table.get? i = some name) (hj : table.get? j = some name) : i = j := by
  cases i with
  | negSucc i => cases hi
  | ofNat i =>
    cases j with
    | negSucc j => cases hj
    | ofNat j =>
      change table[i]? = some name at hi
      change table[j]? = some name at hj
      rw [← Array.getElem?_toList] at hi hj
      have hlt := (List.getElem?_eq_some_iff.mp hi).1
      exact congrArg Int.ofNat ((List.getElem?_inj hlt h).mp (hi.trans hj.symm))

namespace Lexicon

variable {lexicon : Lexicon} {kind : Entity}

theorem spell_toArray {names : List String} (h : lexicon.table kind = names.toArray) {i : Nat}
    (hi : i < names.length) : lexicon.spell kind i = kind.tag ++ names[i] := by
  refine spell_of_get? ?_
  rw [h]
  change names.toArray[i]? = some names[i]
  rw [List.getElem?_toArray, List.getElem?_eq_getElem hi]

theorem tag_append_ne_toString (hkind : kind ≠ .dialogState) (name : String) (i : Int) :
    kind.tag ++ name ≠ toString i := by
  intro h
  obtain ⟨c, hc, hsign, hdigit⟩ := Entity.tag_start hkind
  have hmem : c ∈ (toString i).toList := by
    rw [← h, String.toList_append, List.mem_append]
    exact Or.inl (List.mem_of_mem_head? hc)
  rcases mem_toString_int hmem with hc | hc
  · exact hsign hc
  · rw [hc] at hdigit
    cases hdigit

theorem Distinct.isWord_spell (h : lexicon.Distinct) (hkind : kind ≠ .dialogState) (i : Int) :
    IsWord (lexicon.spell kind i).toList := by
  cases hget : (lexicon.table kind).get? i with
  | none =>
    rw [spell_of_get?_none hget]
    exact isWord_toString_int i
  | some name =>
    rw [spell_of_get? hget, String.toList_append]
    constructor
    · obtain ⟨c, hc, -⟩ := Entity.tag_start hkind
      exact List.append_ne_nil_of_left_ne_nil (List.ne_nil_of_mem (List.mem_of_mem_head? hc)) _
    · intro c hc
      rcases List.mem_append.mp hc with hc | hc
      · exact Entity.isBlank_tag kind c hc
      · refine h.solid kind name ?_ c hc
        cases i with
        | ofNat i => exact Array.mem_of_getElem? hget
        | negSucc i => cases hget

/-- A number is told by its spelling, whether it has a name or not. -/
theorem spell_inj (hnodup : (lexicon.table kind).toList.Nodup) (hkind : kind ≠ .dialogState)
    {i j : Int} (heq : lexicon.spell kind i = lexicon.spell kind j) : i = j := by
  cases hi : (lexicon.table kind).get? i with
  | none =>
    rw [spell_of_get?_none hi] at heq
    cases hj : (lexicon.table kind).get? j with
    | none =>
      rw [spell_of_get?_none hj] at heq
      exact toString_int_inj heq
    | some name =>
      rw [spell_of_get? hj] at heq
      exact absurd heq.symm (tag_append_ne_toString hkind name i)
  | some name =>
    rw [spell_of_get? hi] at heq
    cases hj : (lexicon.table kind).get? j with
    | none =>
      rw [spell_of_get?_none hj] at heq
      exact absurd heq (tag_append_ne_toString hkind name j)
    | some other =>
      rw [spell_of_get? hj, ← String.toList_inj, String.toList_append, String.toList_append,
        List.append_cancel_left_eq, String.toList_inj] at heq
      exact NameTable.get?_inj hnodup hi (heq ▸ hj)

end Lexicon

namespace Operand

def role : Operand → Role
  | int _ => .int
  | float _ => .float
  | entity kind _ => .entity kind

theorem Compiled.role_eq {role : Role} {ws : List (List Char)} {operand : Operand}
    (h : operand.Compiled role ws) : operand.role = role := by
  cases h <;> rfl

/-- What can be told from its text: neither a floating-point number nor a reference without a tag.
-/
def Plain (operand : Operand) : Prop :=
  operand.role ≠ .float ∧ operand.role ≠ .entity .dialogState

variable {lexicon : Lexicon}

theorem Plain.isWord_render {operand : Operand} (h : operand.Plain) (hlexicon : lexicon.Distinct) :
    IsWord (operand.render lexicon).toList := by
  cases operand with
  | int value => exact isWord_toString_int value
  | float value => exact absurd rfl h.1
  | entity kind index => exact hlexicon.isWord_spell (fun hkind => h.2 (congrArg _ hkind)) index

theorem Plain.render_inj {a b : Operand} (h : a.Plain) (hlexicon : lexicon.Distinct)
    (hrole : a.role = b.role) (heq : a.render lexicon = b.render lexicon) : a = b := by
  cases a with
  | int v =>
    cases b with
    | int v' => exact congrArg int (toString_int_inj heq)
    | float => cases hrole
    | entity => cases hrole
  | float v => exact absurd rfl h.1
  | entity kind i =>
    cases b with
    | int => cases hrole
    | float => cases hrole
    | entity kind' j =>
      obtain rfl : kind = kind' := Role.entity.inj hrole
      have hkind : kind ≠ .dialogState := fun hkind => h.2 (congrArg _ hkind)
      exact congrArg (entity kind) (Lexicon.spell_inj (hlexicon.nodup kind) hkind heq)

end Operand

theorem OperatorSet.Readable.roleOf_ne {table : OperatorSet} (h : table.Readable)
    (code slot : Nat) : Statement.roleOf (table.find? code) slot ≠ .entity .dialogState := by
  cases hfind : table.find? code with
  | none => exact Role.noConfusion
  | some op =>
    intro hrole
    change (op.roles[slot]?).getD .int = _ at hrole
    cases hget : op.roles[slot]? with
    | none =>
      rw [hget] at hrole
      cases hrole
    | some role =>
      rw [hget] at hrole
      exact h.tagged op (find?_eq_some hfind).1 (hrole ▸ List.mem_of_getElem? hget)

namespace Statement

/-- No operand stands in a slot for floating-point numbers. -/
def Integral (s : Statement) : Prop :=
  ∀ slot < s.operands.length, roleOf s.operator slot ≠ .float

instance (s : Statement) : Decidable s.Integral :=
  inferInstanceAs (Decidable (∀ slot < s.operands.length, roleOf s.operator slot ≠ .float))

/-- A statement whose opcode tells its operator, and whose operands are as the operator has them and
can be told from their texts. -/
structure Plain (table : OperatorSet) (s : Statement) : Prop where
  operator : s.operator = table.find? s.opcode.natAbs
  role : ∀ slot operand, s.operands[slot]? = some operand → operand.role = roleOf s.operator slot
  operands : ∀ operand ∈ s.operands, operand.Plain

variable {table : OperatorSet}

theorem Compiled.operator_eq {ws : List (List Char)} {s : Statement} (h : s.Compiled table ws) :
    s.operator = table.find? s.opcode.natAbs := by
  cases h
  rfl

/-- An operand is of the role that its slot has. -/
theorem Compiled.role_eq {ws : List (List Char)} {s : Statement} (h : s.Compiled table ws)
    (slot : Nat) (operand : Operand) (hslot : s.operands[slot]? = some operand) :
    operand.role = roleOf s.operator slot := by
  obtain @⟨w, ws, opcode, operands, parsed, v, n, rest, -, -, -, listed⟩ := h
  obtain ⟨ws, hcompiled⟩ := listed.of_getElem? hslot
  rw [hcompiled.role_eq, Nat.zero_add]

theorem Compiled.plain {ws : List (List Char)} {s : Statement} (h : s.Compiled table ws)
    (htable : table.Readable) (hintegral : s.Integral) : s.Plain table := by
  refine ⟨h.operator_eq, h.role_eq, fun operand hoperand => ?_⟩
  obtain ⟨slot, hslot⟩ := List.getElem?_of_mem hoperand
  unfold Operand.Plain
  rw [h.role_eq slot operand hslot]
  refine ⟨hintegral slot (List.getElem?_eq_some_iff.mp hslot).1, ?_⟩
  rw [h.operator_eq]
  exact htable.roleOf_ne _ _

theorem Plain.head_of_operator {s : Statement} (h : s.Plain table) :
    (∃ op ∈ table.operators, op.code.toNat = s.opcode.natAbs ∧ s.head = op.name) ∨
      s.head = toString s.opcode.natAbs := by
  cases hop : s.operator with
  | none => exact Or.inr (by simp only [head, hop])
  | some op =>
    obtain ⟨hmem, hcode⟩ := OperatorSet.find?_eq_some (h.operator.symm.trans hop)
    exact Or.inl ⟨op, hmem, hcode, by simp only [head, hop]⟩

theorem Plain.not_mem_head {s : Statement} (h : s.Plain table) (htable : table.Readable) :
    '(' ∉ s.head.toList ∧ '|' ∉ s.head.toList := by
  rcases h.head_of_operator with ⟨op, hop, -, hhead⟩ | hhead
  · rw [hhead]
    exact htable.plain op hop
  · rw [hhead]
    exact ⟨fun hc => absurd (isDigit_of_mem_toString hc) (by decide),
      fun hc => absurd (isDigit_of_mem_toString hc) (by decide)⟩

theorem name_ne_toString {op : Operator} (htable : table.Readable) (hop : op ∈ table.operators)
    (n : Nat) : op.name ≠ toString n := by
  intro h
  obtain ⟨c, hc, hdigit⟩ := htable.start op hop
  rw [h] at hc
  rw [isDigit_of_mem_toString (List.mem_of_mem_head? hc)] at hdigit
  cases hdigit

/-- The head tells the opcode up to its sign. -/
theorem Plain.head_inj {s t : Statement} (hs : s.Plain table) (ht : t.Plain table)
    (htable : table.Readable) (heq : s.head = t.head) : s.opcode.natAbs = t.opcode.natAbs := by
  rcases hs.head_of_operator with ⟨op, hop, hcode, hhead⟩ | hhead
  · rcases ht.head_of_operator with ⟨op', hop', hcode', hhead'⟩ | hhead'
    · rw [hhead, hhead'] at heq
      rw [← hcode, ← hcode', htable.code_eq op hop op' hop' heq]
    · rw [hhead, hhead'] at heq
      exact absurd heq (name_ne_toString htable hop _)
  · rcases ht.head_of_operator with ⟨op', hop', hcode', hhead'⟩ | hhead'
    · rw [hhead, hhead'] at heq
      exact absurd heq.symm (name_ne_toString htable hop' _)
    · rw [hhead, hhead'] at heq
      exact toString_nat_inj heq

/-- What a statement is written with before its operands. -/
def front (s : Statement) : List Char :=
  (if s.negated then negation.toList else []) ++ s.head.toList

theorem Plain.front_inj {s t : Statement} (hs : s.Plain table) (ht : t.Plain table)
    (htable : table.Readable) (heq : s.front = t.front) : s.opcode = t.opcode := by
  -- Heads have no bar, so one in the text belongs to a negation.
  have bar (s : Statement) : '|' ∈ negation.toList ++ s.head.toList :=
    List.mem_append_left _ (by decide)
  unfold front at heq
  by_cases hn : s.opcode < 0
  · by_cases hn' : t.opcode < 0
    · simp only [negated, hn, hn', decide_true, if_true, List.append_cancel_left_eq,
        String.toList_inj] at heq
      have habs := hs.head_inj ht htable heq
      omega
    · simp only [negated, hn, hn', decide_true, decide_false, if_true, Bool.false_eq_true, if_false,
        List.nil_append] at heq
      exact absurd (heq ▸ bar s) (ht.not_mem_head htable).2
  · by_cases hn' : t.opcode < 0
    · simp only [negated, hn, hn', decide_true, decide_false, if_true, Bool.false_eq_true, if_false,
        List.nil_append] at heq
      exact absurd (heq ▸ bar t) (hs.not_mem_head htable).2
    · simp only [negated, hn, hn', decide_false, Bool.false_eq_true, if_false, List.nil_append,
        String.toList_inj] at heq
      have habs := hs.head_inj ht htable heq
      omega

theorem Plain.not_mem_front {s : Statement} (h : s.Plain table) (htable : table.Readable) :
    ∀ c ∈ s.front, c ≠ '(' := by
  rintro c hc rfl
  rcases List.mem_append.mp hc with hc | hc
  · split at hc
    · exact absurd hc (by decide)
    · cases hc
  · exact (h.not_mem_head htable).1 hc

def line (lexicon : Lexicon) (indent : String) (s : Statement) : List Char :=
  (indent ++ s.render lexicon ++ ",\n").toList

theorem line_append (lexicon : Lexicon) (indent : String) (s : Statement) (r : List Char) :
    s.line lexicon indent ++ r = indent.toList ++ (s.front ++ '(' ::
      ([',', ' '].intercalate (s.operands.map fun operand => (operand.render lexicon).toList) ++
        [')', ',', '\n'] ++ r)) := by
  simp [line, render, front, String.toList_intercalate, Function.comp_def, apply_ite String.toList]

/-- Operands are told from their texts slot by slot, since both have the roles of one operator. -/
theorem Plain.operands_inj {lexicon : Lexicon} (hlexicon : lexicon.Distinct) {s t : Statement}
    (hs : s.Plain table) (ht : t.Plain table) (hoperator : s.operator = t.operator)
    (heq : s.operands.map (fun operand => (operand.render lexicon).toList) =
      t.operands.map fun operand => (operand.render lexicon).toList) :
    s.operands = t.operands := by
  refine List.ext_getElem? fun slot => ?_
  have hslot := congrArg (·[slot]?) heq
  simp only [List.getElem?_map] at hslot
  cases ha : s.operands[slot]? with
  | none =>
    rw [ha, Option.map_none, eq_comm, Option.map_eq_none_iff] at hslot
    exact hslot.symm
  | some a =>
    rw [ha, Option.map_some, eq_comm, Option.map_eq_some_iff] at hslot
    obtain ⟨b, hb, hrender⟩ := hslot
    have hrole : a.role = b.role := by rw [hs.role slot a ha, ht.role slot b hb, hoperator]
    have hplain := hs.operands a (List.mem_of_getElem? ha)
    rw [hb, hplain.render_inj hlexicon hrole (String.toList_inj.mp hrender.symm)]

/-- A line tells the statement on it. -/
theorem legible_line {lexicon : Lexicon} (hlexicon : lexicon.Distinct) (htable : table.Readable)
    (indent : String) : Legible (Plain table) (line lexicon indent) := by
  have words {s : Statement} (hs : s.Plain table) :
      ∀ w ∈ s.operands.map fun operand => (operand.render lexicon).toList, IsWord w := by
    intro w hw
    obtain ⟨operand, hoperand, rfl⟩ := List.mem_map.mp hw
    exact (hs.operands operand hoperand).isWord_render hlexicon
  intro s t hs ht r r' h
  rw [line_append, line_append, List.append_cancel_left_eq] at h
  obtain ⟨hfront, -, hrest⟩ := append_cons_inj (hs.not_mem_front htable) (ht.not_mem_front htable)
    (not_not.mpr rfl) (not_not.mpr rfl) h
  obtain ⟨htexts, hr⟩ := legible_joined (words hs) (words ht) hrest
  have hopcode := hs.front_inj ht htable hfront
  have hoperator : s.operator = t.operator := by rw [hs.operator, ht.operator, hopcode]
  have hoperands := hs.operands_inj hlexicon ht hoperator htexts
  obtain ⟨opcode, operator, operands⟩ := s
  obtain ⟨opcode', operator', operands'⟩ := t
  dsimp only at hopcode hoperator hoperands
  rw [hopcode, hoperator, hoperands]
  exact ⟨rfl, hr⟩

end Statement

namespace Block

theorem toList_lines (lexicon : Lexicon) (indent : String) (block : Block) :
    (block.lines lexicon indent).toList = block.flatMap (Statement.line lexicon indent) := by
  rw [lines, String.toList_join, List.flatMap_map]
  rfl

/-- The text of a block tells its statements. The lines of statements go further in than the bracket
after them. -/
theorem legible_render {table : OperatorSet} {lexicon : Lexicon} (hlexicon : lexicon.Distinct)
    (htable : table.Readable) (indent : String) :
    Legible (fun block : Block => ∀ s ∈ block, s.Plain table)
      fun block => (block.render lexicon indent).toList := by
  have hstop (s : Statement) (_ : s.Plain table) (r r' : List Char) :
      s.line lexicon (indent ++ "  ") ++ r ≠ (indent ++ "]").toList ++ r' := by
    simp [Statement.line_append]
  have hlines := (Statement.legible_line hlexicon htable (indent ++ "  ")).flatMap _ hstop
  intro a b ha hb r s h
  cases a with
  | nil =>
    cases b with
    | nil => exact ⟨rfl, List.append_cancel_left h⟩
    | cons t b => simp [render] at h
  | cons t a =>
    cases b with
    | nil => simp [render] at h
    | cons u b =>
      have htext (t : Statement) (block : Block) (r : List Char) :
          (render lexicon indent (t :: block)).toList ++ r = '[' :: '\n' ::
            ((t :: block).flatMap (Statement.line lexicon (indent ++ "  ")) ++
              (indent ++ "]").toList ++ r) := by
        rw [← toList_lines]
        simp [render]
      rw [htext, htext] at h
      exact hlines ha hb (List.cons.inj (List.cons.inj h).2).2

end Block

end ModuleSource
