import ModuleSource.Engine
import ModuleSource.Proofs.Text.Encoding

/-!
Names of operators. In the set of every engine build a name belongs to one code, starts like no
numeral and has none of the characters that end or negate the head of a statement. The declared
operators are checked once, all builds together, on the bytes of their names.
-/

namespace ModuleSource

open Text

/-- What statements need of a set of operators, so that their heads can be told apart. -/
structure OperatorSet.Readable (table : OperatorSet) : Prop where
  start : ∀ op ∈ table.operators, ∃ c ∈ op.name.toList.head?, c.isDigit = false
  plain : ∀ op ∈ table.operators, '(' ∉ op.name.toList ∧ '|' ∉ op.name.toList
  code_eq : ∀ op ∈ table.operators, ∀ op' ∈ table.operators, op.name = op'.name → op.code = op'.code
  /-- States of dialogs are written without a tag, so they could be taken for numbers. -/
  tagged : ∀ op ∈ table.operators, .entity .dialogState ∉ op.roles

namespace Operator

/-- The lists that the sets of all builds are made of. -/
def lists : List (List Operator) := [shared, vanilla, warband, enhancer3, enhancer45, caribbean]

def declared : List Operator := lists.flatten

/-- A search tree from numbers to numbers. -/
inductive Index where
  | empty
  | node (left : Index) (key value : Nat) (right : Index)

namespace Index

/-- A key that is already there keeps its value. -/
def insert (key value : Nat) : Index → Index
  | empty => node empty key value empty
  | node left k v right =>
    if key < k then node (left.insert key value) k v right
    else if k < key then node left k v (right.insert key value)
    else node left k v right

def get? (key : Nat) : Index → Option Nat
  | empty => none
  | node left k v right =>
    if key < k then left.get? key
    else if k < key then right.get? key
    else some v

end Index

def nameBytes (op : Operator) : List UInt8 := op.name.toUTF8.data.toList

/-- The bytes of the name as one number. -/
def nameKey (op : Operator) : Nat := op.nameBytes.foldl (fun n b => 256 * n + b.toNat) 0

/-- The code of each name. -/
def codes : Index := declared.foldl (fun index op => index.insert op.nameKey op.code.toNat) .empty

def readable (op : Operator) : Bool :=
  op.nameBytes.head?.any (fun b => 97 ≤ b && b ≤ 122) &&
    op.nameBytes.all (fun b => b != 40 && b != 124) &&
    codes.get? op.nameKey == some op.code.toNat &&
    !op.roles.contains (.entity .dialogState)

theorem declared_readable : declared.all readable = true := by decide +kernel

theorem nameBytes_eq (op : Operator) : op.nameBytes = utf8 op.name.toList := by
  rw [nameBytes, ← toList_eq_toList_data, toList_toUTF8]

section Declared

variable {op op' : Operator}

theorem start_of_mem_declared (h : op ∈ declared) :
    ∃ c ∈ op.name.toList.head?, c.isDigit = false := by
  have hreadable := List.all_eq_true.mp declared_readable op h
  simp only [readable, nameBytes_eq, Bool.and_eq_true] at hreadable
  obtain ⟨⟨⟨hletter, -⟩, -⟩, -⟩ := hreadable
  cases hname : op.name.toList with
  | nil => simp [hname, utf8] at hletter
  | cons c cs =>
    obtain ⟨b, bs, hb⟩ := List.exists_cons_of_ne_nil (String.utf8EncodeChar_ne_nil (c := c))
    simp only [hname, utf8, List.flatMap_cons, hb, List.cons_append, List.head?_cons,
      Option.any_some, Bool.and_eq_true, decide_eq_true_eq, UInt8.le_iff_toNat_le] at hletter
    have hbyte : 97 ≤ b.toNat ∧ b.toNat ≤ 122 := hletter
    have hc : c.toNat = b.toNat :=
      (utf8EncodeChar_of_lt (by rw [hb]; exact List.mem_cons_self) (by omega)).2
    refine ⟨c, rfl, ?_⟩
    by_contra hdigit
    simp only [Char.isDigit, Bool.not_eq_false, Bool.and_eq_true, decide_eq_true_eq,
      UInt32.le_iff_toNat_le] at hdigit
    have hle : c.toNat ≤ 57 := hdigit.2
    omega

theorem plain_of_mem_declared (h : op ∈ declared) :
    '(' ∉ op.name.toList ∧ '|' ∉ op.name.toList := by
  have hreadable := List.all_eq_true.mp declared_readable op h
  simp only [readable, nameBytes_eq, Bool.and_eq_true, List.all_eq_true, bne_iff_ne]
    at hreadable
  obtain ⟨⟨⟨-, hplain⟩, -⟩, -⟩ := hreadable
  have hbyte {c : Char} {b : UInt8} (hb : b ∈ String.utf8EncodeChar c) (hc : c ∈ op.name.toList) :
      b ∈ utf8 op.name.toList := List.mem_flatMap.mpr ⟨c, hc, hb⟩
  exact ⟨fun hc => (hplain 40 (hbyte (by decide) hc)).1 rfl,
    fun hc => (hplain 124 (hbyte (by decide) hc)).2 rfl⟩

theorem code_eq_of_mem_declared (h : op ∈ declared) (h' : op' ∈ declared)
    (hname : op.name = op'.name) : op.code = op'.code := by
  have hcode {op : Operator} (h : op ∈ declared) : codes.get? op.nameKey = some op.code.toNat := by
    have hreadable := List.all_eq_true.mp declared_readable op h
    simp only [readable, Bool.and_eq_true, beq_iff_eq] at hreadable
    exact hreadable.1.2
  have hkey : op.nameKey = op'.nameKey := by rw [nameKey, nameKey, nameBytes, nameBytes, hname]
  have hsome := hcode h
  rw [hkey, hcode h'] at hsome
  exact (UInt32.toNat_inj.mp (Option.some.inj hsome)).symm

theorem tagged_of_mem_declared (h : op ∈ declared) : .entity .dialogState ∉ op.roles := by
  have hreadable := List.all_eq_true.mp declared_readable op h
  simp only [readable, Bool.and_eq_true] at hreadable
  simpa using hreadable.2

end Declared

end Operator

namespace OperatorSet

theorem mem_insert {op other : Operator} {operators : List Operator}
    (h : op ∈ insert other operators) : op = other ∨ op ∈ operators := by
  induction operators with
  | nil => exact Or.inl (List.mem_singleton.mp h)
  | cons first rest ih =>
    unfold insert at h
    split at h
    · exact List.mem_cons.mp h
    · split at h
      · exact (List.mem_cons.mp h).imp_right (List.mem_cons_of_mem first)
      · rcases List.mem_cons.mp h with rfl | h
        · exact Or.inr List.mem_cons_self
        · exact (ih h).imp_right (List.mem_cons_of_mem first)

theorem mem_ofList {engine : Engine} {op : Operator} {operators : List Operator}
    (h : op ∈ (ofList engine operators).operators) : op ∈ operators := by
  have loop (operators found : List Operator)
      (h : op ∈ operators.foldl (fun table op => insert op table) found) :
      op ∈ operators ∨ op ∈ found := by
    induction operators generalizing found with
    | nil => exact Or.inr h
    | cons first rest ih =>
      rcases ih (insert first found) h with h | h
      · exact Or.inl (List.mem_cons_of_mem first h)
      · rcases mem_insert h with rfl | h
        · exact Or.inl List.mem_cons_self
        · exact Or.inr h
  exact (loop operators [] h).resolve_right List.not_mem_nil

theorem mem_declared {engine : Engine} {op : Operator}
    (h : op ∈ (ofEngine engine).operators) : op ∈ Operator.declared := by
  obtain ⟨operators, hlist, hop⟩ := List.mem_flatten.mp (mem_ofList h)
  have hsub : engine.operatorLists ⊆ Operator.lists := by
    cases engine <;> simp [Engine.operatorLists, Operator.lists]
  exact List.mem_flatten.mpr ⟨operators, hsub hlist, hop⟩

/-- Whatever the build, the heads of statements can be told apart. -/
theorem readable_ofEngine (engine : Engine) : (ofEngine engine).Readable where
  start _ h := Operator.start_of_mem_declared (mem_declared h)
  plain _ h := Operator.plain_of_mem_declared (mem_declared h)
  code_eq _ h _ h' := Operator.code_eq_of_mem_declared (mem_declared h) (mem_declared h')
  tagged _ h := Operator.tagged_of_mem_declared (mem_declared h)

theorem find?_eq_some {table : OperatorSet} {code : Nat} {op : Operator}
    (h : table.find? code = some op) : op ∈ table.operators ∧ op.code.toNat = code :=
  ⟨List.mem_of_find?_eq_some h, by simpa using List.find?_some h⟩

end OperatorSet

end ModuleSource
