import ModuleSource.Proofs.Layout.Interleaved
import ModuleSource.Proofs.Statement.Legible

/-!
A lexicon decides names and nothing else. Names are looked up between the reads, and no read depends
on them, so under two lexicons a file fails in the same way or has the same records, and is read to
the same place. The statements of a block are then spelt alike, but for operands that refer to an
entity for which one of the lexicons has a name.
-/

namespace ModuleSource

namespace Statement

/-- A statement is spelt alike under two lexicons, but for operands in slots for entities whose
index is inside the table of one of them. -/
structure SpeltAlike (table : OperatorSet) (lexicon lexicon' : Lexicon) (s : Statement) : Prop where
  written : s.render lexicon = (s.invocation lexicon).text ∧
    s.render lexicon' = (s.invocation lexicon').text
  negated_eq : (s.invocation lexicon).negated = (s.invocation lexicon').negated
  callee_eq : (s.invocation lexicon).callee = (s.invocation lexicon').callee
  length_eq : (s.invocation lexicon).operands.length = (s.invocation lexicon').operands.length
  named : ∀ slot : Nat,
    (s.invocation lexicon).operands[slot]? ≠ (s.invocation lexicon').operands[slot]? →
    ∃ (kind : Entity) (i : Nat), roleOf (table.find? s.opcode.natAbs) slot = .entity kind ∧
      s.operands[slot]? = some (.entity kind i) ∧
      (i < (lexicon.table kind).size ∨ i < (lexicon'.table kind).size)

end Statement

section Names

variable {lexicon lexicon' : Lexicon} {kind : Entity}

theorem NameTable.get?_of_size_le {table : NameTable} {i : Nat} (h : table.size ≤ i) :
    table.get? (.ofNat i) = none :=
  Array.getElem?_eq_none h

/-- Only an index that one of the lexicons has a name for is spelt in two ways. -/
theorem Lexicon.lt_size_of_spell_ne {index : Int}
    (h : lexicon.spell kind index ≠ lexicon'.spell kind index) :
    ∃ i : Nat, index = i ∧ (i < (lexicon.table kind).size ∨ i < (lexicon'.table kind).size) := by
  cases index with
  | ofNat i =>
    refine ⟨i, rfl, ?_⟩
    by_contra hout
    obtain ⟨hle, hle'⟩ := not_or.mp hout
    refine h ?_
    rw [spell_of_get?_none (NameTable.get?_of_size_le (Nat.le_of_not_lt hle)),
      spell_of_get?_none (NameTable.get?_of_size_le (Nat.le_of_not_lt hle'))]
  | negSucc i => exact absurd rfl h

theorem Operand.entity_of_render_ne {operand : Operand}
    (h : operand.render lexicon ≠ operand.render lexicon') :
    ∃ (kind : Entity) (i : Nat), operand = .entity kind i ∧
      (i < (lexicon.table kind).size ∨ i < (lexicon'.table kind).size) := by
  cases operand with
  | int value => exact absurd rfl h
  | float value => exact absurd rfl h
  | entity kind index =>
    obtain ⟨i, rfl, hi⟩ := Lexicon.lt_size_of_spell_ne h
    exact ⟨kind, i, rfl, hi⟩

theorem Statement.Compiled.speltAlike {table : OperatorSet} {ws : List (List Char)} {s : Statement}
    (h : s.Compiled table ws) (lexicon lexicon' : Lexicon) :
    s.SpeltAlike table lexicon lexicon' where
  written := ⟨s.render_eq_invocation lexicon, s.render_eq_invocation lexicon'⟩
  negated_eq := rfl
  callee_eq := rfl
  length_eq := by simp [invocation]
  named slot hne := by
    simp only [invocation, List.getElem?_map] at hne
    cases hslot : s.operands[slot]? with
    | none => simp [hslot] at hne
    | some operand =>
      have hrender : operand.render lexicon ≠ operand.render lexicon' := by simpa [hslot] using hne
      obtain ⟨kind, i, rfl, hi⟩ := Operand.entity_of_render_ne hrender
      have hrole := h.role_eq slot _ hslot
      rw [h.operator_eq] at hrole
      exact ⟨kind, i, hrole.symm, rfl, hi⟩

end Names

section Runs

variable {α β γ : Type} (signal : StopSignal) (looks : Nat) (s : Source)

theorem Decoder.run_map (f : α → β) (d : Decoder α) : (f <$> d).run signal looks s =
    ((d.run signal looks s).1.map f, (d.run signal looks s).2) := by
  change (d.bind fun a => done (f a)).run signal looks s = _
  induction d generalizing looks s with
  | done a => rfl
  | look next ih =>
    unfold bind run
    split
    · rfl
    · exact ih (looks + 1) s
  | read site kind next ih =>
    unfold bind run
    rcases s.read kind with ⟨cause | value, t⟩
    · rfl
    · exact ih value looks t

/-- What is made of the values of a decoder has no effect on its runs. -/
theorem Decoder.run_map_cases (d : Decoder α) (f : α → β) (g : α → γ) : ∃ t,
    (∃ e, (f <$> d).run signal looks s = (.error e, t) ∧
      (g <$> d).run signal looks s = (.error e, t)) ∨
    ∃ a, d.run signal looks s = (.ok a, t) ∧ (f <$> d).run signal looks s = (.ok (f a), t) ∧
      (g <$> d).run signal looks s = (.ok (g a), t) := by
  rw [run_map, run_map]
  rcases d.run signal looks s with ⟨e | a, t⟩
  · exact ⟨t, Or.inl ⟨e, rfl, rfl⟩⟩
  · exact ⟨t, Or.inr ⟨a, rfl, rfl, rfl⟩⟩

theorem Format.generate_eq_run_map (format : Format) (context : Context) :
    format.generate context signal looks s =
      (format.render context.lexicon <$> format.decoder context.operators).run signal looks s := by
  rw [Decoder.run_map, generate]
  rcases (format.decoder context.operators).run signal looks s with ⟨e | records, t⟩ <;> rfl

end Runs

/-- Missing or wrong names change no more than names. A module written while its file is read, each
name looked up as soon as its index is there, is the module generated from the decoded file. Under
any two lexicons a file of any format fails alike or gives the same records, and the source is left
in the same place; and a block of statements, each operand spelt before the next is read, fails
alike or gives statements that are spelt alike, but for operands that one of the lexicons has a name
for. -/
theorem Lexicon.decides_names_only (table : OperatorSet) (lexicon lexicon' : Lexicon)
    (signal : StopSignal) (looks : Nat) (s : Source) :
    (∀ (format : Format) (context : Context),
      (format.emitter context).run signal looks s = format.generate context signal looks s) ∧
    (∀ format : Format, ∃ t,
      (∃ e, format.generate ⟨table, lexicon⟩ signal looks s = (.error e, t) ∧
        format.generate ⟨table, lexicon'⟩ signal looks s = (.error e, t)) ∨
      ∃ records, format.generate ⟨table, lexicon⟩ signal looks s =
          (.ok (format.render lexicon records), t) ∧
        format.generate ⟨table, lexicon'⟩ signal looks s =
          (.ok (format.render lexicon' records), t)) ∧
    ∃ t,
      (∃ e, (Block.spelt table lexicon).run signal looks s = (.error e, t) ∧
        (Block.spelt table lexicon').run signal looks s = (.error e, t)) ∨
      ∃ block : Block,
        (Block.spelt table lexicon).run signal looks s =
          (.ok (block.map (·.invocation lexicon)), t) ∧
        (Block.spelt table lexicon').run signal looks s =
          (.ok (block.map (·.invocation lexicon')), t) ∧
        ∀ statement ∈ block, statement.SpeltAlike table lexicon lexicon' := by
  refine ⟨fun format context => ?_, fun format => ?_, ?_⟩
  · rw [Format.emitter_eq_map_render, Format.generate_eq_run_map]
  · rw [Format.generate_eq_run_map, Format.generate_eq_run_map]
    obtain ⟨t, hcases⟩ := Decoder.run_map_cases signal looks s (format.decoder table)
      (format.render lexicon) (format.render lexicon')
    exact ⟨t, hcases.imp_right fun ⟨records, _, h, h'⟩ => ⟨records, h, h'⟩⟩
  · rw [Block.spelt_eq_map, Block.spelt_eq_map]
    obtain ⟨t, hfailed | ⟨block, hrun, h, h'⟩⟩ := Decoder.run_map_cases signal looks s
      (Block.decoder table) (List.map (Statement.invocation lexicon))
      (List.map (Statement.invocation lexicon'))
    · exact ⟨t, Or.inl hfailed⟩
    · refine ⟨t, Or.inr ⟨block, h, h', fun statement hmem => ?_⟩⟩
      obtain ⟨ws, -, hcounted⟩ := (Block.decoder_reads table).of_run hrun
      obtain ⟨ws, hcompiled⟩ := hcounted.of_mem hmem
      exact hcompiled.speltAlike lexicon lexicon'

/-- A negated statement about troop number nought and a plain number, without and with a name for
the troop. -/
theorem Lexicon.decides_names_only_troop :
    let table : OperatorSet := ⟨.vanilla, [⟨1, "troop_is", .exactly 2, [.entity .troop, .int]⟩]⟩
    let named := Lexicon.empty.insert .troop #["farmer"]
    let s := Source.ofBytes "1 -1 2 0 0".toUTF8
    ∃ (statement : Statement) (t : Source),
      (Block.spelt table .empty).run .never 0 s =
        (.ok [⟨true, .operator "troop_is", ["0", "0"]⟩], t) ∧
      (Block.spelt table named).run .never 0 s =
        (.ok [⟨true, .operator "troop_is", ["trp_farmer", "0"]⟩], t) ∧
      statement.invocation .empty = ⟨true, .operator "troop_is", ["0", "0"]⟩ ∧
      statement.SpeltAlike table .empty named := by
  intro table named s
  let final : Source := { pending := [], fetched := 1, line := 1, text := "1 -1 2 0 0".toList }
  have hempty : (Block.spelt table .empty).run .never 0 s =
      (.ok [⟨true, .operator "troop_is", ["0", "0"]⟩], final) := by
    decide +kernel
  have hnamed : (Block.spelt table named).run .never 0 s =
      (.ok [⟨true, .operator "troop_is", ["trp_farmer", "0"]⟩], final) := by
    decide +kernel
  obtain ⟨t, ⟨e, hfailed, -⟩ | ⟨block, hblock, -, halike⟩⟩ :=
    (decides_names_only table .empty named .never 0 s).2.2
  · cases hempty.symm.trans hfailed
  · have hmap := Except.ok.inj (Prod.mk.inj (hblock.symm.trans hempty)).1
    obtain ⟨statement, rfl, hinvocation⟩ := List.map_eq_singleton_iff.mp hmap
    exact ⟨statement, final, hempty, hnamed, hinvocation, halike statement List.mem_cons_self⟩

end ModuleSource
