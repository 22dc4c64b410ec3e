import ModuleSource.Proofs.Decoder.Logic
import ModuleSource.Proofs.Number.Numerals
import ModuleSource.Proofs.Operator.Names
import ModuleSource.Proofs.Run.Effect

/-!
Operators and the shape of a file. A set of operators says as what kind of numeral an operand is
read, and nothing about how many words follow: counts and opcodes are integers under every set. So
two sets that accept a file read it to the same place. Integers are numerals of floating point too,
so a set without operands of floating point accepts no file that another one refuses.
-/

namespace ModuleSource

open Layout

namespace Role

/-- The kind of token that an operand is read from. -/
def form : Role → TokenForm
  | int => .int
  | float => .float
  | entity _ => .int

theorem int_within_form (role : Role) : TokenForm.int.Within role.form := by
  cases role with
  | int => exact .refl .int
  | float => exact fun w v parsed => Number.float?_of_int? parsed
  | entity kind => exact .refl .int

end Role

namespace OperatorSet

/-- No operator of the set has an operand of floating point. -/
def Integral (table : OperatorSet) : Prop := ∀ op ∈ table.operators, .float ∉ op.roles

/-- The kinds of tokens that two sets read an operand from are related, whatever its opcode. -/
structure Related (K : TokenForm → TokenForm → Prop) (table table' : OperatorSet) : Prop where
  same : ∀ kind, K kind kind
  operands : ∀ code slot, K (Statement.roleOf (table.find? code) slot).form
    (Statement.roleOf (table'.find? code) slot).form

theorem Integral.form_eq {table : OperatorSet} (h : table.Integral) (code slot : Nat) :
    (Statement.roleOf (table.find? code) slot).form = .int := by
  unfold Statement.roleOf
  split
  · next op hop =>
    have hmem := (find?_eq_some hop).1
    rw [Operator.roleAt]
    cases hrole : op.roles[slot]? with
    | none => rfl
    | some role =>
      cases role with
      | int => rfl
      | float => exact absurd (List.mem_of_getElem? hrole) (h op hmem)
      | entity kind => rfl
  · rfl

theorem Integral.related {table : OperatorSet} (h : table.Integral) (table' : OperatorSet) :
    table.Related TokenForm.Within table' where
  same := .refl
  operands code slot := by
    rw [h.form_eq]
    exact Role.int_within_form _

/-- Only the last script enhancer has operands of floating point. -/
theorem integral_ofEngine {engine : Engine} (h : engine ≠ .enhancer450) :
    (ofEngine engine).Integral := by
  have hlists : ∀ op ∈ engine.operatorLists.flatten, .float ∉ op.roles := by
    cases engine with
    | enhancer450 => exact absurd rfl h
    | vanilla => decide +kernel
    | warband => decide +kernel
    | enhancer320 => decide +kernel
    | caribbean => decide +kernel
  exact fun op hop => hlists op (mem_ofList hop)

end OperatorSet

section InStep

variable {K : TokenForm → TokenForm → Prop} {table table' : OperatorSet}

theorem Operand.decoder_inStep {role role' : Role} (h : K role.form role'.form) :
    (decoder role).InStep K (fun _ _ => True) (decoder role') := by
  cases role <;> cases role' <;> exact .read h fun _ _ _ _ _ => .done trivial

theorem Statement.decoder_inStep (h : table.Related K table') :
    (decoder table).InStep K (fun _ _ => True) (decoder table') := by
  refine .bind_refl h.same Decoder.int fun opcode => ?_
  refine .bind_refl h.same Decoder.count fun n => ?_
  exact (Decoder.InStep.collect
    (fun slot => Operand.decoder_inStep (h.operands opcode.natAbs slot)) n).bind
      fun _ _ _ => .done trivial

theorem Block.decoder_inStep (h : table.Related K table') :
    (decoder table).InStep K (List.Forall₂ fun _ _ => True) (decoder table') :=
  .lookLeft (.lookRight (.counted h.same fun r =>
    ((Statement.decoder_inStep h).inRecord_left r).inRecord_right r))

namespace Layout

theorem Script.decoder_inStep (h : table.Related K table') :
    (decoder table).InStep K (fun _ _ => True) (decoder table') := by
  refine .bind_refl h.same Decoder.word fun name => ?_
  refine .bind_refl h.same Decoder.word fun flags => ?_
  exact (Block.decoder_inStep h).bind fun _ _ _ => .done trivial

theorem Trigger.decoder_inStep (h : table.Related K table') :
    (decoder table).InStep K (fun _ _ => True) (decoder table') := by
  refine .bind_refl h.same Decoder.float fun check => ?_
  refine .bind_refl h.same Decoder.float fun delay => ?_
  refine .bind_refl h.same Decoder.float fun rearm => ?_
  refine (Block.decoder_inStep h).bind fun _ _ _ => ?_
  exact (Block.decoder_inStep h).bind fun _ _ _ => .done trivial

theorem SimpleTrigger.decoder_inStep (h : table.Related K table') :
    (decoder table).InStep K (fun _ _ => True) (decoder table') := by
  refine .bind_refl h.same Decoder.float fun interval => ?_
  exact (Block.decoder_inStep h).bind fun _ _ _ => .done trivial

theorem Dialog.decoder_inStep (h : table.Related K table') :
    (decoder table).InStep K (fun _ _ => True) (decoder table') := by
  refine .bind_refl h.same Decoder.word fun label => ?_
  refine .bind_refl h.same Decoder.word32 fun partner => ?_
  refine .bind_refl h.same Decoder.int fun start => ?_
  refine (Block.decoder_inStep h).bind fun _ _ _ => ?_
  refine .bind_refl h.same Decoder.word fun text => ?_
  refine .bind_refl h.same Decoder.int fun finish => ?_
  refine (Block.decoder_inStep h).bind fun _ _ _ => ?_
  exact .bind_refl h.same Decoder.word fun voice => .done trivial

theorem MissionTemplate.decoder_inStep (h : table.Related K table') :
    (decoder table).InStep K (fun _ _ => True) (decoder table') := by
  refine .bind_refl h.same Decoder.word fun id => ?_
  refine .bind_refl h.same Decoder.word fun name => ?_
  refine .bind_refl h.same Decoder.word32 fun flags => ?_
  refine .bind_refl h.same Decoder.int fun kind => ?_
  refine .bind_refl h.same Decoder.word fun description => ?_
  refine .bind_refl h.same (Decoder.listOf Spawn.decoder) fun spawns => ?_
  exact (Decoder.InStep.listOf h.same (Trigger.decoder_inStep h)).bind fun _ _ _ => .done trivial

end Layout

namespace Format

theorem recordDecoder_inStep (h : table.Related K table') (format : Format) :
    (format.recordDecoder table).InStep K (fun _ _ => True) (format.recordDecoder table') := by
  cases format with
  | scripts => exact Script.decoder_inStep h
  | triggers => exact Trigger.decoder_inStep h
  | simpleTriggers => exact SimpleTrigger.decoder_inStep h
  | dialogs => exact Dialog.decoder_inStep h
  | missionTemplates => exact MissionTemplate.decoder_inStep h
  -- The records of the other formats have no statements.
  | partyTemplates => exact (Decoder.InStep.refl h.same _).mono fun _ _ _ => trivial
  | skins => exact (Decoder.InStep.refl h.same _).mono fun _ _ _ => trivial

theorem decoder_inStep (h : table.Related K table') (format : Format) :
    (format.decoder table).InStep K (List.Forall₂ fun _ _ => True) (format.decoder table') :=
  Decoder.InStep.listOf h.same (.lookLeft (.lookRight (recordDecoder_inStep h format)))

variable {format : Format} {lexicon : Lexicon} {looks : Nat} {s t t' : Source} {text text' : String}

theorem end_eq_of_generate (h : format.generate ⟨table, lexicon⟩ .never looks s = (.ok text, t))
    (h' : format.generate ⟨table', lexicon⟩ .never looks s = (.ok text', t')) : t = t' := by
  obtain ⟨records, hrun, -⟩ := generate_eq_ok.mp h
  obtain ⟨records', hrun', -⟩ := generate_eq_ok.mp h'
  -- Both runs accept, so it does not matter of what kinds their tokens are.
  have hrelated : table.Related (fun _ _ => True) table' :=
    ⟨fun _ => trivial, fun _ _ => trivial⟩
  exact ((decoder_inStep hrelated format).run_eq hrun hrun').1

theorem generate_of_integral (hintegral : table.Integral) (table' : OperatorSet)
    (h : format.generate ⟨table, lexicon⟩ .never looks s = (.ok text, t)) :
    ∃ text', format.generate ⟨table', lexicon⟩ .never looks s = (.ok text', t) := by
  obtain ⟨records, hrun, -⟩ := generate_eq_ok.mp h
  obtain ⟨records', hscan, -⟩ := (decoder_inStep (hintegral.related table') format).scan hrun
  exact ⟨_, generate_eq_ok.mpr ⟨records', Decoder.run_of_scan hscan looks, rfl⟩⟩

end Format

end InStep

/-- A build accepts a file if it makes a module of it. -/
def Engine.Accepts (engine : Engine) (lexicon : Lexicon) (input : Path) (bytes : ByteArray) :
    Prop :=
  ∃ format text,
    moduleOfBytes ⟨.ofEngine engine, lexicon⟩ .never input bytes = .ok (format, text)

theorem Engine.Accepts.of_ne {engine : Engine} {lexicon : Lexicon} {input : Path}
    {bytes : ByteArray} (h : engine.Accepts lexicon input bytes) (hne : engine ≠ .enhancer450)
    (engine' : Engine) : engine'.Accepts lexicon input bytes := by
  obtain ⟨format, text, hmodule⟩ := h
  obtain ⟨line, source, hopen, hformat, htext⟩ := moduleOfBytes_eq_ok_iff.mp hmodule
  obtain ⟨text', hgenerate⟩ := Format.generate_of_integral (OperatorSet.integral_ofEngine hne)
    (.ofEngine engine') (Prod.ext htext rfl)
  exact ⟨format, text', moduleOfBytes_eq_ok_iff.mpr
    ⟨line, source, hopen, hformat, congrArg Prod.fst hgenerate⟩⟩

/-- The choice of operators never puts a file out of step. Two sets that accept a file consume the
same tokens of it, and what a set without operands of floating point accepts is accepted by every
set. So the builds before the last script enhancer accept the same files, and it accepts them too.
-/
theorem Format.generate_in_step :
    (∀ (format : Format) (lexicon : Lexicon) (table table' : OperatorSet) (looks : Nat)
        (s t t' : Source) (text text' : String),
      format.generate ⟨table, lexicon⟩ .never looks s = (.ok text, t) →
      format.generate ⟨table', lexicon⟩ .never looks s = (.ok text', t') → t = t') ∧
    (∀ (format : Format) (lexicon : Lexicon) (table : OperatorSet) (looks : Nat) (s t : Source)
        (text : String), table.Integral →
      format.generate ⟨table, lexicon⟩ .never looks s = (.ok text, t) →
      ∀ table' : OperatorSet,
        ∃ text', format.generate ⟨table', lexicon⟩ .never looks s = (.ok text', t)) ∧
    ∀ (lexicon : Lexicon) (input : Path) (bytes : ByteArray) (engine engine' : Engine),
      engine ≠ .enhancer450 → engine' ≠ .enhancer450 →
      (engine.Accepts lexicon input bytes ↔ engine'.Accepts lexicon input bytes) ∧
        (engine.Accepts lexicon input bytes → Engine.enhancer450.Accepts lexicon input bytes) := by
  refine ⟨?_, ?_, ?_⟩
  · intro format lexicon table table' looks s t t' text text' h h'
    exact end_eq_of_generate h h'
  · intro format lexicon table looks s t text hintegral h table'
    exact generate_of_integral hintegral table' h
  · intro lexicon input bytes engine engine' hne hne'
    exact ⟨⟨fun h => h.of_ne hne engine', fun h => h.of_ne hne' engine⟩, fun h => h.of_ne hne _⟩

/-- A script that loads seven into a float register. Without the operator its second operand is an
integer. -/
theorem Format.generate_in_step_load :
    let bytes := "scriptsfile version 1\n1\na -1\n1 2700 2 5 7\n".toUTF8
    let plain : OperatorSet := ⟨.warband, []⟩
    let floating : OperatorSet := ⟨.enhancer450, [⟨2700, "fld", .exactly 2, [.int, .float]⟩]⟩
    ∃ source s t text text', openFile bytes = .ok ("scriptsfile version 1", source) ∧
      plain.Integral ∧
      scripts.generate ⟨plain, .empty⟩ .never 1 source = (.ok text, s) ∧
      scripts.generate ⟨floating, .empty⟩ .never 1 source = (.ok text', t) ∧ s = t ∧
      (∀ table : OperatorSet,
        ∃ text, scripts.generate ⟨table, .empty⟩ .never 1 source = (.ok text, s)) ∧
      Engine.vanilla.Accepts .empty ⟨"a"⟩ bytes ∧ Engine.caribbean.Accepts .empty ⟨"a"⟩ bytes ∧
      Engine.enhancer450.Accepts .empty ⟨"a"⟩ bytes := by
  intro bytes plain floating
  let source : Source :=
    { pending := [.text "1".toList, .text "a -1".toList, .text "1 2700 2 5 7".toList],
      fetched := 1, line := 1, text := "scriptsfile version 1".toList }
  let final : Source := { pending := [], fetched := 4, line := 4, text := "1 2700 2 5 7".toList }
  have hopen : openFile bytes = .ok ("scriptsfile version 1", source) := by decide +kernel
  have hintegral : plain.Integral := fun op hop => nomatch hop
  have hplain : (scripts.decoder plain).run .never 1 source =
      (.ok [⟨"a", "-1", [⟨2700, none, [.int 5, .int 7]⟩]⟩], final) := by
    decide +kernel
  have hfloating : (scripts.decoder floating).run .never 1 source =
      (.ok [⟨"a", "-1", [⟨2700, some ⟨2700, "fld", .exactly 2, [.int, .float]⟩,
        [.int 5, .float (.finite false 7881299347898368 (-50))]⟩]⟩], final) := by
    decide +kernel
  have hvanilla : (scripts.decoder (.ofEngine .vanilla)).run .never 1 source =
      (.ok [⟨"a", "-1", [⟨2700, none, [.int 5, .int 7]⟩]⟩], final) := by
    decide +kernel
  have h : scripts.generate ⟨plain, .empty⟩ .never 1 source = (.ok _, final) :=
    generate_eq_ok.mpr ⟨_, hplain, rfl⟩
  have h' : scripts.generate ⟨floating, .empty⟩ .never 1 source = (.ok _, final) :=
    generate_eq_ok.mpr ⟨_, hfloating, rfl⟩
  have hmodule : scripts.generate ⟨.ofEngine .vanilla, .empty⟩ .never 1 source = (.ok _, final) :=
    generate_eq_ok.mpr ⟨_, hvanilla, rfl⟩
  have haccepts : Engine.vanilla.Accepts .empty ⟨"a"⟩ bytes :=
    ⟨scripts, _, moduleOfBytes_eq_ok_iff.mpr
      ⟨_, source, hopen, by decide, congrArg Prod.fst hmodule⟩⟩
  obtain ⟨hend, hintegrals, hbuilds⟩ := generate_in_step
  have hbuild := hbuilds .empty ⟨"a"⟩ bytes .vanilla .caribbean (by decide) (by decide)
  exact ⟨source, _, _, _, _, hopen, hintegral, h, h', hend _ _ _ _ _ _ _ _ _ _ h h',
    hintegrals _ _ _ _ _ _ _ hintegral h, haccepts, hbuild.1.mp haccepts, hbuild.2 haccepts⟩

end ModuleSource
