import Mathlib.Tactic.MkIffOfInductiveProp
import ModuleSource.Proofs.Decoder.SelfDelimiting
import ModuleSource.Proofs.Flag.Told
import ModuleSource.Proofs.Statement.Grammar

/-!
Mission templates, from their tokens to their tuples. A mission is compiled to its fields, the list
of its spawn points, each with the list of its items, and the list of its triggers, each with two
statement blocks. Every list has its length in front. Each part takes its own tokens whatever comes
after it, so lists of any lengths one inside the other stay aligned.
-/

namespace ModuleSource

/-- The text of a block of a trigger: nothing between its brackets, or a line for each call. -/
inductive Block.Printed (lexicon : Lexicon) : Block → String → Prop
  | empty : Printed lexicon [] "[]"
  | filled {block : Block} {calls : List Invocation} (ne_nil : block ≠ [])
    (spelt : List.Forall₂ (Statement.Spelt lexicon) block calls) :
    Printed lexicon block
      ("[\n" ++ String.join (calls.map fun call => "      " ++ call.text ++ ",\n") ++ "    ]")

theorem Block.printed_render (lexicon : Lexicon) (block : Block) :
    Printed lexicon block (block.render lexicon "    ") := by
  cases block with
  | nil => exact .empty
  | cons s block =>
    have hindent : "    " ++ "  " = "      " := by decide
    have hclosing : "    " ++ "]" = "    ]" := by decide
    have hlines : Block.lines lexicon "      " (s :: block) =
        String.join (((s :: block).map (·.invocation lexicon)).map
          fun call => "      " ++ call.text ++ ",\n") := by
      simp only [Block.lines, List.map_map, Statement.render_eq_invocation]
      rfl
    show Printed _ _ ("[\n" ++ Block.lines lexicon ("    " ++ "  ") (s :: block) ++ "    " ++ "]")
    rw [hindent, hlines, String.append_assoc, hclosing]
    exact .filled (List.cons_ne_nil _ _)
      (Decoder.forall₂_map_self (Statement.spelt_invocation lexicon) (s :: block))

namespace Number.Binary64

/-- A value with a sign and a whole magnitude. Zero has a sign too. -/
def IsWhole (x : Binary64) (negative : Bool) (n : Nat) : Prop :=
  ∃ mantissa exponent, x = .finite negative mantissa exponent ∧
    n * Nat.pow 2 (-exponent).toNat = mantissa * Nat.pow 2 exponent.toNat

theorem integer?_eq_some_iff {x : Binary64} {negative : Bool} {n : Nat} :
    x.integer? = some (negative, n) ↔ x.IsWhole negative n := by
  have hpos (k : Nat) : 0 < Nat.pow 2 k := Nat.two_pow_pos k
  constructor
  · intro h
    unfold integer? at h
    split at h
    · next negative mantissa k =>
      obtain ⟨rfl, rfl⟩ := Prod.mk.inj (Option.some.inj h)
      refine ⟨mantissa, .ofNat k, rfl, ?_⟩
      have hexponent : (-Int.ofNat k).toNat = 0 := Int.toNat_eq_zero.mpr (by simp)
      rw [hexponent]
      exact Nat.mul_one _
    · next negative mantissa k =>
      dsimp only at h
      split at h
      · next hzero =>
        obtain ⟨rfl, rfl⟩ := Prod.mk.inj (Option.some.inj h)
        refine ⟨mantissa, .negSucc k, rfl, ?_⟩
        exact (Nat.div_mul_cancel (Nat.dvd_of_mod_eq_zero hzero)).trans (Nat.mul_one _).symm
      · cases h
    · cases h
  · rintro ⟨mantissa, exponent, rfl, hvalue⟩
    cases exponent with
    | ofNat k =>
      have hexponent : (-Int.ofNat k).toNat = 0 := Int.toNat_eq_zero.mpr (by simp)
      rw [hexponent] at hvalue
      exact congrArg (fun n => some (negative, n)) (hvalue.symm.trans (Nat.mul_one n))
    | negSucc k =>
      have hmantissa : mantissa = n * Nat.pow 2 (k + 1) := (hvalue.trans (Nat.mul_one _)).symm
      unfold integer?
      dsimp only
      rw [hmantissa, if_pos (Nat.mul_mod_left n _), Nat.mul_div_cancel n (hpos (k + 1))]

end Number.Binary64

namespace Layout

open Number

/-- The text of an interval: the name of a special one, another whole one without a point, and any
other by its shortest numeral. -/
inductive Interval (x : Binary64) : String → Prop
  | special {negative : Bool} {n : Nat} {name : String} (whole : x.IsWhole negative n)
    (known : ((if negative then -n else n : Int), name) ∈ intervalNames) : Interval x name
  | whole {negative : Bool} {n : Nat} (whole : x.IsWhole negative n)
    (unknown : ∀ name, ((if negative then -n else n : Int), name) ∉ intervalNames) :
    Interval x ((if negative then "-" else "") ++ toString n)
  | broken (broken : ∀ negative n, ¬x.IsWhole negative n) : Interval x x.text

theorem interval_intervalText (x : Binary64) : Interval x (intervalText x) := by
  unfold intervalText
  cases hinteger : x.integer? with
  | none =>
    have hbroken (negative : Bool) (n : Nat) : ¬x.IsWhole negative n := by
      rw [← Binary64.integer?_eq_some_iff, hinteger]
      exact nofun
    dsimp only
    rw [Binary64.literal, hinteger]
    exact .broken hbroken
  | some whole =>
    obtain ⟨negative, n⟩ := whole
    have hwhole := Binary64.integer?_eq_some_iff.mp hinteger
    dsimp only
    cases hlookup : intervalNames.lookup (if negative then -(n : Int) else n) with
    | some name =>
      obtain ⟨before, after, hsplit, -⟩ := List.lookup_eq_some_iff.mp hlookup
      exact .special hwhole (by rw [hsplit]; simp)
    | none =>
      refine .whole hwhole fun name hmem => ?_
      have hne := List.lookup_eq_none_iff.mp hlookup _ hmem
      simp at hne

namespace Spawn

/-- The text of how agents behave at first. -/
inductive Conduct (word : UInt32) : String → Prop
  | alarmed (word_eq : word = 16) : Conduct word "aif_start_alarmed"
  | other (word_ne : word ≠ 16) : Conduct word (toString word.toNat)

theorem conduct_spellConduct (word : UInt32) : Conduct word (spellConduct word) := by
  unfold spellConduct
  split
  · next h => exact .alarmed h
  · next h => exact .other h

/-- What a spawn point is compiled to. -/
inductive Encoded : List (List Char) → Spawn → Prop
  | mk {number flags equipment conduct troops : List Char} {items : List (List Char)}
    {spawn : Spawn} (number_eq : int? number = some spawn.number)
    (flags_eq : word32? flags = some spawn.flags)
    (equipment_eq : word32? equipment = some spawn.equipment)
    (conduct_eq : word32? conduct = some spawn.conduct)
    (troops_eq : int? troops = some spawn.troops)
    (items_eq : Decoder.Counted (fun _ ws item => ∃ w, ws = [w] ∧ int? w = some item) items
      spawn.items) :
    Encoded (number :: flags :: equipment :: conduct :: troops :: items) spawn

/-- A spawn point that a record has room for. -/
@[mk_iff]
structure Fits (spawn : Spawn) : Prop where
  number : Signed64 spawn.number
  troops : Signed64 spawn.troops
  items_length : (spawn.items.length : Int) ≤ maxInt
  items : ∀ item ∈ spawn.items, Signed64 item

instance (spawn : Spawn) : Decidable spawn.Fits := decidable_of_iff _ (fits_iff spawn).symm

/-- The tokens of a spawn point, with plain decimal numerals. -/
def encode (spawn : Spawn) : List (List Char) :=
  (toString spawn.number).toList :: (toString spawn.flags.toNat).toList ::
    (toString spawn.equipment.toNat).toList :: (toString spawn.conduct.toNat).toList ::
    (toString spawn.troops).toList :: (toString spawn.items.length).toList ::
    spawn.items.flatMap fun item => [(toString item).toList]

theorem Fits.encoded_encode {spawn : Spawn} (h : spawn.Fits) : Encoded spawn.encode spawn := by
  have hitem (item : Int) (hmem : item ∈ spawn.items) :
      ∃ w, [(toString item).toList] = [w] ∧ int? w = some item := by
    exact ⟨_, rfl, int?_toString (h.items item hmem)⟩
  exact .mk (int?_toString h.number) (word32?_toString _) (word32?_toString _)
    (word32?_toString _) (int?_toString h.troops)
    (Decoder.counted_flatMap hitem h.items_length)

theorem Encoded.consumes {ws : List (List Char)} {spawn : Spawn} (h : Encoded ws spawn) :
    decoder.Consumes ws spawn := by
  obtain ⟨number_eq, flags_eq, equipment_eq, conduct_eq, troops_eq, items_eq⟩ := h
  have hitem (ws : List (List Char)) (item : Int) (h : ∃ w, ws = [w] ∧ int? w = some item) :
      Decoder.int.Consumes ws item := by
    obtain ⟨w, rfl, parsed⟩ := h
    exact Decoder.consumes_token .int parsed
  apply (Decoder.consumes_token .int number_eq).bind
  apply (Decoder.consumes_token .word32 flags_eq).bind
  apply (Decoder.consumes_token .word32 equipment_eq).bind
  apply (Decoder.consumes_token .word32 conduct_eq).bind
  apply (Decoder.consumes_token .int troops_eq).bind
  exact (items_eq.consumes_listOf hitem).map _

/-- The tuple of a spawn point, with each of its items. -/
inductive Written (lexicon : Lexicon) (spawn : Spawn) : String → Prop
  | mk {flags equipment conduct : String} {items : List String}
    (flags_told : flagLayout.Told lexicon spawn.flags.toUInt64 flags)
    (equipment_told : equipmentLayout.Told lexicon spawn.equipment.toUInt64 equipment)
    (conduct_eq : Conduct spawn.conduct conduct)
    (resolved : List.Forall₂ (lexicon.Resolves .item) spawn.items items) :
    Written lexicon spawn
      ("    (" ++ toString spawn.number ++ ", " ++ flags ++ ", " ++ equipment ++ ", " ++
        conduct ++ ", " ++ toString spawn.troops ++ ", [" ++ String.intercalate ", " items ++
        "]),\n")

theorem written_render (lexicon : Lexicon) (spawn : Spawn) :
    spawn.Written lexicon (spawn.render lexicon) :=
  .mk (flagLayout.told_spell lexicon _) (equipmentLayout.told_spell lexicon _)
    (conduct_spellConduct spawn.conduct)
    (Decoder.forall₂_map_self (lexicon.resolves_spell .item) spawn.items)

end Spawn

/-- What a trigger is compiled to. -/
inductive Trigger.Encoded (table : OperatorSet) : List (List Char) → Trigger → Prop
  | mk {check delay rearm : List Char} {condition consequence : List (List Char)}
    {trigger : Trigger} (check_eq : float? check = some trigger.check)
    (delay_eq : float? delay = some trigger.delay) (rearm_eq : float? rearm = some trigger.rearm)
    (condition_eq : Decoder.Counted (fun _ => Statement.Compiled table) condition
      trigger.condition)
    (consequence_eq : Decoder.Counted (fun _ => Statement.Compiled table) consequence
      trigger.consequence) :
    Encoded table (check :: delay :: rearm :: (condition ++ consequence)) trigger

theorem Trigger.Encoded.consumes {table : OperatorSet} {ws : List (List Char)} {trigger : Trigger}
    (h : Encoded table ws trigger) : (decoder table).Consumes ws trigger := by
  obtain ⟨check_eq, delay_eq, rearm_eq, condition_eq, consequence_eq⟩ := h
  apply (Decoder.consumes_token .float check_eq).bind
  apply (Decoder.consumes_token .float delay_eq).bind
  apply (Decoder.consumes_token .float rearm_eq).bind
  apply (Block.decoder_consumes condition_eq).bind
  exact (Block.decoder_consumes consequence_eq).map _

/-- The tuple of a trigger: its three parameters, the condition and then the consequence. -/
inductive Trigger.Written (lexicon : Lexicon) (trigger : Trigger) : String → Prop
  | mk {check delay rearm condition consequence : String} (check_eq : Interval trigger.check check)
    (delay_eq : Interval trigger.delay delay) (rearm_eq : Interval trigger.rearm rearm)
    (condition_eq : Block.Printed lexicon trigger.condition condition)
    (consequence_eq : Block.Printed lexicon trigger.consequence consequence) :
    Written lexicon trigger
      ("    (" ++ check ++ ", " ++ delay ++ ", " ++ rearm ++ ",\n    " ++ condition ++ ",\n    " ++
        consequence ++ "),\n\n")

theorem Trigger.written_render (lexicon : Lexicon) (trigger : Trigger) :
    trigger.Written lexicon (trigger.render lexicon "    ") := by
  have hopening : "    " ++ "(" = "    (" := by decide
  have hwritten := Written.mk (interval_intervalText trigger.check)
    (interval_intervalText trigger.delay) (interval_intervalText trigger.rearm)
    (Block.printed_render lexicon trigger.condition)
    (Block.printed_render lexicon trigger.consequence)
  rw [← hopening] at hwritten
  exact hwritten

namespace MissionTemplate

/-- What a mission is compiled to. -/
inductive Encoded (table : OperatorSet) : List (List Char) → MissionTemplate → Prop
  | mk {flags kind : List Char} {spawns triggers : List (List Char)} {mission : MissionTemplate}
    (flags_eq : word32? flags = some mission.flags) (kind_eq : int? kind = some mission.kind)
    (spawns_eq : Decoder.Counted (fun _ => Spawn.Encoded) spawns mission.spawns)
    (triggers_eq : Decoder.Counted (fun _ => Trigger.Encoded table) triggers mission.triggers) :
    Encoded table (mission.id.toList :: mission.name.toList :: flags :: kind ::
      mission.description.toList :: (spawns ++ triggers)) mission

/-- A mission that a record has room for. -/
@[mk_iff]
structure Fits (mission : MissionTemplate) : Prop where
  kind : Signed64 mission.kind
  spawns_length : (mission.spawns.length : Int) ≤ maxInt
  spawns : ∀ spawn ∈ mission.spawns, spawn.Fits
  triggers_length : (mission.triggers.length : Int) ≤ maxInt

instance (mission : MissionTemplate) : Decidable mission.Fits :=
  decidable_of_iff _ (fits_iff mission).symm

/-- The tokens of a mission with plain decimal numerals, where those of its triggers are given. -/
def encode (words : Trigger → List (List Char)) (mission : MissionTemplate) : List (List Char) :=
  mission.id.toList :: mission.name.toList :: (toString mission.flags.toNat).toList ::
    (toString mission.kind).toList :: mission.description.toList ::
    ((toString mission.spawns.length).toList :: mission.spawns.flatMap Spawn.encode ++
      (toString mission.triggers.length).toList :: mission.triggers.flatMap words)

/-- The tokens of a file of missions: their number, and each of them. -/
def encodeAll (words : Trigger → List (List Char)) (missions : List MissionTemplate) :
    List (List Char) :=
  (toString missions.length).toList :: missions.flatMap (encode words)

theorem Fits.encoded_encode {table : OperatorSet} {mission : MissionTemplate} (h : mission.Fits)
    {words : Trigger → List (List Char)}
    (hwords : ∀ trigger ∈ mission.triggers, Trigger.Encoded table (words trigger) trigger) :
    Encoded table (mission.encode words) mission :=
  .mk (word32?_toString _) (int?_toString h.kind)
    (Decoder.counted_flatMap (fun spawn hspawn => (h.spawns spawn hspawn).encoded_encode)
      h.spawns_length)
    (Decoder.counted_flatMap hwords h.triggers_length)

theorem Encoded.consumes {table : OperatorSet} {ws : List (List Char)} {mission : MissionTemplate}
    (h : Encoded table ws mission) : (decoder table).Consumes ws mission := by
  obtain ⟨flags_eq, kind_eq, spawns_eq, triggers_eq⟩ := h
  apply (Decoder.consumes_word mission.id).bind
  apply (Decoder.consumes_word mission.name).bind
  apply (Decoder.consumes_token .word32 flags_eq).bind
  apply (Decoder.consumes_token .int kind_eq).bind
  apply (Decoder.consumes_word mission.description).bind
  apply (spawns_eq.consumes_listOf fun _ _ hspawn => hspawn.consumes).bind
  exact (triggers_eq.consumes_listOf fun _ _ htrigger => htrigger.consumes).map _

/-- The text of the kind of a mission. -/
inductive Kind (kind : Int) : String → Prop
  | charge (kind_eq : kind = 8) : Kind kind "charge"
  | withAlly (kind_eq : kind = 10) : Kind kind "charge_with_ally"
  | other (ne_eight : kind ≠ 8) (ne_ten : kind ≠ 10) : Kind kind (toString kind)

theorem kind_spellKind (kind : Int) : Kind kind (spellKind kind) := by
  unfold spellKind
  split
  · next h => exact .charge h
  next hcharge =>
  split
  · next h => exact .withAlly h
  · next h => exact .other hcharge h

/-- The tuple of a mission, with the tuples of its spawn points and those of its triggers. -/
inductive Written (lexicon : Lexicon) (mission : MissionTemplate) : String → Prop
  | mk {flags kind description : String} {spawns triggers : List String}
    (flags_told : flagLayout.Told lexicon mission.flags.toUInt64 flags)
    (kind_eq : Kind mission.kind kind)
    (description_eq : description.toList =
      mission.description.toList.map fun c => if c = '_' then ' ' else c)
    (spawned : List.Forall₂ (Spawn.Written lexicon) mission.spawns spawns)
    (triggered : List.Forall₂ (Trigger.Written lexicon) mission.triggers triggers) :
    Written lexicon mission
      ("  (\"" ++ mission.name ++ "\", " ++ flags ++ ", " ++ kind ++ ",\n  \"" ++ description ++
        "\",\n  [\n" ++ String.join spawns ++ "  ],\n  [\n" ++ String.join triggers ++
        "  ]),\n\n")

theorem render_eq (lexicon : Lexicon) (mission : MissionTemplate) :
    mission.render lexicon =
      "  (\"" ++ mission.name ++ "\", " ++ flagLayout.spell lexicon mission.flags.toUInt64 ++
        ", " ++ spellKind mission.kind ++ ",\n  \"" ++ spaced mission.description ++
        "\",\n  [\n" ++ String.join (mission.spawns.map (·.render lexicon)) ++
        "  ],\n  [\n" ++ String.join (mission.triggers.map (·.render lexicon "    ")) ++
        "  ]),\n\n" := by
  -- Only the quotes are joined otherwise, whatever the fields are.
  have hfields (name flags kind description spawns triggers : String) :
      "  (" ++ quoted name ++ ", " ++ flags ++ ", " ++ kind ++ ",\n  " ++ quoted description ++
        ",\n  [\n" ++ spawns ++ "  ],\n  [\n" ++ triggers ++ "  ]),\n\n" =
      "  (\"" ++ name ++ "\", " ++ flags ++ ", " ++ kind ++ ",\n  \"" ++ description ++
        "\",\n  [\n" ++ spawns ++ "  ],\n  [\n" ++ triggers ++ "  ]),\n\n" := by
    rw [← String.toList_inj]
    simp [quoted]
  exact hfields ..

theorem written_render (lexicon : Lexicon) (mission : MissionTemplate) :
    mission.Written lexicon (mission.render lexicon) := by
  rw [render_eq]
  exact .mk (flagLayout.told_spell lexicon _) (kind_spellKind mission.kind) String.toList_ofList
    (Decoder.forall₂_map_self (fun spawn => spawn.written_render lexicon) mission.spawns)
    (Decoder.forall₂_map_self (fun trigger => trigger.written_render lexicon) mission.triggers)

end MissionTemplate

/-- The module of mission templates inverts how they are compiled. Every list of missions can be
compiled if their triggers can; and wherever the tokens of some missions stand, followed by any
others, these missions come back, each gives its tuple between the opening lines and the closing
bracket, and the tokens after them are left. -/
theorem missionTemplates_inverted (context : Context) :
    (∀ (words : Trigger → List (List Char)) (missions : List MissionTemplate),
        (∀ mission ∈ missions, mission.Fits ∧ ∀ trigger ∈ mission.triggers,
          Trigger.Encoded context.operators (words trigger) trigger) →
        (missions.length : Int) ≤ maxInt →
        Decoder.Counted (fun _ => MissionTemplate.Encoded context.operators)
          (MissionTemplate.encodeAll words missions) missions) ∧
      ∀ (missions : List MissionTemplate) (ws rest : List (List Char)) (s : Source) (looks : Nat),
        Decoder.Counted (fun _ => MissionTemplate.Encoded context.operators) ws missions →
        s.Clean → s.tokens = ws ++ rest →
        ∃ (tuples : List String) (s' : Source),
          (Format.missionTemplates.decoder context.operators).run .never looks s =
            (.ok missions, s') ∧
          Format.missionTemplates.generate context .never looks s =
            (.ok ("# -*- coding: utf-8 -*-\nfrom header_common import *\n" ++
              "from header_operations import *\nfrom module_constants import *\n" ++
              "from header_mission_templates import *\n\nmission_templates = [\n" ++
              String.join tuples ++ "]\n"), s') ∧
          s'.tokens = rest ∧
          List.Forall₂ (MissionTemplate.Written context.lexicon) missions tuples := by
  constructor
  · intro words missions hmissions hlength
    apply Decoder.counted_flatMap _ hlength
    intro mission hmem
    obtain ⟨hfits, hwords⟩ := hmissions mission hmem
    exact hfits.encoded_encode hwords
  · intro missions ws rest s looks hencoded hclean htokens
    obtain ⟨s', hrun, hgenerate, hrest⟩ := Format.generate_of_counted .missionTemplates context
      (fun _ _ hrecord => hrecord.consumes) hencoded hclean htokens looks
    have htuples := Decoder.forall₂_map_self
      (fun mission : MissionTemplate => mission.written_render context.lexicon) missions
    have hopening : Format.missionTemplates.opening ++ "[\n" =
        "# -*- coding: utf-8 -*-\nfrom header_common import *\n" ++
          "from header_operations import *\nfrom module_constants import *\n" ++
          "from header_mission_templates import *\n\nmission_templates = [\n" := by
      decide +kernel
    rw [Format.render_eq_opening, hopening] at hgenerate
    exact ⟨_, s', hrun, hgenerate, hrest, htuples⟩

/-- Two missions: one with a spawn point that has items, one of them without a name, a spawn point
that has none, and two triggers, with an empty condition, with an empty consequence and with
special, whole and broken intervals; and one whose lists are empty. -/
theorem missionTemplates_inverted_two :
    let zero : Binary64 := .finite false 0 (-1074)
    let once : Binary64 := .finite false 6710886400000000 (-26)
    let half : Binary64 := .finite false 4503599627370496 (-53)
    let call : Statement := ⟨-37, none, [.int 5]⟩
    let context : Context := ⟨⟨.vanilla, []⟩, Lexicon.empty.insert .item #["no_item", "sword"]⟩
    let missions : List MissionTemplate :=
      [⟨"mst_a", "a", 1, 8, "A_fight", [⟨0, 4097, 15, 16, 1, [1, 7]⟩, ⟨-1, 0, 0, 0, 2, []⟩],
          [⟨zero, half, once, [], [call]⟩, ⟨once, zero, zero, [call], []⟩]⟩,
        ⟨"mst_b", "b", 0, 3, "B", [], []⟩]
    let s := Source.ofBytes ("2 mst_a a 1 8 A_fight 2 0 4097 15 16 1 2 1 7 -1 0 0 0 2 0 " ++
      "2 0 0.5 1e8 0 1 -37 1 5 1e8 0 0 1 -37 1 5 0 mst_b b 0 3 B 0 0 x").toUTF8
    s.Clean ∧ ∃ ws, s.tokens = ws ++ [['x']] ∧
      Decoder.Counted (fun _ => MissionTemplate.Encoded context.operators) ws missions ∧
      ∃ s' : Source,
        (Format.missionTemplates.decoder context.operators).run .never 0 s = (.ok missions, s') ∧
        Format.missionTemplates.generate context .never 0 s =
          (.ok ("# -*- coding: utf-8 -*-\nfrom header_common import *\n" ++
            "from header_operations import *\nfrom module_constants import *\n" ++
            "from header_mission_templates import *\n\nmission_templates = [\n" ++
            "  (\"a\", mtf_arena_fight, charge,\n  \"A fight\",\n  [\n" ++
            "    (0, mtef_team_0|mtef_enemy_party, af_override_weapons, aif_start_alarmed, 1, " ++
            "[itm_sword, 7]),\n" ++
            "    (-1, 0, 0, 0, 2, []),\n" ++
            "  ],\n  [\n" ++
            "    (0, 0.5, ti_once,\n    [],\n    [\n      neg|37(5),\n    ]),\n\n" ++
            "    (ti_once, 0, 0,\n    [\n      neg|37(5),\n    ],\n    []),\n\n" ++
            "  ]),\n\n" ++
            "  (\"b\", 0, 3,\n  \"B\",\n  [\n  ],\n  [\n  ]),\n\n" ++ "]\n"), s') ∧
        s'.tokens = [['x']] := by
  intro zero once half call context missions s
  have hclean : s.Clean := Source.clean_ofBytes_toUTF8 _
  let words (trigger : Trigger) : List (List Char) :=
    if trigger.condition = [] then ["0", "0.5", "1e8", "0", "1", "-37", "1", "5"].map String.toList
    else ["1e8", "0", "0", "1", "-37", "1", "5", "0"].map String.toList
  have htokens : s.tokens = MissionTemplate.encodeAll words missions ++ [['x']] := by
    decide +kernel
  have hzero : float? "0".toList = some zero := by decide +kernel
  have honce : float? "1e8".toList = some once := by decide +kernel
  have hempty : Decoder.Counted (fun _ => Statement.Compiled context.operators) ["0".toList] [] :=
    ⟨_, 0, [], rfl, by decide +kernel, rfl, .nil 0⟩
  have hcall : Decoder.Counted (fun _ => Statement.Compiled context.operators)
      (["1", "-37", "1", "5"].map String.toList) [call] := by
    have hopcode : int? "-37".toList = some (-37) := by decide +kernel
    have hone : int? "1".toList = some 1 := by decide +kernel
    have hfive : int? "5".toList = some 5 := by decide +kernel
    have hoperand : Operand.Compiled .int ["5".toList] (.int 5) := .int hfive
    have hstatement : Statement.Compiled context.operators (["-37", "1", "5"].map String.toList)
        call :=
      .mk hopcode ⟨_, 1, _, rfl, hone, rfl, Decoder.listed_singleton hoperand⟩
    exact ⟨_, 1, _, rfl, hone, rfl, Decoder.listed_singleton hstatement⟩
  have hfirst : Trigger.Encoded context.operators ("0".toList :: "0.5".toList :: "1e8".toList ::
      (["0".toList] ++ ["1", "-37", "1", "5"].map String.toList)) ⟨zero, half, once, [], [call]⟩ :=
    .mk hzero (by decide +kernel) honce hempty hcall
  have hsecond : Trigger.Encoded context.operators ("1e8".toList :: "0".toList :: "0".toList ::
      (["1", "-37", "1", "5"].map String.toList ++ ["0".toList])) ⟨once, zero, zero, [call], []⟩ :=
    .mk honce hzero hzero hcall hempty
  have htriggers : ∀ mission ∈ missions, ∀ trigger ∈ mission.triggers,
      Trigger.Encoded context.operators (words trigger) trigger := by
    intro mission hmission trigger htrigger
    obtain rfl | hmission := List.mem_cons.mp hmission
    · obtain rfl | htrigger := List.mem_cons.mp htrigger
      · exact hfirst
      · obtain rfl := List.mem_singleton.mp htrigger
        exact hsecond
    · obtain rfl := List.mem_singleton.mp hmission
      cases htrigger
  have hfits : ∀ mission ∈ missions, mission.Fits := by decide
  have hencoded := (missionTemplates_inverted context).1 words missions
    (fun mission hmem => ⟨hfits mission hmem, htriggers mission hmem⟩) (by decide)
  obtain ⟨tuples, s', hrun, hgenerate, hrest, -⟩ :=
    (missionTemplates_inverted context).2 missions _ _ s 0 hencoded hclean htokens
  have hsource : (Format.missionTemplates.generate context .never 0 s).2 = s' := by rw [hgenerate]
  refine ⟨hclean, _, htokens, hencoded, s', hrun, Prod.ext ?_ hsource, hrest⟩
  dsimp only
  decide +kernel

end Layout

end ModuleSource
