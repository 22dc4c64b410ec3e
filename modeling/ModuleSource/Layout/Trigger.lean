import ModuleSource.Layout.Frame

/-! Triggers: statements that run at intervals of game time, or on events that special intervals
name. -/

namespace ModuleSource.Layout

open Number

/-- The special intervals. -/
def intervalNames : List (Int × String) :=
  [ (100000000, "ti_once"),
    (-5, "ti_simulate_battle"),
    (-6, "ti_on_party_encounter"),
    (-8, "ti_question_answered"),
    (-15, "ti_server_player_joined"),
    (-16, "ti_on_multiplayer_mission_end"),
    (-19, "ti_before_mission_start"),
    (-20, "ti_after_mission_start"),
    (-21, "ti_tab_pressed"),
    (-22, "ti_inventory_key_pressed"),
    (-23, "ti_escape_pressed"),
    (-24, "ti_battle_window_opened"),
    (-25, "ti_on_agent_spawn"),
    (-26, "ti_on_agent_killed_or_wounded"),
    (-27, "ti_on_agent_knocked_down"),
    (-28, "ti_on_agent_hit"),
    (-29, "ti_on_player_exit"),
    (-30, "ti_on_leave_area") ]

/-- A special interval by its name, another whole one exactly and without a point, and any other as
a literal. -/
def intervalText (x : Binary64) : String :=
  match x.integer? with
  | some (negative, n) =>
    match intervalNames.lookup (if negative then -(n : Int) else n) with
    | some name => name
    | none => Binary64.signText negative ++ toString n
  | none => x.literal

/-- A trigger with a condition block and a consequence block. -/
structure Trigger where
  check : Binary64
  delay : Binary64
  rearm : Binary64
  condition : Block
  consequence : Block
deriving DecidableEq

namespace Trigger

def decoder (table : OperatorSet) : Decoder Trigger := do
  let check ← Decoder.float
  let delay ← Decoder.float
  let rearm ← Decoder.float
  let condition ← Block.decoder table
  let consequence ← Block.decoder table
  return { check, delay, rearm, condition, consequence }

def render (lexicon : Lexicon) (indent : String) (trigger : Trigger) : String :=
  indent ++ "(" ++ intervalText trigger.check ++ ", " ++ intervalText trigger.delay ++ ", " ++
    intervalText trigger.rearm ++ ",\n    " ++
    trigger.condition.render lexicon "    " ++ ",\n    " ++
    trigger.consequence.render lexicon "    " ++ "),\n\n"

end Trigger

/-- A trigger with one block. -/
structure SimpleTrigger where
  interval : Binary64
  body : Block
deriving DecidableEq

namespace SimpleTrigger

def decoder (table : OperatorSet) : Decoder SimpleTrigger := do
  let interval ← Decoder.float
  let body ← Block.decoder table
  return { interval, body }

def render (lexicon : Lexicon) (trigger : SimpleTrigger) : String :=
  "  (" ++ intervalText trigger.interval ++ ",\n    " ++
    trigger.body.render lexicon "    " ++ "),\n\n"

end SimpleTrigger

end ModuleSource.Layout
