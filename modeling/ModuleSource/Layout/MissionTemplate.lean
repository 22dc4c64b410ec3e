import ModuleSource.Flag.Basic
import ModuleSource.Layout.Trigger

/-! Mission templates. -/

namespace ModuleSource.Layout

/-- A spawn point of a mission. -/
structure Spawn where
  number : Int
  flags : UInt32
  equipment : UInt32
  conduct : UInt32
  troops : Int
  items : List Int
deriving DecidableEq

namespace Spawn

/-- The names of the teams, from team one on. -/
def teamNames : List String :=
  ["mtef_team_0", "mtef_team_1", "mtef_team_2", "mtef_team_3", "mtef_team_4", "mtef_team_5",
    "mtef_team_6", "mtef_team_member_2", "mtef_team_8", "mtef_team_9", "mtef_team_10",
    "mtef_team_11", "mtef_team_12", "mtef_team_13", "mtef_team_14"]

/-- The flag word of a spawn point: its team, and flags. -/
def flagLayout : FlagLayout where
  fields := [{ mask := 0xF000, shift := 12, style := .oneOf teamNames }]
  flags :=
    [ (0x00000001, "mtef_enemy_party"),
      (0x00000002, "mtef_ally_party"),
      (0x00000004, "mtef_scene_source"),
      (0x00000008, "mtef_conversation_source"),
      (0x00000010, "mtef_visitor_source"),
      (0x00000040, "mtef_defenders"),
      (0x00000080, "mtef_attackers"),
      (0x00000100, "mtef_no_leader"),
      (0x00000200, "mtef_no_companions"),
      (0x00000400, "mtef_no_regulars"),
      (0x00010000, "mtef_infantry_first"),
      (0x00020000, "mtef_archers_first"),
      (0x00040000, "mtef_cavalry_first"),
      (0x00080000, "mtef_no_auto_reset"),
      (0x01000000, "mtef_reverse_order"),
      (0x02000000, "mtef_use_exact_number") ]

/-- The equipment a spawn point replaces; the widest group of it is named first. -/
def equipmentLayout : FlagLayout where
  groups :=
    [ (0x1FF, "af_override_everything"),
      (0x1BF, "af_override_all"),
      (0x0BF, "af_override_all_but_horse"),
      (0x00F, "af_override_weapons") ]
  flags :=
    [ (0x10000000, "af_require_civilian"),
      (0x00000200, "af_override_fullhelm"),
      (0x00000100, "af_override_horse"),
      (0x00000080, "af_override_gloves"),
      (0x00000040, "af_override_foot"),
      (0x00000020, "af_override_body"),
      (0x00000010, "af_override_head"),
      (0x00000008, "af_override_weapon_3"),
      (0x00000004, "af_override_weapon_2"),
      (0x00000002, "af_override_weapon_1"),
      (0x00000001, "af_override_weapon_0") ]

def spellConduct (word : UInt32) : String :=
  if word = 0x10 then "aif_start_alarmed" else toString word.toNat

def decoder : Decoder Spawn := do
  let number ← Decoder.int
  let flags ← Decoder.word32
  let equipment ← Decoder.word32
  let conduct ← Decoder.word32
  let troops ← Decoder.int
  let items ← Decoder.listOf Decoder.int
  return { number, flags, equipment, conduct, troops, items }

def render (lexicon : Lexicon) (spawn : Spawn) : String :=
  "    (" ++ toString spawn.number ++ ", " ++
    flagLayout.spell lexicon spawn.flags.toUInt64 ++ ", " ++
    equipmentLayout.spell lexicon spawn.equipment.toUInt64 ++ ", " ++
    spellConduct spawn.conduct ++ ", " ++ toString spawn.troops ++ ", [" ++
    commaList (spawn.items.map (lexicon.spell .item)) ++ "]),\n"

end Spawn

structure MissionTemplate where
  id : String
  name : String
  flags : UInt32
  kind : Int
  description : String
  spawns : List Spawn
  triggers : List Trigger
deriving DecidableEq

namespace MissionTemplate

def flagLayout : FlagLayout where
  flags :=
    [ (0x00000001, "mtf_arena_fight"),
      (0x00000002, "mtf_battle_mode"),
      (0x00000010, "mtf_commit_casualties"),
      (0x00000100, "mtf_no_blood"),
      (0x00010000, "mtf_synch_inventory") ]

def spellKind (kind : Int) : String :=
  if kind = 8 then "charge" else if kind = 10 then "charge_with_ally" else toString kind

def decoder (table : OperatorSet) : Decoder MissionTemplate := do
  let id ← Decoder.word
  let name ← Decoder.word
  let flags ← Decoder.word32
  let kind ← Decoder.int
  let description ← Decoder.word
  let spawns ← Decoder.listOf Spawn.decoder
  let triggers ← Decoder.listOf (Trigger.decoder table)
  return { id, name, flags, kind, description, spawns, triggers }

def render (lexicon : Lexicon) (mission : MissionTemplate) : String :=
  "  (" ++ quoted mission.name ++ ", " ++ flagLayout.spell lexicon mission.flags.toUInt64 ++ ", " ++
    spellKind mission.kind ++ ",\n  " ++ quoted (spaced mission.description) ++
    ",\n  [\n" ++ String.join (mission.spawns.map (·.render lexicon)) ++
    "  ],\n  [\n" ++ String.join (mission.triggers.map (·.render lexicon "    ")) ++
    "  ]),\n\n"

end MissionTemplate

end ModuleSource.Layout
