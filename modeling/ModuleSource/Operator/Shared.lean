import ModuleSource.Operator.Basic

/-! Operators that every engine build has, by what they act on. -/

namespace ModuleSource.Operator

def controlFlow : List Operator :=
  [ ⟨1, "call_script", .atLeast 1, [.entity .script]⟩,
    ⟨3, "try_end", .exactly 0, []⟩,
    ⟨4, "try_begin", .exactly 0, []⟩,
    ⟨5, "else_try", .exactly 0, []⟩,
    ⟨6, "try_for_range", .exactly 3, [.int, .int, .int]⟩,
    ⟨7, "try_for_range_backwards", .exactly 3, [.int, .int, .int]⟩,
    ⟨11, "try_for_parties", .exactly 1, [.int]⟩,
    ⟨21, "store_script_param_1", .exactly 1, [.int]⟩,
    ⟨22, "store_script_param_2", .exactly 1, [.int]⟩,
    ⟨23, "store_script_param", .exactly 2, [.int, .int]⟩ ]

def conditions : List Operator :=
  [ ⟨30, "ge", .exactly 2, [.int, .int]⟩,
    ⟨31, "eq", .exactly 2, [.int, .int]⟩,
    ⟨32, "gt", .exactly 2, [.int, .int]⟩,
    ⟨33, "is_between", .exactly 3, [.int, .int, .int]⟩,
    ⟨36, "entering_town", .exactly 1, [.entity .party]⟩,
    ⟨37, "map_free", .exactly 0, []⟩,
    ⟨39, "encountered_party_is_attacker", .exactly 0, []⟩,
    ⟨42, "conversation_screen_is_active", .exactly 0, []⟩,
    ⟨47, "set_player_troop", .exactly 1, [.entity .troop]⟩,
    ⟨50, "store_repeat_object", .exactly 1, [.int]⟩,
    ⟨60, "set_result_string", .exactly 1, [.entity .str]⟩,
    ⟨70, "key_is_down", .exactly 1, [.int]⟩,
    ⟨71, "key_clicked", .exactly 1, [.int]⟩,
    ⟨110, "main_party_has_troop", .exactly 1, [.entity .troop]⟩,
    ⟨130, "party_is_in_town", .exactly 2, [.entity .party, .entity .party]⟩,
    ⟨131, "party_is_in_any_town", .exactly 1, [.entity .party]⟩,
    ⟨132, "party_is_active", .exactly 1, [.entity .party]⟩,
    ⟨150, "player_has_item", .exactly 1, [.entity .item]⟩,
    ⟨151, "troop_has_item_equipped", .exactly 2, [.entity .troop, .entity .item]⟩,
    ⟨152, "troop_is_mounted", .exactly 1, [.entity .troop]⟩,
    ⟨200, "check_quest_active", .exactly 1, [.entity .quest]⟩,
    ⟨201, "check_quest_finished", .exactly 1, [.entity .quest]⟩,
    ⟨202, "check_quest_succeeded", .exactly 1, [.entity .quest]⟩,
    ⟨203, "check_quest_failed", .exactly 1, [.entity .quest]⟩,
    ⟨204, "check_quest_concluded", .exactly 1, [.entity .quest]⟩ ]

def slots : List Operator :=
  [ ⟨500, "troop_set_slot", .exactly 3, [.entity .troop, .int, .int]⟩,
    ⟨501, "party_set_slot", .exactly 3, [.entity .party, .int, .int]⟩,
    ⟨502, "faction_set_slot", .exactly 3, [.entity .faction, .int, .int]⟩,
    ⟨503, "scene_set_slot", .exactly 3, [.entity .scene, .int, .int]⟩,
    ⟨504, "party_template_set_slot", .exactly 3, [.entity .partyTemplate, .int, .int]⟩,
    ⟨505, "agent_set_slot", .exactly 3, [.int, .int, .int]⟩,
    ⟨506, "quest_set_slot", .exactly 3, [.entity .quest, .int, .int]⟩,
    ⟨507, "item_set_slot", .exactly 3, [.entity .item, .int, .int]⟩,
    ⟨520, "troop_get_slot", .exactly 3, [.int, .entity .troop, .int]⟩,
    ⟨521, "party_get_slot", .exactly 3, [.int, .entity .party, .int]⟩,
    ⟨522, "faction_get_slot", .exactly 3, [.int, .entity .faction, .int]⟩,
    ⟨523, "scene_get_slot", .exactly 3, [.int, .entity .scene, .int]⟩,
    ⟨524, "party_template_get_slot", .exactly 3, [.int, .entity .partyTemplate, .int]⟩,
    ⟨525, "agent_get_slot", .exactly 3, [.int, .int, .int]⟩,
    ⟨526, "quest_get_slot", .exactly 3, [.int, .entity .quest, .int]⟩,
    ⟨527, "item_get_slot", .exactly 3, [.int, .entity .item, .int]⟩,
    ⟨540, "troop_slot_eq", .exactly 3, [.entity .troop, .int, .int]⟩,
    ⟨541, "party_slot_eq", .exactly 3, [.entity .party, .int, .int]⟩,
    ⟨542, "faction_slot_eq", .exactly 3, [.entity .faction, .int, .int]⟩,
    ⟨543, "scene_slot_eq", .exactly 3, [.entity .scene, .int, .int]⟩,
    ⟨544, "party_template_slot_eq", .exactly 3, [.entity .partyTemplate, .int, .int]⟩,
    ⟨545, "agent_slot_eq", .exactly 3, [.int, .int, .int]⟩,
    ⟨546, "quest_slot_eq", .exactly 3, [.entity .quest, .int, .int]⟩,
    ⟨547, "item_slot_eq", .exactly 3, [.entity .item, .int, .int]⟩,
    ⟨560, "troop_slot_ge", .exactly 3, [.entity .troop, .int, .int]⟩,
    ⟨561, "party_slot_ge", .exactly 3, [.entity .party, .int, .int]⟩,
    ⟨562, "faction_slot_ge", .exactly 3, [.entity .faction, .int, .int]⟩,
    ⟨563, "scene_slot_ge", .exactly 3, [.entity .scene, .int, .int]⟩,
    ⟨564, "party_template_slot_ge", .exactly 3, [.entity .partyTemplate, .int, .int]⟩,
    ⟨565, "agent_slot_ge", .exactly 3, [.int, .int, .int]⟩,
    ⟨566, "quest_slot_ge", .exactly 3, [.entity .quest, .int, .int]⟩,
    ⟨567, "item_slot_ge", .exactly 3, [.entity .item, .int, .int]⟩ ]

def sounds : List Operator :=
  [ ⟨600, "play_sound", .atLeast 1, [.entity .sound, .int]⟩,
    ⟨601, "play_track", .atLeast 1, [.int, .int]⟩,
    ⟨609, "stop_all_sounds", .atLeast 0, [.int]⟩ ]

def positions : List Operator :=
  [ ⟨700, "copy_position", .exactly 2, [.int, .int]⟩,
    ⟨701, "init_position", .exactly 1, [.int]⟩,
    ⟨710, "get_distance_between_positions", .exactly 3, [.int, .int, .int]⟩,
    ⟨720, "position_move_x", .atLeast 2, [.int, .int, .int]⟩,
    ⟨721, "position_move_y", .atLeast 2, [.int, .int, .int]⟩,
    ⟨722, "position_move_z", .atLeast 2, [.int, .int, .int]⟩,
    ⟨723, "position_rotate_x", .exactly 2, [.int, .int]⟩,
    ⟨724, "position_rotate_y", .exactly 2, [.int, .int]⟩,
    ⟨725, "position_rotate_z", .atLeast 2, [.int, .int, .int]⟩,
    ⟨726, "position_get_x", .exactly 2, [.int, .int]⟩,
    ⟨727, "position_get_y", .exactly 2, [.int, .int]⟩,
    ⟨728, "position_get_z", .exactly 2, [.int, .int]⟩,
    ⟨729, "position_set_x", .exactly 2, [.int, .int]⟩,
    ⟨730, "position_set_y", .exactly 2, [.int, .int]⟩,
    ⟨731, "position_set_z", .exactly 2, [.int, .int]⟩ ]

def messages : List Operator :=
  [ ⟨1100, "spawn_around_party", .exactly 2, [.entity .party, .entity .partyTemplate]⟩,
    ⟨1103, "set_spawn_radius", .exactly 1, [.int]⟩,
    ⟨1104, "display_debug_message", .atLeast 1, [.entity .str, .int]⟩,
    ⟨1105, "display_log_message", .atLeast 1, [.entity .str, .int]⟩,
    ⟨1270, "set_relation", .exactly 3, [.entity .faction, .entity .faction, .int]⟩ ]

def quests : List Operator :=
  [ ⟨1280, "start_quest", .atLeast 1, [.entity .quest, .entity .troop]⟩,
    ⟨1281, "complete_quest", .exactly 1, [.entity .quest]⟩,
    ⟨1282, "succeed_quest", .exactly 1, [.entity .quest]⟩,
    ⟨1283, "fail_quest", .exactly 1, [.entity .quest]⟩,
    ⟨1284, "cancel_quest", .exactly 1, [.entity .quest]⟩,
    ⟨1285, "set_quest_progression", .exactly 2, [.entity .quest, .int]⟩,
    ⟨1286, "conclude_quest", .exactly 1, [.entity .quest]⟩,
    ⟨1290, "setup_quest_text", .exactly 1, [.entity .quest]⟩,
    ⟨1291, "setup_quest_giver", .exactly 2, [.entity .quest, .entity .str]⟩ ]

def scenes : List Operator :=
  [ ⟨1500, "jump_to_scene", .atLeast 1, [.entity .scene, .int]⟩ ]

def troops : List Operator :=
  [ ⟨1507, "troop_is_hero", .exactly 1, [.entity .troop]⟩,
    ⟨1508, "troop_is_wounded", .exactly 1, [.entity .troop]⟩,
    ⟨1520, "troop_raise_attribute", .exactly 3, [.entity .troop, .int, .int]⟩,
    ⟨1521, "troop_raise_skill", .exactly 3, [.entity .troop, .entity .skill, .int]⟩,
    ⟨1522, "troop_raise_proficiency", .exactly 3, [.entity .troop, .int, .int]⟩,
    ⟨1528, "troop_add_gold", .exactly 2, [.entity .troop, .int]⟩,
    ⟨1529, "troop_remove_gold", .exactly 2, [.entity .troop, .int]⟩,
    ⟨1530, "troop_add_item", .atLeast 2, [.entity .troop, .entity .item, .int]⟩,
    ⟨1531, "troop_remove_item", .exactly 2, [.entity .troop, .entity .item]⟩,
    ⟨1532, "troop_clear_inventory", .exactly 1, [.entity .troop]⟩,
    ⟨1533, "troop_equip_items", .exactly 1, [.entity .troop]⟩,
    ⟨1550, "troop_set_faction", .exactly 2, [.entity .troop, .entity .faction]⟩ ]

def parties : List Operator :=
  [ ⟨1601, "party_get_num_companions", .exactly 2, [.int, .entity .party]⟩,
    ⟨1602, "party_get_num_prisoners", .exactly 2, [.int, .entity .party]⟩,
    ⟨1609, "party_get_template_id", .exactly 2, [.int, .entity .party]⟩,
    ⟨1610, "party_add_members", .exactly 3, [.entity .party, .entity .troop, .int]⟩,
    ⟨1611, "party_add_prisoners", .exactly 3, [.entity .party, .entity .troop, .int]⟩,
    ⟨1612, "party_add_leader", .atLeast 2, [.entity .party, .entity .troop, .int]⟩,
    ⟨1615, "party_remove_members", .exactly 3, [.entity .party, .entity .troop, .int]⟩,
    ⟨1616, "party_remove_prisoners", .exactly 3, [.entity .party, .entity .troop, .int]⟩,
    ⟨1617, "party_clear", .exactly 1, [.entity .party]⟩ ]

def agents : List Operator :=
  [ ⟨1702, "agent_is_alive", .exactly 1, [.int]⟩,
    ⟨1704, "agent_is_human", .exactly 1, [.int]⟩,
    ⟨1710, "agent_get_position", .exactly 2, [.int, .int]⟩,
    ⟨1711, "agent_set_position", .exactly 2, [.int, .int]⟩,
    ⟨1718, "agent_get_troop_id", .exactly 2, [.int, .int]⟩ ]

def sceneProps : List Operator :=
  [ ⟨1810, "scene_prop_get_num_instances", .exactly 2, [.int, .entity .sceneProp]⟩,
    ⟨1830, "scene_prop_get_instance", .exactly 3, [.int, .entity .sceneProp, .int]⟩,
    ⟨1907, "finish_mission", .atLeast 0, [.int]⟩,
    ⟨1965, "particle_system_add_new", .atLeast 1, [.entity .particleSystem, .int]⟩,
    ⟨1968, "particle_system_emit", .exactly 3, [.entity .particleSystem, .int, .int]⟩,
    ⟨1969, "particle_system_burst", .atLeast 2, [.entity .particleSystem, .int, .int]⟩,
    ⟨1974, "spawn_scene_prop", .atLeast 1, [.entity .sceneProp, .int]⟩ ]

def screens : List Operator :=
  [ ⟨2031, "set_background_mesh", .exactly 1, [.entity .mesh]⟩,
    ⟨2040, "change_screen_return", .atLeast 0, [.int]⟩,
    ⟨2060, "jump_to_menu", .exactly 1, [.int]⟩,
    ⟨2075, "set_trigger_result", .exactly 1, [.int]⟩ ]

def arithmetic : List Operator :=
  [ ⟨2105, "val_add", .exactly 2, [.int, .int]⟩,
    ⟨2106, "val_sub", .exactly 2, [.int, .int]⟩,
    ⟨2107, "val_mul", .exactly 2, [.int, .int]⟩,
    ⟨2108, "val_div", .exactly 2, [.int, .int]⟩,
    ⟨2109, "val_mod", .exactly 2, [.int, .int]⟩,
    ⟨2110, "val_min", .exactly 2, [.int, .int]⟩,
    ⟨2111, "val_max", .exactly 2, [.int, .int]⟩,
    ⟨2112, "val_clamp", .exactly 3, [.int, .int, .int]⟩,
    ⟨2113, "val_abs", .exactly 1, [.int]⟩,
    ⟨2114, "val_or", .exactly 2, [.int, .int]⟩,
    ⟨2115, "val_and", .exactly 2, [.int, .int]⟩,
    ⟨2116, "store_or", .exactly 3, [.int, .int, .int]⟩,
    ⟨2117, "store_and", .exactly 3, [.int, .int, .int]⟩,
    ⟨2119, "store_mod", .exactly 3, [.int, .int, .int]⟩,
    ⟨2120, "store_add", .exactly 3, [.int, .int, .int]⟩,
    ⟨2121, "store_sub", .exactly 3, [.int, .int, .int]⟩,
    ⟨2122, "store_mul", .exactly 3, [.int, .int, .int]⟩,
    ⟨2123, "store_div", .exactly 3, [.int, .int, .int]⟩,
    ⟨2133, "assign", .exactly 2, [.int, .int]⟩,
    ⟨2134, "shuffle_range", .exactly 2, [.int, .int]⟩,
    ⟨2135, "store_random", .exactly 2, [.int, .int]⟩,
    ⟨2136, "store_random_in_range", .exactly 3, [.int, .int, .int]⟩ ]

def stores : List Operator :=
  [ ⟨2149, "store_troop_gold", .exactly 2, [.int, .entity .troop]⟩,
    ⟨2165, "store_item_kind_count", .atLeast 2, [.int, .entity .item, .entity .troop]⟩,
    ⟨2170, "store_skill_level", .atLeast 2, [.int, .entity .skill, .entity .troop]⟩,
    ⟨2171, "store_character_level", .atLeast 1, [.int, .entity .troop]⟩,
    ⟨2172, "store_attribute_level", .exactly 3, [.int, .entity .troop, .int]⟩,
    ⟨2173, "store_troop_faction", .exactly 2, [.int, .entity .troop]⟩,
    ⟨2270, "store_current_hours", .exactly 1, [.int]⟩,
    ⟨2271, "store_time_of_day", .exactly 1, [.int]⟩,
    ⟨2272, "store_current_day", .exactly 1, [.int]⟩ ]

def strings : List Operator :=
  [ ⟨2320, "str_store_string", .exactly 2, [.int, .entity .str]⟩,
    ⟨2321, "str_store_string_reg", .exactly 2, [.int, .int]⟩,
    ⟨2322, "str_store_troop_name", .exactly 2, [.int, .entity .troop]⟩,
    ⟨2323, "str_store_troop_name_plural", .exactly 2, [.int, .entity .troop]⟩,
    ⟨2324, "str_store_troop_name_by_count", .exactly 3, [.int, .entity .troop, .int]⟩,
    ⟨2325, "str_store_item_name", .exactly 2, [.int, .entity .item]⟩,
    ⟨2326, "str_store_item_name_plural", .exactly 2, [.int, .entity .item]⟩,
    ⟨2330, "str_store_party_name", .exactly 2, [.int, .entity .party]⟩,
    ⟨2332, "str_store_agent_name", .exactly 2, [.int, .int]⟩,
    ⟨2335, "str_store_faction_name", .exactly 2, [.int, .entity .faction]⟩,
    ⟨2336, "str_store_quest_name", .exactly 2, [.int, .entity .quest]⟩ ]

def shared : List Operator :=
  controlFlow ++ conditions ++ slots ++ sounds ++ positions ++ messages ++ quests ++ scenes ++
    troops ++ parties ++ agents ++ sceneProps ++ screens ++ arithmetic ++ stores ++ strings

end ModuleSource.Operator
