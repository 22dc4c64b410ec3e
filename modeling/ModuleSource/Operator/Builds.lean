import ModuleSource.Operator.Basic

/-! Operators that only some engine builds have, or that they declare anew. -/

namespace ModuleSource.Operator

/-- Mount&Blade 1.010 and 1.011. -/
def vanilla : List Operator :=
  [ ⟨1106, "display_message", .exactly 1, [.entity .str]⟩,
    ⟨1676, "party_set_icon", .exactly 2, [.entity .party, .entity .mapIcon]⟩ ]

/-- Mount&Blade: Warband. -/
def warband : List Operator :=
  [ ⟨12, "try_for_agents", .atLeast 1, [.int, .int]⟩,
    ⟨16, "try_for_prop_instances", .atLeast 1, [.int, .entity .sceneProp]⟩,
    ⟨17, "try_for_players", .atLeast 1, [.int, .int]⟩,
    ⟨388, "multiplayer_send_int_to_server", .exactly 2, [.int, .int]⟩,
    ⟨389, "multiplayer_send_2_int_to_server", .exactly 3, [.int, .int, .int]⟩,
    ⟨508, "player_set_slot", .exactly 3, [.int, .int, .int]⟩,
    ⟨509, "team_set_slot", .exactly 3, [.int, .int, .int]⟩,
    ⟨510, "scene_prop_set_slot", .exactly 3, [.int, .int, .int]⟩,
    ⟨528, "player_get_slot", .exactly 3, [.int, .int, .int]⟩,
    ⟨529, "team_get_slot", .exactly 3, [.int, .int, .int]⟩,
    ⟨530, "scene_prop_get_slot", .exactly 3, [.int, .int, .int]⟩,
    ⟨548, "player_slot_eq", .exactly 3, [.int, .int, .int]⟩,
    ⟨549, "team_slot_eq", .exactly 3, [.int, .int, .int]⟩,
    ⟨550, "scene_prop_slot_eq", .exactly 3, [.int, .int, .int]⟩,
    ⟨568, "player_slot_ge", .exactly 3, [.int, .int, .int]⟩,
    ⟨569, "team_slot_ge", .exactly 3, [.int, .int, .int]⟩,
    ⟨570, "scene_prop_slot_ge", .exactly 3, [.int, .int, .int]⟩,
    ⟨1106, "display_message", .atLeast 1, [.entity .str, .int]⟩,
    ⟨1676, "party_set_icon", .exactly 2, [.entity .party, .entity .mapIcon]⟩,
    ⟨2124, "set_fixed_point_multiplier", .exactly 1, [.int]⟩,
    ⟨2125, "store_sqrt", .exactly 2, [.int, .int]⟩,
    ⟨2126, "store_pow", .exactly 3, [.int, .int, .int]⟩,
    ⟨2127, "store_sin", .exactly 2, [.int, .int]⟩,
    ⟨2128, "store_cos", .exactly 2, [.int, .int]⟩,
    ⟨2129, "store_tan", .exactly 2, [.int, .int]⟩,
    ⟨2130, "convert_to_fixed_point", .exactly 1, [.int]⟩,
    ⟨2131, "convert_from_fixed_point", .exactly 1, [.int]⟩ ]

/-- Warband with the script enhancer, version 3. -/
def enhancer3 : List Operator :=
  [ ⟨2800, "val_shr", .exactly 2, [.int, .int]⟩,
    ⟨2801, "store_shr", .exactly 3, [.int, .int, .int]⟩,
    ⟨2802, "val_shl", .exactly 2, [.int, .int]⟩,
    ⟨2803, "store_shl", .exactly 3, [.int, .int, .int]⟩,
    ⟨2804, "val_xor", .exactly 2, [.int, .int]⟩,
    ⟨2805, "store_xor", .exactly 3, [.int, .int, .int]⟩,
    ⟨2806, "val_not", .exactly 1, [.int]⟩,
    ⟨2807, "store_not", .exactly 2, [.int, .int]⟩,
    ⟨3000, "is_vanilla_warband", .exactly 0, []⟩,
    ⟨3001, "store_trigger_param", .exactly 2, [.int, .int]⟩,
    ⟨3002, "register_get", .exactly 2, [.int, .int]⟩,
    ⟨3003, "register_set", .exactly 2, [.int, .int]⟩,
    ⟨3010, "call_script_with_result", .atLeast 2, [.int, .entity .script]⟩ ]

/-- What version 4.5 of the script enhancer adds; its register accessors take more operands than
before. -/
def enhancer45 : List Operator :=
  [ ⟨2700, "fld", .exactly 2, [.int, .float]⟩,
    ⟨2701, "fst", .exactly 2, [.int, .int]⟩,
    ⟨2702, "fcpy", .exactly 2, [.int, .int]⟩,
    ⟨2703, "feq", .atLeast 2, [.int, .int, .float]⟩,
    ⟨2704, "fgt", .exactly 2, [.int, .int]⟩,
    ⟨2705, "fadd", .exactly 3, [.int, .int, .int]⟩,
    ⟨2706, "fsub", .exactly 3, [.int, .int, .int]⟩,
    ⟨2707, "fmul", .exactly 3, [.int, .int, .int]⟩,
    ⟨2708, "fdiv", .exactly 3, [.int, .int, .int]⟩,
    ⟨3020, "dict_create", .exactly 1, [.int]⟩,
    ⟨3021, "dict_free", .exactly 1, [.int]⟩,
    ⟨3022, "dict_load_file", .atLeast 2, [.int, .int, .int]⟩,
    ⟨3023, "dict_get_int", .atLeast 3, [.int, .int, .int, .int]⟩,
    ⟨3024, "dict_set_int", .exactly 3, [.int, .int, .int]⟩,
    ⟨3002, "register_get", .atLeast 2, [.int, .int]⟩,
    ⟨3003, "register_set", .atLeast 2, [.int, .int]⟩ ]

/-- Caribbean!, which uses some codes of the script enhancer for operators of its own. -/
def caribbean : List Operator :=
  [ ⟨2800, "scene_prop_set_sail_state", .exactly 2, [.int, .int]⟩,
    ⟨2801, "scene_prop_get_sail_state", .exactly 2, [.int, .int]⟩,
    ⟨3500, "party_get_ship_type", .exactly 2, [.int, .entity .party]⟩,
    ⟨3501, "party_set_ship_type", .exactly 2, [.entity .party, .int]⟩,
    ⟨3502, "ship_add_cannons", .exactly 2, [.int, .int]⟩,
    ⟨3503, "ship_fire_cannons", .atLeast 1, [.int, .int]⟩ ]

end ModuleSource.Operator
