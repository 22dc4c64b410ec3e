/-! The kinds of things that module data refers to by number. -/

namespace ModuleSource

inductive Entity where
  | script
  | str
  | item
  | troop
  | faction
  | quest
  | partyTemplate
  | party
  | sound
  | skill
  | mesh
  | dialogState
  | scene
  | particleSystem
  | sceneProp
  | mapIcon
deriving DecidableEq

/-- How the names of a kind of entity are found in its data file. -/
inductive NameRule where
  /-- Every line is a name. -/
  | lines
  /-- Every word that starts with the tag and goes on is a name, without the tag. -/
  | tagged (tag : String)
  /-- After two lines of heading, the first word of each line is a name unless it is a number. -/
  | leading
  /-- The names of the scripts of a script file. -/
  | scripts
deriving DecidableEq

namespace Entity

/-- Every kind of entity, in the order in which their names are loaded. -/
def all : List Entity :=
  [script, str, item, troop, faction, quest, partyTemplate, party, sound, skill, mesh, dialogState,
    scene, particleSystem, sceneProp, mapIcon]

/-- What stands before a name of this kind in module source. -/
def tag : Entity → String
  | troop => "trp_"
  | item => "itm_"
  | faction => "fac_"
  | mapIcon => "icon_"
  | particleSystem => "psys_"
  | partyTemplate => "pt_"
  | party => "p_"
  | scene => "scn_"
  | quest => "qst_"
  | skill => "skl_"
  | str => "str_"
  | sound => "snd_"
  | mesh => "mesh_"
  | sceneProp => "spr_"
  | script => "script_"
  | dialogState => ""

/-- The data file that names the entities of this kind, without its extension. -/
def label : Entity → String
  | troop => "troops"
  | item => "item_kinds1"
  | faction => "factions"
  | mapIcon => "map_icons"
  | particleSystem => "particle_systems"
  | partyTemplate => "party_templates"
  | party => "parties"
  | scene => "scenes"
  | quest => "quests"
  | skill => "skills"
  | str => "strings"
  | sound => "sounds"
  | mesh => "meshes"
  | sceneProp => "scene_props"
  | script => "scripts"
  | dialogState => "dialog_states"

def dataFile (entity : Entity) : String := entity.label ++ ".txt"

/-- Most files tag their records as module source does. -/
def rule : Entity → NameRule
  | dialogState => .lines
  | mapIcon => .leading
  | script => .scripts
  | entity => .tagged entity.tag

end Entity

end ModuleSource
