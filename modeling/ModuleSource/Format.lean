import ModuleSource.Layout.Dialog
import ModuleSource.Layout.MissionTemplate
import ModuleSource.Layout.PartyTemplate
import ModuleSource.Layout.Script
import ModuleSource.Layout.Skin
import ModuleSource.Layout.Trigger

/-!
Formats of data files. The first line of a file tells its format; the rest is a count and that many
records. Decoding gives the records, which take up names of entities only when they are rendered.
-/

namespace ModuleSource

open Layout

inductive Format where
  | scripts
  | triggers
  | simpleTriggers
  | dialogs
  | partyTemplates
  | missionTemplates
  | skins
deriving DecidableEq

namespace Format

def all : List Format :=
  [scripts, triggers, simpleTriggers, dialogs, partyTemplates, missionTemplates, skins]

def name : Format → String
  | scripts => "scripts"
  | triggers => "triggers"
  | simpleTriggers => "simple_triggers"
  | dialogs => "dialogs"
  | partyTemplates => "party_templates"
  | missionTemplates => "mission_templates"
  | skins => "skins"

/-- The first line of a file of the format. -/
def signature : Format → String
  | scripts => "scriptsfile version 1"
  | triggers => "triggersfile version 1"
  | simpleTriggers => "simple_triggers_file version 1"
  | dialogs => "dialogsfile version 2"
  | partyTemplates => "partytemplatesfile version 1"
  | missionTemplates => "missionsfile version 1"
  | skins => "skins_file version 1"

/-- The file that the generated module goes to. -/
def moduleFile (format : Format) : String := "module_" ++ format.name ++ ".py"

/-- The format whose signature is the given line, up to blanks at its ends. -/
def ofSignature? (line : String) : Option Format :=
  all.find? fun format => format.signature.toList == Text.trim line.toList

/-- The headers that a generated module needs beside the common ones. -/
def headers : Format → List String
  | scripts => []
  | triggers => ["header_triggers"]
  | simpleTriggers => ["header_triggers"]
  | dialogs => ["header_dialogs", "header_parties"]
  | partyTemplates => ["header_parties"]
  | missionTemplates => ["header_mission_templates"]
  | skins => ["header_skins"]

@[reducible]
def Record : Format → Type
  | scripts => Script
  | triggers => Trigger
  | simpleTriggers => SimpleTrigger
  | dialogs => Dialog
  | partyTemplates => PartyTemplate
  | missionTemplates => MissionTemplate
  | skins => Skin

def recordDecoder (table : OperatorSet) : (format : Format) → Decoder format.Record
  | scripts => Script.decoder table
  | triggers => Trigger.decoder table
  | simpleTriggers => SimpleTrigger.decoder table
  | dialogs => Dialog.decoder table
  | partyTemplates => PartyTemplate.decoder
  | missionTemplates => MissionTemplate.decoder table
  | skins => Skin.decoder

/-- The records of a file, after its first line. -/
def decoder (table : OperatorSet) (format : Format) : Decoder (List format.Record) :=
  Decoder.records (recordDecoder table format)

def renderRecord (lexicon : Lexicon) : (format : Format) → format.Record → String
  | scripts, script => script.render lexicon
  | triggers, trigger => trigger.render lexicon "  "
  | simpleTriggers, trigger => trigger.render lexicon
  | dialogs, dialog => dialog.render lexicon
  | partyTemplates, template => template.render lexicon
  | missionTemplates, mission => mission.render lexicon
  | skins, skin => skin.render lexicon

/-- The generated module. -/
def render (lexicon : Lexicon) (format : Format) (records : List format.Record) : String :=
  frame format.headers format.name (records.map (format.renderRecord lexicon))

end Format

/-- What the records of a file are read and spelt with. -/
structure Context where
  operators : OperatorSet
  lexicon : Lexicon

/-- The generated module of a source that stands after the first line of its file. -/
def Format.generate (format : Format) (context : Context) (signal : StopSignal) (looks : Nat)
    (source : Source) : Except DecodeFailure String × Source :=
  match (format.decoder context.operators).run signal looks source with
  | (.ok records, source) => (.ok (format.render context.lexicon records), source)
  | (.error e, source) => (.error e, source)

end ModuleSource
