import ModuleSource.Flag.Basic
import ModuleSource.Layout.Frame
import ModuleSource.Name.Extract

/-! Party templates. -/

namespace ModuleSource.Layout

/-- A stack of troops of a party. -/
structure Stack where
  troop : Int
  least : Int
  most : Int
  member : UInt32
deriving DecidableEq

namespace Stack

/-- The troop of a slot that holds no stack. -/
def noTroop : Int := -1

/-- The member word of captives. -/
def captive : UInt32 := 1

/-- A slot for a stack; an empty one is its troop alone. -/
def slotDecoder : Decoder (Option Stack) := do
  let troop ← Decoder.int
  if troop = noTroop then return none
  else
    let least ← Decoder.int
    let most ← Decoder.int
    let member ← Decoder.word32
    return some { troop, least, most, member }

def render (lexicon : Lexicon) (stack : Stack) : String :=
  "(" ++ lexicon.spell .troop stack.troop ++ ", " ++ toString stack.least ++ ", " ++
    toString stack.most ++ (if stack.member = captive then ", pmf_is_prisoner" else "") ++ ")"

end Stack

structure PartyTemplate where
  id : String
  name : String
  flags : UInt64
  menu : Int
  faction : Int
  personality : UInt32
  slots : List (Option Stack)
deriving DecidableEq

namespace PartyTemplate

/-- The number of slots of every template. -/
def slotCount : Nat := 6

/-- The flag word of a party: its map icon, the goods and the gold it carries, and flags. -/
def flagLayout : FlagLayout where
  fields :=
    [ { mask := 0xFF, shift := 0, style := .entity .mapIcon },
      { mask := 0x00FF000000000000, shift := 48, style := .applied "carries_goods" },
      { mask := 0xFF00000000000000, shift := 56, style := .applied "carries_gold" } ]
  flags :=
    [ (0x00000100, "pf_disabled"),
      (0x00000200, "pf_is_ship"),
      (0x00000400, "pf_is_static"),
      (0x00001000, "pf_label_medium"),
      (0x00002000, "pf_label_large"),
      (0x00004000, "pf_always_visible"),
      (0x00010000, "pf_default_behavior"),
      (0x00020000, "pf_auto_remove_in_town"),
      (0x00040000, "pf_quest_party"),
      (0x00080000, "pf_no_label"),
      (0x00100000, "pf_limit_members"),
      (0x00200000, "pf_hide_defenders"),
      (0x00400000, "pf_show_faction"),
      (0x02000000, "pf_dont_attack_civilians"),
      (0x04000000, "pf_civilian") ]

def personalities : List (UInt32 × String) :=
  [ (0x89, "soldier_personality"),
    (0x07, "merchant_personality"),
    (0x0B, "escorted_merchant_personality"),
    (0x138, "bandit_personality") ]

/-- The components of a personality; courage below four has no name. -/
def traits (word : UInt32) : List String :=
  let courage := word &&& 0x0F
  let aggressiveness := (word &&& 0xF0) >>> 4
  (if word &&& 0x100 = 0 then [] else ["banditness"]) ++
    (if courage < 4 then [] else ["courage_" ++ toString courage.toNat]) ++
    (if aggressiveness = 0 then [] else ["aggressiveness_" ++ toString aggressiveness.toNat])

/-- A named personality, or else its components. -/
def spellPersonality (word : UInt32) : String :=
  match personalities.lookup word with
  | some name => name
  | none => FlagLayout.join (traits word)

def decoder : Decoder PartyTemplate := do
  let id ← Decoder.word
  let name ← Decoder.word
  let flags ← Decoder.word64
  let menu ← Decoder.int
  let faction ← Decoder.int
  let personality ← Decoder.word32
  let slots ← Decoder.times slotCount Stack.slotDecoder
  return { id, name, flags, menu, faction, personality, slots }

/-- The id without its tag. -/
def shortId (template : PartyTemplate) : String :=
  match NameRule.dropTag? Entity.partyTemplate.tag.toList template.id.toList with
  | some id => String.ofList id
  | none => template.id

def filledSlots (template : PartyTemplate) : List Stack := template.slots.filterMap fun slot => slot

def render (lexicon : Lexicon) (template : PartyTemplate) : String :=
  "  (" ++ quoted template.shortId ++ ", " ++ quoted template.name ++ ", " ++
    flagLayout.spell lexicon template.flags ++ ", " ++ toString template.menu ++ ", " ++
    lexicon.spell .faction template.faction ++ ", " ++
    spellPersonality template.personality ++ ", [" ++
    commaList (template.filledSlots.map (·.render lexicon)) ++ "]),\n"

end PartyTemplate

end ModuleSource.Layout
