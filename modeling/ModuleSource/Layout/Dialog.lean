import ModuleSource.Flag.Basic
import ModuleSource.Layout.Frame

/-! Lines of dialog. -/

namespace ModuleSource.Layout

structure Dialog where
  label : String
  partner : UInt32
  start : Int
  condition : Block
  text : String
  finish : Int
  consequence : Block
  voice : String
deriving DecidableEq

namespace Dialog

/-- The word in place of a voice file when there is none. -/
def noVoice : String := "NO_VOICEOVER"

def repeatNames : List String :=
  ["repeat_for_factions", "repeat_for_parties", "repeat_for_troops", "repeat_for_100",
    "repeat_for_1000"]

/-- The partner word: what the line is repeated for, the partner, a second troop and flags. -/
def partnerLayout : FlagLayout where
  fields :=
    [ { mask := 0x7000, shift := 12, style := .oneOf repeatNames },
      { mask := 0xFFF, shift := 0, style := .entity .troop, special := some (0xFFF, "anyone") },
      { mask := 0xFFF00000, shift := 20, style := .appliedTo "other" .troop } ]
  flags :=
    [ (0x10000, "plyr"),
      (0x20000, "party_tpl"),
      (0x40000, "auto_proceed"),
      (0x80000, "multi_line") ]

def decoder (table : OperatorSet) : Decoder Dialog := do
  let label ← Decoder.word
  let partner ← Decoder.word32
  let start ← Decoder.int
  let condition ← Block.decoder table
  let text ← Decoder.word
  let finish ← Decoder.int
  let consequence ← Block.decoder table
  let voice ← Decoder.word
  return { label, partner, start, condition, text, finish, consequence, voice }

def render (lexicon : Lexicon) (dialog : Dialog) : String :=
  "  [" ++ partnerLayout.spell lexicon dialog.partner.toUInt64 ++ ", " ++
    quoted (lexicon.spell .dialogState dialog.start) ++ ",\n    " ++
    dialog.condition.render lexicon "    " ++ ",\n    " ++
    quoted (spaced dialog.text) ++ ",\n    " ++
    quoted (lexicon.spell .dialogState dialog.finish) ++ ",\n    " ++
    dialog.consequence.render lexicon "    " ++
    (if dialog.voice = noVoice then "" else ",\n    [" ++ quoted dialog.voice ++ "]") ++ "],\n\n"

end Dialog

end ModuleSource.Layout
