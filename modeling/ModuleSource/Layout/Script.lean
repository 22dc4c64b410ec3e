import ModuleSource.Layout.Frame

/-! Scripts. -/

namespace ModuleSource.Layout

structure Script where
  name : String
  flags : String
  body : Block
deriving DecidableEq

namespace Script

/-- The flags of a script that has none. -/
def unflagged : String := "-1"

def decoder (table : OperatorSet) : Decoder Script := do
  let name ← Decoder.word
  let flags ← Decoder.word
  let body ← Block.decoder table
  return { name, flags, body }

def render (lexicon : Lexicon) (script : Script) : String :=
  "  (" ++ quoted script.name ++ "," ++
    (if script.flags = unflagged then "" else " " ++ script.flags ++ ",") ++
    "\n    " ++ script.body.render lexicon "    " ++ "),\n\n"

end Script

end ModuleSource.Layout
