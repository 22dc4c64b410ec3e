import ModuleSource.Layout.Frame

/-! Skins: the bodies, faces and voices of the kinds of people. -/

namespace ModuleSource.Layout

open Number

/-- A slider of the face editor. -/
structure FaceKey where
  id : String
  values : List Binary64
  text : String
deriving DecidableEq

structure FaceTexture where
  name : String
  color : UInt32
  materials : List String
  hairColors : List UInt64
deriving DecidableEq

structure Voice where
  kind : UInt32
  sound : String
deriving DecidableEq

/-- A bound on a weighted sum of face keys. -/
structure Constraint where
  bound : Binary64
  comparison : Int
  terms : List (Binary64 × Int)
deriving DecidableEq

structure Skin where
  name : String
  flags : Int
  body : String
  calf : String
  hand : String
  head : String
  faceKeys : List FaceKey
  hair : List String
  beards : List String
  hairTextures : List String
  beardTextures : List String
  faceTextures : List FaceTexture
  voices : List Voice
  skeleton : String
  scale : String
  blood : Int
  secondBlood : Int
  constraints : List Constraint
deriving DecidableEq

namespace FaceKey

def decoder : Decoder FaceKey := do
  let id ← Decoder.word
  let values ← Decoder.times 4 Decoder.float
  let text ← Decoder.word
  return { id, values, text }

def render (key : FaceKey) : String :=
  "      (" ++ commaList (key.values.map (·.text)) ++ ", " ++ quoted (spaced key.text) ++ "),\n"

end FaceKey

namespace FaceTexture

/-- The numbers of materials and of hair colors both stand before the materials. -/
def decoder : Decoder FaceTexture := do
  let name ← Decoder.word
  let color ← Decoder.word32
  let materialCount ← Decoder.count
  let colorCount ← Decoder.count
  let materials ← Decoder.times materialCount Decoder.word
  let hairColors ← Decoder.times colorCount Decoder.word64
  return { name, color, materials, hairColors }

def render (texture : FaceTexture) : String :=
  "      (" ++ quoted texture.name ++ ", " ++ upperHex texture.color.toNat ++ ", " ++
    String.join (texture.materials.map fun material => "[" ++ quoted material ++ "], ") ++
    "[" ++ commaList (texture.hairColors.map fun color => lowerHex color.toNat) ++ "]),\n"

end FaceTexture

namespace Voice

def kindNames : List String :=
  ["voice_die", "voice_hit", "voice_grunt", "voice_grunt_long", "voice_yell", "voice_warcry",
    "voice_victory", "voice_stun"]

def decoder : Decoder Voice := do
  let kind ← Decoder.word32
  let sound ← Decoder.word
  return { kind, sound }

def render (voice : Voice) : String :=
  "(" ++ (kindNames[voice.kind.toNat]?).getD (toString voice.kind.toNat) ++ ", " ++
    quoted voice.sound ++ ")"

end Voice

namespace Constraint

def spellComparison (value : Int) : String :=
  if value = 1 then "comp_greater_than"
  else if value = -1 then "comp_less_than"
  else toString value

def decoder : Decoder Constraint := do
  let bound ← Decoder.float
  let comparison ← Decoder.int
  let terms ← Decoder.listOf do
    let weight ← Decoder.float
    let key ← Decoder.int
    return (weight, key)
  return { bound, comparison, terms }

def renderTerm (term : Binary64 × Int) : String :=
  "(" ++ term.1.text ++ ", " ++ toString term.2 ++ ")"

def render (constraint : Constraint) : String :=
  "\n      [" ++ constraint.bound.text ++ ", " ++ spellComparison constraint.comparison ++ ", " ++
    commaList (constraint.terms.map renderTerm) ++ "],"

end Constraint

namespace Skin

def decoder : Decoder Skin := do
  let name ← Decoder.word
  let flags ← Decoder.int
  let body ← Decoder.word
  let calf ← Decoder.word
  let hand ← Decoder.word
  let head ← Decoder.word
  let faceKeys ← Decoder.listOf FaceKey.decoder
  let hair ← Decoder.listOf Decoder.word
  let beards ← Decoder.listOf Decoder.word
  let hairTextures ← Decoder.listOf Decoder.word
  let beardTextures ← Decoder.listOf Decoder.word
  let faceTextures ← Decoder.listOf FaceTexture.decoder
  let voices ← Decoder.listOf Voice.decoder
  let skeleton ← Decoder.word
  let scale ← Decoder.word
  let blood ← Decoder.int
  let secondBlood ← Decoder.int
  let constraints ← Decoder.listOf Constraint.decoder
  return { name, flags, body, calf, hand, head, faceKeys, hair, beards, hairTextures, beardTextures,
           faceTextures, voices, skeleton, scale, blood, secondBlood, constraints }

def renderWords (words : List String) : String :=
  "    [" ++ commaList (words.map quoted) ++ "],\n"

def render (lexicon : Lexicon) (skin : Skin) : String :=
  "  (\n    " ++ quoted skin.name ++ ", " ++ toString skin.flags ++ ",\n    " ++
    quoted skin.body ++ ", " ++ quoted skin.calf ++ ", " ++ quoted skin.hand ++ ",\n    " ++
    quoted skin.head ++ ",\n" ++
    "    [\n" ++ String.join (skin.faceKeys.map (·.render)) ++ "    ],\n" ++
    renderWords skin.hair ++ renderWords skin.beards ++
    renderWords skin.hairTextures ++ renderWords skin.beardTextures ++
    "    [\n" ++ String.join (skin.faceTextures.map (·.render)) ++ "    ],\n" ++
    "    [" ++ commaList (skin.voices.map (·.render)) ++ "],\n" ++
    "    " ++ quoted skin.skeleton ++ ", " ++ skin.scale ++ ",\n    " ++
    lexicon.spell .particleSystem skin.blood ++ ", " ++
    lexicon.spell .particleSystem skin.secondBlood ++ ",\n" ++
    "    [" ++ String.join (skin.constraints.map (·.render)) ++ "\n    ]),\n\n"

end Skin

end ModuleSource.Layout
