import ModuleSource.Format
import ModuleSource.Proofs.Decoder.SelfDelimiting
import ModuleSource.Proofs.Statement.Invocation

/-!
Writing while reading. A file can be turned into its module in one pass: each value is spelt, and
each name looked up, as soon as its token is read, and the text goes to the end of what is written
so far. The pass makes the same reads and the same looks as the decoder of the format, and what it
has written at the end is what rendering the decoded records gives.
-/

namespace ModuleSource

open Layout

namespace Decoder

variable {α β : Type}

instance : LawfulMonad Decoder :=
  have bind_done {α : Type} (d : Decoder α) : d.bind done = d := by
    induction d with
    | done a => rfl
    | look next ih => exact congrArg look ih
    | read site kind next ih => exact congrArg (read site kind) (funext ih)
  have bind_bind {α β γ : Type} (d : Decoder α) (f : α → Decoder β) (g : β → Decoder γ) :
      (d.bind f).bind g = d.bind fun a => (f a).bind g := by
    induction d with
    | done a => rfl
    | look next ih => exact congrArg look ih
    | read site kind next ih => exact congrArg (read site kind) (funext ih)
  LawfulMonad.mk' Decoder bind_done (fun _ _ => rfl) bind_bind

@[simp] theorem map_look (f : α → β) (d : Decoder α) : f <$> look d = look (f <$> d) := rfl

theorem inRecord_map (f : α → β) (index : Nat) (d : Decoder α) :
    (f <$> d).inRecord index = f <$> d.inRecord index := by
  change (d.bind fun a => done (f a)).inRecord index =
    (d.inRecord index).bind fun a => done (f a)
  induction d with
  | done a => rfl
  | look next ih => exact congrArg look ih
  | read site kind next ih => exact congrArg (read (.record index) kind) (funext ih)

/-- Values can be changed one by one as they are decoded. -/
theorem collect_map (f : α → β) (d : Nat → Decoder α) (n : Nat) :
    collect (fun i => f <$> d i) n = List.map f <$> collect d n := by
  have loop (n i : Nat) (found : List α) :
      collectFrom (fun i => f <$> d i) i n (found.map f) =
        List.map f <$> collectFrom d i n found := by
    induction n generalizing i found with
    | zero => exact congrArg done List.map_reverse.symm
    | succ n ih =>
      change (f <$> d i) >>= _ = List.map f <$> (d i >>= _)
      rw [bind_map_left, map_bind]
      exact congrArg (d i >>= ·) (funext fun a => ih (i + 1) (a :: found))
  exact loop n 0 []

theorem times_map (f : α → β) (d : Decoder α) (n : Nat) :
    times n (f <$> d) = List.map f <$> times n d :=
  collect_map f (fun _ => d) n

theorem listOf_map (f : α → β) (d : Decoder α) : listOf (f <$> d) = List.map f <$> listOf d := by
  simp only [listOf, times_map, map_bind]

/-- Writes `n` times, each time after what was written before. -/
def emitTimes (emit : String → Decoder String) : Nat → String → Decoder String
  | 0, out => done out
  | n + 1, out => emit out >>= emitTimes emit n

/-- A count, and that many entries, each written when it is read. -/
def emitList (emit : String → Decoder String) (out : String) : Decoder String := do
  let n ← count
  emitTimes emit n out

/-- A writer that reads what the decoder reads and adds the text of its value to what is written. -/
def Writes (emit : String → Decoder String) (d : Decoder α) (text : α → String) : Prop :=
  ∀ out, emit out = (fun a => out ++ text a) <$> d

theorem Writes.look {emit : String → Decoder String} {d : Decoder α} {text : α → String}
    (h : Writes emit d text) : Writes (fun out => .look (emit out)) (.look d) text :=
  fun out => congrArg Decoder.look (h out)

theorem Writes.emitTimes {emit : String → Decoder String} {d : Decoder α} {text : α → String}
    (h : Writes emit d text) (n : Nat) :
    Writes (emitTimes emit n) (times n d) fun as => String.join (as.map text) := by
  -- The values found so far are those whose texts were written after `out`.
  have loop (n i : Nat) (out : String) (found : List α) :
      Decoder.emitTimes emit n (out ++ String.join (found.reverse.map text)) =
        (fun as => out ++ String.join (as.map text)) <$> collectFrom (fun _ => d) i n found := by
    induction n generalizing i found with
    | zero => rfl
    | succ n ih =>
      change emit _ >>= Decoder.emitTimes emit n = _ <$> (d >>= _)
      rw [h, bind_map_left, map_bind]
      refine congrArg (d >>= ·) (funext fun a => ?_)
      rw [← ih (i + 1) (a :: found)]
      simp [String.append_assoc]
  intro out
  have hstart := loop n 0 out []
  rw [List.reverse_nil, List.map_nil, String.join_nil, String.append_empty] at hstart
  exact hstart

theorem Writes.emitList {emit : String → Decoder String} {d : Decoder α} {text : α → String}
    (h : Writes emit d text) :
    Writes (emitList emit) (listOf d) fun as => String.join (as.map text) := by
  intro out
  simp only [Decoder.emitList, listOf, map_bind, h.emitTimes _ out]

end Decoder

/-- Reads an operand and spells it. -/
def Operand.spelling (lexicon : Lexicon) : Role → Decoder String
  | .int => do return toString (← Decoder.int)
  | .float => do return (← Decoder.float).literal
  | .entity kind => do return lexicon.spell kind (← Decoder.int)

/-- Reads a statement and spells each operand before the next is read. -/
def Statement.spelling (table : OperatorSet) (lexicon : Lexicon) : Decoder Invocation := do
  let opcode ← Decoder.int
  let operator := table.find? opcode.natAbs
  let n ← Decoder.count
  let operands ←
    Decoder.collect (fun slot => Operand.spelling lexicon (roleOf operator slot)) n
  return { negated := opcode < 0, callee := .ofFound opcode.natAbs operator, operands }

namespace Block

/-- The statements of a block, each spelt while it is read. -/
def spelt (table : OperatorSet) (lexicon : Lexicon) : Decoder (List Invocation) :=
  .look do
    let n ← Decoder.count
    Decoder.collect (fun r => (Statement.spelling table lexicon).inRecord r) n

/-- Reads a block and writes it as a bracketed list. -/
def emit (table : OperatorSet) (lexicon : Lexicon) (indent out : String) : Decoder String := do
  let calls ← spelt table lexicon
  if calls.isEmpty then return out ++ "[]"
  else
    let lines := calls.map fun call => indent ++ "  " ++ call.text ++ ",\n"
    return out ++ "[\n" ++ String.join lines ++ indent ++ "]"

end Block

theorem Operand.spelling_eq_map (lexicon : Lexicon) (role : Role) :
    spelling lexicon role = Operand.render lexicon <$> decoder role := by
  cases role <;> rfl

theorem Statement.spelling_eq_map (table : OperatorSet) (lexicon : Lexicon) :
    spelling table lexicon = invocation lexicon <$> decoder table := by
  simp only [spelling, decoder, Operand.spelling_eq_map, Decoder.collect_map, map_bind, map_pure,
    bind_map_left]
  rfl

namespace Block

theorem spelt_eq_map (table : OperatorSet) (lexicon : Lexicon) :
    spelt table lexicon = List.map (Statement.invocation lexicon) <$> decoder table := by
  simp only [spelt, decoder, Statement.spelling_eq_map, Decoder.inRecord_map, Decoder.collect_map,
    Decoder.map_look, map_bind]

theorem emit_writes (table : OperatorSet) (lexicon : Lexicon) (indent : String) :
    Decoder.Writes (emit table lexicon indent) (decoder table) (render lexicon indent) := by
  intro out
  rw [emit, spelt_eq_map, bind_map_left, map_eq_pure_bind]
  refine congrArg (decoder table >>= ·) (funext fun block => ?_)
  cases block with
  | nil => rfl
  | cons s rest =>
    simp [render, lines, Statement.render_eq_invocation, String.append_assoc, Function.comp_def]

end Block

namespace Layout

def Script.emit (table : OperatorSet) (lexicon : Lexicon) (out : String) : Decoder String := do
  let name ← Decoder.word
  let flags ← Decoder.word
  let out := out ++ "  (" ++ quoted name ++ ","
  let out := out ++ (if flags = unflagged then "" else " " ++ flags ++ ",")
  let out ← Block.emit table lexicon "    " (out ++ "\n    ")
  return out ++ "),\n\n"

theorem Script.emit_writes (table : OperatorSet) (lexicon : Lexicon) :
    Decoder.Writes (emit table lexicon) (decoder table) (render lexicon) := by
  intro out
  simp only [emit, decoder, render, Block.emit_writes table lexicon "    " _, map_bind, map_pure,
    bind_map_left, String.append_assoc]

def Trigger.emit (table : OperatorSet) (lexicon : Lexicon) (indent out : String) :
    Decoder String := do
  let check ← Decoder.float
  let delay ← Decoder.float
  let rearm ← Decoder.float
  let out := out ++ indent ++ "(" ++ intervalText check ++ ", " ++ intervalText delay ++ ", " ++
    intervalText rearm ++ ",\n    "
  let out ← Block.emit table lexicon "    " out
  let out ← Block.emit table lexicon "    " (out ++ ",\n    ")
  return out ++ "),\n\n"

theorem Trigger.emit_writes (table : OperatorSet) (lexicon : Lexicon) (indent : String) :
    Decoder.Writes (emit table lexicon indent) (decoder table) (render lexicon indent) := by
  intro out
  simp only [emit, decoder, render, Block.emit_writes table lexicon "    " _, map_bind, map_pure,
    bind_map_left, String.append_assoc]

def SimpleTrigger.emit (table : OperatorSet) (lexicon : Lexicon) (out : String) :
    Decoder String := do
  let interval ← Decoder.float
  let out ← Block.emit table lexicon "    " (out ++ "  (" ++ intervalText interval ++ ",\n    ")
  return out ++ "),\n\n"

theorem SimpleTrigger.emit_writes (table : OperatorSet) (lexicon : Lexicon) :
    Decoder.Writes (emit table lexicon) (decoder table) (render lexicon) := by
  intro out
  simp only [emit, decoder, render, Block.emit_writes table lexicon "    " _, map_bind, map_pure,
    bind_map_left, String.append_assoc]

def Dialog.emit (table : OperatorSet) (lexicon : Lexicon) (out : String) : Decoder String := do
  let _ ← Decoder.word
  let partner := partnerLayout.spell lexicon (← Decoder.word32).toUInt64
  let start := lexicon.spell .dialogState (← Decoder.int)
  let out ← Block.emit table lexicon "    " (out ++ "  [" ++ partner ++ ", " ++ quoted start ++
    ",\n    ")
  let text := spaced (← Decoder.word)
  let finish := lexicon.spell .dialogState (← Decoder.int)
  let out ← Block.emit table lexicon "    " (out ++ ",\n    " ++ quoted text ++ ",\n    " ++
    quoted finish ++ ",\n    ")
  let voice ← Decoder.word
  let out := out ++ (if voice = noVoice then "" else ",\n    [" ++ quoted voice ++ "]")
  return out ++ "],\n\n"

theorem Dialog.emit_writes (table : OperatorSet) (lexicon : Lexicon) :
    Decoder.Writes (emit table lexicon) (decoder table) (render lexicon) := by
  intro out
  simp only [emit, decoder, Block.emit_writes table lexicon "    " _, map_bind, map_pure,
    bind_map_left]
  unfold render
  simp only [String.append_assoc]

/-- Reads a slot and spells the stack it holds, if there is one. -/
def Stack.slotSpelling (lexicon : Lexicon) : Decoder (Option String) := do
  let troop ← Decoder.int
  if troop = noTroop then return none
  else
    let least ← Decoder.int
    let most ← Decoder.int
    let member ← Decoder.word32
    return some ("(" ++ lexicon.spell .troop troop ++ ", " ++ toString least ++ ", " ++
      toString most ++ (if member = captive then ", pmf_is_prisoner" else "") ++ ")")

theorem Stack.slotSpelling_eq_map (lexicon : Lexicon) :
    slotSpelling lexicon = Option.map (render lexicon) <$> slotDecoder := by
  simp only [slotSpelling, slotDecoder, map_bind]
  refine congrArg (Decoder.int >>= ·) (funext fun troop => ?_)
  split
  · rfl
  · simp only [map_bind, map_pure, Option.map_some, render]

def PartyTemplate.emit (lexicon : Lexicon) (out : String) : Decoder String := do
  let id ← Decoder.word
  let tag := Entity.partyTemplate.tag.toList
  let id := ((NameRule.dropTag? tag id.toList).map String.ofList).getD id
  let name ← Decoder.word
  let flags := flagLayout.spell lexicon (← Decoder.word64)
  let menu ← Decoder.int
  let faction := lexicon.spell .faction (← Decoder.int)
  let personality := spellPersonality (← Decoder.word32)
  let slots ← Decoder.times slotCount (Stack.slotSpelling lexicon)
  return out ++ "  (" ++ quoted id ++ ", " ++ quoted name ++ ", " ++ flags ++ ", " ++
    toString menu ++ ", " ++ faction ++ ", " ++ personality ++ ", [" ++
    commaList (slots.filterMap fun slot => slot) ++ "]),\n"

theorem PartyTemplate.emit_writes (lexicon : Lexicon) :
    Decoder.Writes (emit lexicon) decoder (render lexicon) := by
  have hshort (template : PartyTemplate) : template.shortId =
      ((NameRule.dropTag? Entity.partyTemplate.tag.toList template.id.toList).map
        String.ofList).getD template.id := by
    unfold shortId
    split <;> simp_all
  have hfilled (slots : List (Option Stack)) :
      (slots.map (Option.map (Stack.render lexicon))).filterMap (fun slot => slot) =
        (slots.filterMap fun slot => slot).map (Stack.render lexicon) := by
    rw [List.filterMap_map, List.map_filterMap]
    rfl
  intro out
  simp only [emit, decoder, Stack.slotSpelling_eq_map, Decoder.times_map, map_bind, map_pure,
    bind_map_left, hfilled]
  unfold render filledSlots
  simp only [hshort, String.append_assoc]

def Spawn.emit (lexicon : Lexicon) (out : String) : Decoder String := do
  let number ← Decoder.int
  let flags := flagLayout.spell lexicon (← Decoder.word32).toUInt64
  let equipment := equipmentLayout.spell lexicon (← Decoder.word32).toUInt64
  let conduct := spellConduct (← Decoder.word32)
  let troops ← Decoder.int
  let items ← Decoder.listOf (lexicon.spell .item <$> Decoder.int)
  return out ++ "    (" ++ toString number ++ ", " ++ flags ++ ", " ++ equipment ++ ", " ++
    conduct ++ ", " ++ toString troops ++ ", [" ++ commaList items ++ "]),\n"

theorem Spawn.emit_writes (lexicon : Lexicon) :
    Decoder.Writes (emit lexicon) decoder (render lexicon) := by
  intro out
  simp only [emit, decoder, Decoder.listOf_map, map_bind, map_pure, bind_map_left]
  unfold render
  simp only [String.append_assoc]

def MissionTemplate.emit (table : OperatorSet) (lexicon : Lexicon) (out : String) :
    Decoder String := do
  let _ ← Decoder.word
  let name ← Decoder.word
  let flags := flagLayout.spell lexicon (← Decoder.word32).toUInt64
  let kind := spellKind (← Decoder.int)
  let description := spaced (← Decoder.word)
  let out ← Decoder.emitList (Spawn.emit lexicon) (out ++ "  (" ++ quoted name ++ ", " ++ flags ++
    ", " ++ kind ++ ",\n  " ++ quoted description ++ ",\n  [\n")
  let out ← Decoder.emitList (Trigger.emit table lexicon "    ") (out ++ "  ],\n  [\n")
  return out ++ "  ]),\n\n"

theorem MissionTemplate.emit_writes (table : OperatorSet) (lexicon : Lexicon) :
    Decoder.Writes (emit table lexicon) (decoder table) (render lexicon) := by
  intro out
  simp only [emit, decoder, (Spawn.emit_writes lexicon).emitList _,
    (Trigger.emit_writes table lexicon "    ").emitList _, map_bind, map_pure, bind_map_left]
  unfold render
  simp only [String.append_assoc]

def FaceKey.emit (out : String) : Decoder String := do
  let _ ← Decoder.word
  let values ← Decoder.times 4 ((·.text) <$> Decoder.float)
  let text := spaced (← Decoder.word)
  return out ++ "      (" ++ commaList values ++ ", " ++ quoted text ++ "),\n"

theorem FaceKey.emit_writes : Decoder.Writes emit decoder render := by
  intro out
  simp only [emit, decoder, render, Decoder.times_map, map_bind, map_pure, bind_map_left,
    String.append_assoc]

/-- Reads a material and writes it. -/
def FaceTexture.emitMaterial (out : String) : Decoder String := do
  return out ++ "[" ++ quoted (← Decoder.word) ++ "], "

theorem FaceTexture.emitMaterial_writes :
    Decoder.Writes emitMaterial Decoder.word fun material => "[" ++ quoted material ++ "], " := by
  intro out
  simp only [emitMaterial, map_eq_pure_bind, String.append_assoc]

def FaceTexture.emit (out : String) : Decoder String := do
  let name ← Decoder.word
  let color ← Decoder.word32
  let materialCount ← Decoder.count
  let colorCount ← Decoder.count
  let out ← Decoder.emitTimes emitMaterial materialCount (out ++ "      (" ++ quoted name ++ ", " ++
    Number.upperHex color.toNat ++ ", ")
  let hair ← Decoder.times colorCount
    ((fun color => Number.lowerHex color.toNat) <$> Decoder.word64)
  return out ++ "[" ++ commaList hair ++ "]),\n"

theorem FaceTexture.emit_writes : Decoder.Writes emit decoder render := by
  intro out
  simp only [emit, decoder, render, emitMaterial_writes.emitTimes _ _, Decoder.times_map, map_bind,
    map_pure, bind_map_left, String.append_assoc]

/-- Reads a voice and spells it. -/
def Voice.spelling : Decoder String := do
  let kind ← Decoder.word32
  let kind := (kindNames[kind.toNat]?).getD (toString kind.toNat)
  return "(" ++ kind ++ ", " ++ quoted (← Decoder.word) ++ ")"

theorem Voice.spelling_eq_map : spelling = render <$> decoder := by
  simp only [spelling, decoder, render, map_bind, map_pure]

/-- Reads a weight and a face key, and spells the two. -/
def Constraint.termSpelling : Decoder String := do
  let weight ← Decoder.float
  let key ← Decoder.int
  return "(" ++ weight.text ++ ", " ++ toString key ++ ")"

def Constraint.emit (out : String) : Decoder String := do
  let bound ← Decoder.float
  let comparison := spellComparison (← Decoder.int)
  let terms ← Decoder.listOf termSpelling
  return out ++ "\n      [" ++ bound.text ++ ", " ++ comparison ++ ", " ++ commaList terms ++ "],"

theorem Constraint.emit_writes : Decoder.Writes emit decoder render := by
  have hterms : Decoder.listOf termSpelling = List.map renderTerm <$> Decoder.listOf (do
      let weight ← Decoder.float
      let key ← Decoder.int
      return (weight, key)) := by
    rw [← Decoder.listOf_map]
    simp only [termSpelling, renderTerm, map_bind, map_pure]
  intro out
  simp only [emit, decoder, render, hterms, map_bind, map_pure, bind_map_left, String.append_assoc]

/-- Reads a list of words and spells it. -/
def Skin.wordsSpelling : Decoder String := do
  return "[" ++ commaList (← Decoder.listOf (quoted <$> Decoder.word)) ++ "]"

def Skin.emit (lexicon : Lexicon) (out : String) : Decoder String := do
  let name ← Decoder.word
  let flags ← Decoder.int
  let body ← Decoder.word
  let calf ← Decoder.word
  let hand ← Decoder.word
  let head ← Decoder.word
  let out := out ++ "  (\n    " ++ quoted name ++ ", " ++ toString flags ++ ",\n    " ++
    quoted body ++ ", " ++ quoted calf ++ ", " ++ quoted hand ++ ",\n    " ++ quoted head ++ ",\n"
  let out ← Decoder.emitList FaceKey.emit (out ++ "    [\n")
  let hair ← wordsSpelling
  let beards ← wordsSpelling
  let hairTextures ← wordsSpelling
  let beardTextures ← wordsSpelling
  let out := out ++ "    ],\n" ++ "    " ++ hair ++ ",\n" ++ "    " ++ beards ++ ",\n" ++ "    " ++
    hairTextures ++ ",\n" ++ "    " ++ beardTextures ++ ",\n"
  let out ← Decoder.emitList FaceTexture.emit (out ++ "    [\n")
  let voices ← Decoder.listOf Voice.spelling
  let out := out ++ "    ],\n" ++ "    [" ++ commaList voices ++ "],\n"
  let skeleton ← Decoder.word
  let scale ← Decoder.word
  let blood := lexicon.spell .particleSystem (← Decoder.int)
  let secondBlood := lexicon.spell .particleSystem (← Decoder.int)
  let out := out ++ "    " ++ quoted skeleton ++ ", " ++ scale ++ ",\n    " ++ blood ++ ", " ++
    secondBlood ++ ",\n"
  let out ← Decoder.emitList Constraint.emit (out ++ "    [")
  return out ++ "\n    ]),\n\n"

theorem Skin.renderWords_eq (words : List String) :
    renderWords words = "    " ++ ("[" ++ (commaList (words.map quoted) ++ ("]" ++ ",\n"))) := by
  have hopen : "    " ++ "[" = "    [" := by decide
  have hclose : "]" ++ ",\n" = "],\n" := by decide
  simp only [renderWords, ← hopen, ← hclose, String.append_assoc]

theorem Skin.emit_writes (lexicon : Lexicon) :
    Decoder.Writes (emit lexicon) decoder (render lexicon) := by
  intro out
  simp only [emit, decoder, wordsSpelling, Voice.spelling_eq_map,
    FaceKey.emit_writes.emitList _, FaceTexture.emit_writes.emitList _,
    Constraint.emit_writes.emitList _, Decoder.listOf_map, map_bind, map_pure, bind_assoc,
    pure_bind, bind_map_left]
  unfold render
  simp only [renderWords_eq, String.append_assoc]

end Layout

namespace Format

/-- Reads a record of a format and writes it. -/
def emitRecord (context : Context) : Format → String → Decoder String
  | scripts => Script.emit context.operators context.lexicon
  | triggers => Trigger.emit context.operators context.lexicon "  "
  | simpleTriggers => SimpleTrigger.emit context.operators context.lexicon
  | dialogs => Dialog.emit context.operators context.lexicon
  | partyTemplates => PartyTemplate.emit context.lexicon
  | missionTemplates => MissionTemplate.emit context.operators context.lexicon
  | skins => Skin.emit context.lexicon

/-- Reads the records of a file, with a look before each, and writes its module on the way. -/
def emitter (context : Context) (format : Format) : Decoder String := do
  let out ← Decoder.emitList (fun out => .look (format.emitRecord context out))
    (format.opening ++ "[\n")
  return out ++ "]\n"

theorem emitRecord_writes (context : Context) (format : Format) :
    Decoder.Writes (format.emitRecord context) (recordDecoder context.operators format)
      (format.renderRecord context.lexicon) := by
  cases format with
  | scripts => exact Script.emit_writes context.operators context.lexicon
  | triggers => exact Trigger.emit_writes context.operators context.lexicon "  "
  | simpleTriggers => exact SimpleTrigger.emit_writes context.operators context.lexicon
  | dialogs => exact Dialog.emit_writes context.operators context.lexicon
  | partyTemplates => exact PartyTemplate.emit_writes context.lexicon
  | missionTemplates => exact MissionTemplate.emit_writes context.operators context.lexicon
  | skins => exact Skin.emit_writes context.lexicon

/-- To write while reading is to read, and then to write. -/
theorem emitter_eq_map_render (context : Context) (format : Format) :
    format.emitter context =
      format.render context.lexicon <$> format.decoder context.operators := by
  rw [emitter, (format.emitRecord_writes context).look.emitList, bind_map_left, map_eq_pure_bind]
  refine congrArg (format.decoder context.operators >>= ·) (funext fun records => ?_)
  rw [render_eq_opening]

end Format

end ModuleSource
