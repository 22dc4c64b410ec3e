import ModuleSource.Proofs.Decoder.SelfDelimiting
import ModuleSource.Proofs.Layout.Pieces

/-!
Generated modules are lists with one bracketed element for each record. A decoder hands on the words
of a file as they are, so where those are plain a record is written in pieces that close what they
open, with one bracket around them.
-/

namespace ModuleSource

open Text Number Layout

namespace Decoder

variable {α β : Type} {P : α → Prop} {Q : β → Prop} {d : Decoder α}

/-- Every value that a decoder comes to from plain words has the property. -/
def Spells (P : α → Prop) (d : Decoder α) : Prop :=
  d.Reads fun ws a => (∀ w ∈ ws, Plain w) → P a

theorem reads_true (d : Decoder α) : d.Reads fun _ _ => True := by
  induction d with
  | done a => trivial
  | look next ih => exact ih
  | read site kind next ih => exact fun _ v _ _ => ih v

theorem spells_any (d : Decoder α) : d.Spells fun _ => True :=
  (reads_true d).mono fun _ _ _ _ => trivial

theorem spells_done {a : α} (h : P a) : (done a).Spells P := fun _ => h

theorem spells_word : word.Spells fun s => Plain s.toList := by
  refine (reads_token .word).mono ?_
  rintro _ _ ⟨w, rfl, -, ⟨⟩⟩ hplain
  rw [String.toList_ofList]
  exact hplain w List.mem_cons_self

theorem Spells.mono {P' : α → Prop} (h : d.Spells P) (hP : ∀ a, P a → P' a) : d.Spells P' :=
  Reads.mono h fun _ a ha hplain => hP a (ha hplain)

theorem Spells.bind {f : α → Decoder β} (h : d.Spells P) (hf : ∀ a, P a → (f a).Spells Q) :
    (d >>= f).Spells Q := by
  refine Reads.bind h fun ws a ha => ?_
  by_cases hws : ∀ w ∈ ws, Plain w
  · exact Reads.mono (hf a (ha hws)) fun rest b hb hplain =>
      hb fun w hw => hplain w (List.mem_append_right ws hw)
  · exact (reads_true (f a)).mono fun rest b _ hplain =>
      absurd (fun w hw => hplain w (List.mem_append_left rest hw)) hws

theorem Listed.forall_of_plain {i : Nat} {ws : List (List Char)} {as : List α}
    (h : Listed (fun _ ws a => (∀ w ∈ ws, Plain w) → P a) i ws as) (hplain : ∀ w ∈ ws, Plain w) :
    ∀ a ∈ as, P a := by
  induction h with
  | nil i => simp
  | @cons i ws rest a as head tail ih =>
    obtain ⟨hws, hrest⟩ := List.forall_mem_append.mp hplain
    exact List.forall_mem_cons.mpr ⟨head hws, ih hrest⟩

theorem Spells.times (h : d.Spells P) (n : Nat) : (times n d).Spells fun as => ∀ a ∈ as, P a :=
  (Reads.collect (fun _ => h) n).mono fun _ _ hlisted hplain => hlisted.2.forall_of_plain hplain

theorem Spells.listOf (h : d.Spells P) : (listOf d).Spells fun as => ∀ a ∈ as, P a :=
  (spells_any count).bind fun n _ => h.times n

end Decoder

section Records

variable {lexicon : Lexicon} {table : OperatorSet} (hlexicon : lexicon.Plain) (htable : table.Plain)
include hlexicon

section Blocks

include htable

theorem Block.decoder_spells : (Block.decoder table).Spells fun block =>
    ∀ indent : String, Clear indent.toList → Closed (block.render lexicon indent) := by
  refine (decoder_reads table).mono fun ws block hcounted _ indent hindent => ?_
  refine render_of_composes composes_closed (fun s hs => ?_) hindent
  obtain ⟨ws, hcompiled⟩ := hcounted.of_mem hs
  exact hcompiled.render_of_composes composes_closed hlexicon.closed fun op hop =>
    closed_of_plain (htable op hop)

theorem Layout.Script.decoder_spells :
    (decoder table).Spells fun script => IsGroup (script.render lexicon) := by
  refine Decoder.spells_word.bind fun name hname => ?_
  refine Decoder.spells_word.bind fun flags hflags => ?_
  refine (Block.decoder_spells hlexicon htable).bind fun body hbody => ?_
  refine Decoder.spells_done fun e k => ?_
  have hoption : Closed (if flags = unflagged then "" else " " ++ flags ++ ",") := by
    split
    · exact closed_ofList (by decide)
    · exact ((closed_ofList (by decide)).append (closed_of_plain hflags)).append
        (closed_ofList (by decide))
  unfold render
  repeat' with_reducible apply Nesting.scan_append_string
  exacts [rfl, closed_quoted hname _ _ _, rfl, hoption _ _ _, rfl, hbody _ (by decide) _ _ _, rfl]

theorem Layout.Trigger.decoder_spells : (decoder table).Spells fun trigger =>
    ∀ indent : String, Clear indent.toList → IsGroup (trigger.render lexicon indent) := by
  refine (Decoder.spells_any _).bind fun check _ => ?_
  refine (Decoder.spells_any _).bind fun delay _ => ?_
  refine (Decoder.spells_any _).bind fun rearm _ => ?_
  refine (Block.decoder_spells hlexicon htable).bind fun condition hcondition => ?_
  refine (Block.decoder_spells hlexicon htable).bind fun consequence hconsequence => ?_
  refine Decoder.spells_done fun indent hindent e k => ?_
  have hinterval (x : Binary64) := closed_of_clear (clear_intervalText x)
  unfold render
  repeat' with_reducible apply Nesting.scan_append_string
  exacts [Nesting.scan_plain hindent.plain _ _, rfl, hinterval _ _ _ _, rfl, hinterval _ _ _ _, rfl,
    hinterval _ _ _ _, rfl, hcondition _ (by decide) _ _ _, rfl,
    hconsequence _ (by decide) _ _ _, rfl]

theorem Layout.SimpleTrigger.decoder_spells :
    (decoder table).Spells fun trigger => IsGroup (trigger.render lexicon) := by
  refine (Decoder.spells_any _).bind fun interval _ => ?_
  refine (Block.decoder_spells hlexicon htable).bind fun body hbody => ?_
  refine Decoder.spells_done fun e k => ?_
  unfold render
  repeat' with_reducible apply Nesting.scan_append_string
  exacts [rfl, closed_of_clear (clear_intervalText _) _ _ _, rfl, hbody _ (by decide) _ _ _, rfl]

theorem Layout.Dialog.decoder_spells :
    (decoder table).Spells fun dialog => IsGroup (dialog.render lexicon) := by
  refine (Decoder.spells_any _).bind fun label _ => ?_
  refine (Decoder.spells_any _).bind fun partner _ => ?_
  refine (Decoder.spells_any _).bind fun start _ => ?_
  refine (Block.decoder_spells hlexicon htable).bind fun condition hcondition => ?_
  refine Decoder.spells_word.bind fun text htext => ?_
  refine (Decoder.spells_any _).bind fun finish _ => ?_
  refine (Block.decoder_spells hlexicon htable).bind fun consequence hconsequence => ?_
  refine Decoder.spells_word.bind fun voice hvoice => ?_
  refine Decoder.spells_done fun e k => ?_
  have hpartner := FlagLayout.closed_spell hlexicon partnerLayout (by decide) partner.toUInt64
  have hstate (index : Int) := closed_quoted (hlexicon.spell .dialogState index)
  have hoption : Closed (if voice = noVoice then "" else ",\n    [" ++ quoted voice ++ "]") := by
    intro b e k
    split
    · rfl
    · repeat' with_reducible apply Nesting.scan_append_string
      exacts [rfl, closed_quoted hvoice _ _ _, rfl]
  unfold render
  repeat' with_reducible apply Nesting.scan_append_string
  exacts [rfl, hpartner _ _ _, rfl, hstate _ _ _ _, rfl, hcondition _ (by decide) _ _ _, rfl,
    closed_quoted (plain_spaced htext) _ _ _, rfl, hstate _ _ _ _, rfl,
    hconsequence _ (by decide) _ _ _, hoption _ _ _, rfl]

end Blocks

theorem Layout.Stack.closed_render (stack : Stack) : Closed (stack.render lexicon) := by
  have htroop := closed_of_plain (hlexicon.spell .troop stack.troop)
  have hoption : Closed (if stack.member = captive then ", pmf_is_prisoner" else "") := by
    split <;> exact closed_ofList (by decide)
  intro b e k
  unfold render
  repeat' with_reducible apply Nesting.scan_append_string
  exacts [rfl, htroop _ _ _, rfl, closed_int _ _ _ _, rfl, closed_int _ _ _ _, hoption _ _ _, rfl]

theorem Layout.PartyTemplate.decoder_spells :
    decoder.Spells fun template => IsGroup (template.render lexicon) := by
  refine Decoder.spells_word.bind fun id hid => ?_
  refine Decoder.spells_word.bind fun name hname => ?_
  refine (Decoder.spells_any _).bind fun flags _ => ?_
  refine (Decoder.spells_any _).bind fun menu _ => ?_
  refine (Decoder.spells_any _).bind fun faction _ => ?_
  refine (Decoder.spells_any _).bind fun personality _ => ?_
  refine (Decoder.spells_any _).bind fun slots _ => ?_
  refine Decoder.spells_done fun e k => ?_
  have hflags := FlagLayout.closed_spell hlexicon flagLayout (by decide) flags
  have hfaction := closed_of_plain (hlexicon.spell .faction faction)
  have hpersonality := closed_spellPersonality personality
  have hstacks (members : List Stack) : Closed (commaList (members.map (·.render lexicon))) := by
    refine closed_commaList fun text htext => ?_
    obtain ⟨stack, -, rfl⟩ := List.mem_map.mp htext
    exact stack.closed_render hlexicon
  unfold render
  repeat' with_reducible apply Nesting.scan_append_string
  exacts [rfl, closed_quoted (plain_shortId hid) _ _ _, rfl, closed_quoted hname _ _ _, rfl,
    hflags _ _ _, rfl, closed_int _ _ _ _, rfl, hfaction _ _ _, rfl, hpersonality _ _ _, rfl,
    hstacks _ _ _ _, rfl]

theorem Layout.Spawn.closed_render (spawn : Spawn) : Closed (spawn.render lexicon) := by
  have hflags := FlagLayout.closed_spell hlexicon flagLayout (by decide)
    spawn.flags.toUInt64
  have hequipment := FlagLayout.closed_spell hlexicon equipmentLayout (by decide)
    spawn.equipment.toUInt64
  have hconduct : Closed (spellConduct spawn.conduct) := by
    unfold spellConduct
    split
    · exact closed_ofList (by decide)
    · exact closed_of_clear (clear_toString_nat _)
  have hitems : Closed (commaList (spawn.items.map (lexicon.spell .item))) := by
    refine closed_commaList fun text htext => ?_
    obtain ⟨item, -, rfl⟩ := List.mem_map.mp htext
    exact closed_of_plain (hlexicon.spell .item item)
  intro b e k
  unfold render
  repeat' with_reducible apply Nesting.scan_append_string
  exacts [rfl, closed_int _ _ _ _, rfl, hflags _ _ _, rfl, hequipment _ _ _, rfl, hconduct _ _ _,
    rfl, closed_int _ _ _ _, rfl, hitems _ _ _, rfl]

include htable in
theorem Layout.MissionTemplate.decoder_spells :
    (decoder table).Spells fun mission => IsGroup (mission.render lexicon) := by
  refine (Decoder.spells_any _).bind fun id _ => ?_
  refine Decoder.spells_word.bind fun name hname => ?_
  refine (Decoder.spells_any _).bind fun flags _ => ?_
  refine (Decoder.spells_any _).bind fun kind _ => ?_
  refine Decoder.spells_word.bind fun description hdescription => ?_
  refine (Decoder.spells_any _).bind fun spawns _ => ?_
  refine (Trigger.decoder_spells hlexicon htable).listOf.bind fun triggers htriggers => ?_
  refine Decoder.spells_done fun e k => ?_
  have hflags := FlagLayout.closed_spell hlexicon flagLayout (by decide) flags.toUInt64
  have hkind : Closed (spellKind kind) := by
    unfold spellKind
    split
    · exact closed_ofList (by decide)
    split
    · exact closed_ofList (by decide)
    · exact closed_int kind
  have hspawns : Closed (String.join (spawns.map (·.render lexicon))) := by
    refine closed_join fun text htext => ?_
    obtain ⟨spawn, -, rfl⟩ := List.mem_map.mp htext
    exact spawn.closed_render hlexicon
  have htriggers : Closed (String.join (triggers.map (·.render lexicon "    "))) := by
    refine closed_join fun text htext => ?_
    obtain ⟨trigger, htrigger, rfl⟩ := List.mem_map.mp htext
    exact (htriggers trigger htrigger _ (by decide)).closed
  unfold render
  repeat' with_reducible apply Nesting.scan_append_string
  exacts [rfl, closed_quoted hname _ _ _, rfl, hflags _ _ _, rfl, hkind _ _ _, rfl,
    closed_quoted (plain_spaced hdescription) _ _ _, rfl, hspawns _ _ _, rfl, htriggers _ _ _, rfl]

end Records

section Skins

theorem Layout.FaceKey.decoder_spells : decoder.Spells fun key => Closed key.render := by
  refine (Decoder.spells_any _).bind fun id _ => ?_
  refine (Decoder.spells_any _).bind fun values _ => ?_
  refine Decoder.spells_word.bind fun text htext => ?_
  refine Decoder.spells_done fun b e k => ?_
  have hvalues : Closed (commaList (values.map (·.text))) := by
    refine closed_commaList fun text htext => ?_
    obtain ⟨value, -, rfl⟩ := List.mem_map.mp htext
    exact closed_of_clear (clear_text value)
  unfold render
  repeat' with_reducible apply Nesting.scan_append_string
  exacts [rfl, hvalues _ _ _, rfl, closed_quoted (plain_spaced htext) _ _ _, rfl]

theorem Layout.FaceTexture.decoder_spells :
    decoder.Spells fun texture => Closed texture.render := by
  refine Decoder.spells_word.bind fun name hname => ?_
  refine (Decoder.spells_any _).bind fun color _ => ?_
  refine (Decoder.spells_any _).bind fun materialCount _ => ?_
  refine (Decoder.spells_any _).bind fun colorCount _ => ?_
  refine (Decoder.spells_word.times materialCount).bind fun materials hmaterials => ?_
  refine (Decoder.spells_any _).bind fun hairColors _ => ?_
  refine Decoder.spells_done fun b e k => ?_
  have hmaterials : Closed (String.join (materials.map fun material =>
      "[" ++ quoted material ++ "], ")) := by
    refine closed_join fun text htext => ?_
    obtain ⟨material, hmaterial, rfl⟩ := List.mem_map.mp htext
    intro b e k
    repeat' with_reducible apply Nesting.scan_append_string
    exacts [rfl, closed_quoted (hmaterials material hmaterial) _ _ _, rfl]
  have hcolors : Closed (commaList (hairColors.map fun color => lowerHex color.toNat)) := by
    refine closed_commaList fun text htext => ?_
    obtain ⟨color, -, rfl⟩ := List.mem_map.mp htext
    exact closed_of_clear (clear_lowerHex _)
  unfold render
  repeat' with_reducible apply Nesting.scan_append_string
  exacts [rfl, closed_quoted hname _ _ _, rfl, closed_of_clear (clear_upperHex _) _ _ _, rfl,
    hmaterials _ _ _, rfl, hcolors _ _ _, rfl]

theorem Layout.Voice.decoder_spells : decoder.Spells fun voice => Closed voice.render := by
  refine (Decoder.spells_any _).bind fun kind _ => ?_
  refine Decoder.spells_word.bind fun sound hsound => ?_
  refine Decoder.spells_done fun b e k => ?_
  have names : ∀ name ∈ kindNames, lacks heeded name = true := by decide
  have hkind : Closed ((kindNames[kind.toNat]?).getD (toString kind.toNat)) := by
    cases hname : kindNames[kind.toNat]? with
    | none => exact closed_of_clear (clear_toString_nat _)
    | some name =>
      exact closed_of_clear (clear_of_lacks (names name (List.mem_of_getElem? hname)))
  unfold render
  repeat' with_reducible apply Nesting.scan_append_string
  exacts [rfl, hkind _ _ _, rfl, closed_quoted hsound _ _ _, rfl]

theorem Layout.Constraint.closed_render (constraint : Constraint) : Closed constraint.render := by
  have hbound := closed_of_clear (clear_text constraint.bound)
  have hcomparison : Closed (spellComparison constraint.comparison) := by
    unfold spellComparison
    split
    · exact closed_ofList (by decide)
    split
    · exact closed_ofList (by decide)
    · exact closed_int _
  have hterms : Closed (commaList (constraint.terms.map renderTerm)) := by
    refine closed_commaList fun text htext => ?_
    obtain ⟨term, -, rfl⟩ := List.mem_map.mp htext
    intro b e k
    unfold renderTerm
    repeat' with_reducible apply Nesting.scan_append_string
    exacts [rfl, closed_of_clear (clear_text _) _ _ _, rfl, closed_int _ _ _ _, rfl]
  intro b e k
  unfold render
  repeat' with_reducible apply Nesting.scan_append_string
  exacts [rfl, hbound _ _ _, rfl, hcomparison _ _ _, rfl, hterms _ _ _, rfl]

theorem Layout.Skin.closed_renderWords {words : List String}
    (h : ∀ word ∈ words, Text.Plain word.toList) : Closed (renderWords words) := by
  have hwords : Closed (commaList (words.map quoted)) := by
    refine closed_commaList fun text htext => ?_
    obtain ⟨word, hword, rfl⟩ := List.mem_map.mp htext
    exact closed_quoted (h word hword)
  intro b e k
  unfold renderWords
  repeat' with_reducible apply Nesting.scan_append_string
  exacts [rfl, hwords _ _ _, rfl]

theorem Layout.Skin.decoder_spells {lexicon : Lexicon} (hlexicon : lexicon.Plain) :
    decoder.Spells fun skin => IsGroup (skin.render lexicon) := by
  refine Decoder.spells_word.bind fun name hname => ?_
  refine (Decoder.spells_any _).bind fun flags _ => ?_
  refine Decoder.spells_word.bind fun body hbody => ?_
  refine Decoder.spells_word.bind fun calf hcalf => ?_
  refine Decoder.spells_word.bind fun hand hhand => ?_
  refine Decoder.spells_word.bind fun head hhead => ?_
  refine FaceKey.decoder_spells.listOf.bind fun faceKeys hfaceKeys => ?_
  refine Decoder.spells_word.listOf.bind fun hair hhair => ?_
  refine Decoder.spells_word.listOf.bind fun beards hbeards => ?_
  refine Decoder.spells_word.listOf.bind fun hairTextures hhairTextures => ?_
  refine Decoder.spells_word.listOf.bind fun beardTextures hbeardTextures => ?_
  refine FaceTexture.decoder_spells.listOf.bind fun faceTextures hfaceTextures => ?_
  refine Voice.decoder_spells.listOf.bind fun voices hvoices => ?_
  refine Decoder.spells_word.bind fun skeleton hskeleton => ?_
  refine Decoder.spells_word.bind fun scale hscale => ?_
  refine (Decoder.spells_any _).bind fun blood _ => ?_
  refine (Decoder.spells_any _).bind fun secondBlood _ => ?_
  refine (Decoder.spells_any _).bind fun constraints _ => ?_
  refine Decoder.spells_done fun e k => ?_
  have hfaceKeys : Closed (String.join (faceKeys.map (·.render))) :=
    closed_join (List.forall_mem_map.mpr hfaceKeys)
  have hfaceTextures : Closed (String.join (faceTextures.map (·.render))) :=
    closed_join (List.forall_mem_map.mpr hfaceTextures)
  have hvoices : Closed (commaList (voices.map (·.render))) :=
    closed_commaList (List.forall_mem_map.mpr hvoices)
  have hconstraints : Closed (String.join (constraints.map (·.render))) :=
    closed_join (List.forall_mem_map.mpr fun constraint _ => constraint.closed_render)
  have hblood (index : Int) := closed_of_plain (hlexicon.spell .particleSystem index)
  unfold render
  repeat' with_reducible apply Nesting.scan_append_string
  exacts [rfl, closed_quoted hname _ _ _, rfl, closed_int _ _ _ _, rfl,
    closed_quoted hbody _ _ _, rfl, closed_quoted hcalf _ _ _, rfl, closed_quoted hhand _ _ _, rfl,
    closed_quoted hhead _ _ _, rfl, rfl, hfaceKeys _ _ _, rfl, closed_renderWords hhair _ _ _,
    closed_renderWords hbeards _ _ _, closed_renderWords hhairTextures _ _ _,
    closed_renderWords hbeardTextures _ _ _, rfl, hfaceTextures _ _ _, rfl, rfl, hvoices _ _ _,
    rfl, rfl, closed_quoted hskeleton _ _ _, rfl, closed_of_plain hscale _ _ _, rfl,
    hblood _ _ _ _, rfl, hblood _ _ _ _, rfl, rfl, hconstraints _ _ _, rfl]

end Skins

namespace Format

variable {lexicon : Lexicon} {table : OperatorSet}

theorem recordDecoder_spells (hlexicon : lexicon.Plain) (htable : table.Plain) (format : Format) :
    (recordDecoder table format).Spells fun record =>
      IsGroup (format.renderRecord lexicon record) := by
  cases format with
  | scripts => exact Script.decoder_spells hlexicon htable
  | triggers =>
    exact (Trigger.decoder_spells hlexicon htable).mono fun _ h => h "  " (by decide)
  | simpleTriggers => exact SimpleTrigger.decoder_spells hlexicon htable
  | dialogs => exact Dialog.decoder_spells hlexicon htable
  | partyTemplates => exact PartyTemplate.decoder_spells hlexicon
  | missionTemplates => exact MissionTemplate.decoder_spells hlexicon htable
  | skins => exact Skin.decoder_spells hlexicon

theorem plain_opening (format : Format) : Text.Plain format.opening.toList :=
  plain_of_lacks (by cases format <;> decide)

theorem toList_render (format : Format) (records : List format.Record) :
    (format.render lexicon records).toList = format.opening.toList ++
      '[' :: '\n' :: (String.join (records.map (format.renderRecord lexicon))).toList ++
        [']', '\n'] := by
  rw [render_eq_opening]
  simp only [String.toList_append, List.append_assoc]
  rfl

/-- Where neither the tokens of a file nor the names of entities and operators have quotes or
brackets, the generated module is one list, and it has as many bracketed elements as the file counts
records. -/
theorem generate_isListing (format : Format) (context : Context) (signal : StopSignal)
    (looks : Nat) {source source' : Source} {text : String}
    (htokens : ∀ w ∈ source.tokens, Text.Plain w) (hlexicon : context.lexicon.Plain)
    (hoperators : context.operators.Plain)
    (hgenerate : format.generate context signal looks source = (.ok text, source')) :
    ∃ (w : List Char) (n : Int), source.tokens.head? = some w ∧ int? w = some n ∧
      IsListing format.opening.toList n.toNat text.toList := by
  obtain ⟨records, hrun, rfl⟩ := generate_eq_ok.mp hgenerate
  have hreads : (format.decoder context.operators).Reads (Decoder.Counted fun _ ws record =>
      (∀ w ∈ ws, Text.Plain w) → IsGroup (format.renderRecord context.lexicon record)) :=
    Decoder.Reads.listOf (recordDecoder_spells hlexicon hoperators format)
  obtain ⟨_, hsource, w, n, rest, rfl, hcount, hlength, hlisted⟩ := hreads.of_run hrun
  rw [hsource] at htokens
  have hgroups := hlisted.forall_of_plain fun v hv => htokens v (by simp [hv])
  have hbody := scan_join (List.forall_mem_map.mpr hgroups) 0
  rw [List.length_map, ← hlength, Nat.zero_add] at hbody
  refine ⟨w, n, by rw [hsource]; rfl, hcount, ?_⟩
  rw [toList_render]
  exact isListing_of_scan format.plain_opening hbody

/-- A template with goods and a stack of captives: brackets are opened in its flags and, twice, in
its list of stacks. -/
theorem generate_isListing_template :
    let context : Context := ⟨.ofEngine .vanilla, Lexicon.empty.insert .troop #["farmer"]⟩
    let source :=
      Source.ofBytes "1 pt_men Men 844424930132229 0 0 312 0 1 2 1 -1 -1 -1 -1 -1".toUTF8
    let text := partyTemplates.opening ++ "[\n  (\"men\", \"Men\", " ++
      "5|carries_goods(3)|pf_disabled, 0, 0, bandit_personality, " ++
      "[(trp_farmer, 1, 2, pmf_is_prisoner)]),\n]\n"
    (∀ w ∈ source.tokens, Text.Plain w) ∧ context.lexicon.Plain ∧ context.operators.Plain ∧
      (partyTemplates.generate context .never 0 source).1 = .ok text ∧
      IsListing partyTemplates.opening.toList 1 text.toList := by
  intro context source text
  have htokens : ∀ w ∈ source.tokens, Text.Plain w := by decide +kernel
  have hlexicon : context.lexicon.Plain := by
    intro kind
    cases kind <;> decide
  have hoperators : context.operators.Plain := OperatorSet.plain_ofEngine .vanilla
  have hgenerate : (partyTemplates.generate context .never 0 source).1 = .ok text := by
    decide +kernel
  refine ⟨htokens, hlexicon, hoperators, hgenerate, ?_⟩
  obtain ⟨w, n, hw, hn, hlisting⟩ := generate_isListing partyTemplates context .never 0 htokens
    hlexicon hoperators (Prod.ext hgenerate rfl)
  have hcount : source.tokens.head?.bind int? = some 1 := by decide +kernel
  rw [hw, Option.bind_some, hn] at hcount
  obtain rfl := Option.some.inj hcount
  exact hlisting

/-- The name of an operator is written as it is, so an operator with a bracket in its name opens one
that nothing closes. -/
theorem generate_scripts_unbalanced :
    let context : Context := ⟨⟨.vanilla, [⟨1, "f(", .exactly 0, []⟩]⟩, .empty⟩
    let source := Source.ofBytes "1 a -1 1 1 0".toUTF8
    let text := scripts.opening ++ "[\n  (\"a\",\n    [\n      f((),\n    ]),\n\n]\n"
    (∀ w ∈ source.tokens, Text.Plain w) ∧ context.lexicon.Plain ∧
      (scripts.generate context .never 0 source).1 = .ok text ∧
      Nesting.scan 1 {} text.toList = none := by
  intro context source text
  refine ⟨by decide +kernel, fun kind name hname => ?_, by decide +kernel, ?_⟩
  · simp [context, Lexicon.empty] at hname
  · rw [String.toList_append, Nesting.scan_append, Nesting.scan_plain scripts.plain_opening]
    decide

end Format

end ModuleSource
