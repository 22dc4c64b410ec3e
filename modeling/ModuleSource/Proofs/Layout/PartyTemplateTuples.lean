import Mathlib.Data.List.ReduceOption
import Mathlib.Data.Nat.Bitwise
import ModuleSource.Proofs.Flag.Told
import ModuleSource.Proofs.Name.PartyTemplateNames
import ModuleSource.Proofs.Statement.Grammar

/-!
Party templates, from their tokens to their tuples. A template is compiled to its fields in order
and to six slots, of one token or of four. Where a slot ends is told by its first token alone, so
the records stay aligned whatever the slots hold, and every template comes back with its own fields.
-/

namespace ModuleSource.Layout

open Number

namespace Stack

/-- A stack that a slot has room for. -/
@[mk_iff]
structure Fits (stack : Stack) : Prop where
  troop_ne : stack.troop ≠ noTroop
  troop : Signed64 stack.troop
  least : Signed64 stack.least
  most : Signed64 stack.most

instance (stack : Stack) : Decidable stack.Fits := decidable_of_iff _ (fits_iff stack).symm

/-- The tokens of a slot, with plain decimal numerals. -/
def encode : Option Stack → List (List Char)
  | none => ["-1".toList]
  | some stack => [(toString stack.troop).toList, (toString stack.least).toList,
      (toString stack.most).toList, (toString stack.member.toNat).toList]

theorem encoded_encode {slot : Option Stack} (h : ∀ stack, slot = some stack → stack.Fits) :
    Encoded (encode slot) slot := by
  cases slot with
  | none => exact .empty (by decide +kernel)
  | some stack =>
    have hfits := h stack rfl
    exact .filled (int?_toString hfits.troop) hfits.troop_ne (int?_toString hfits.least)
      (int?_toString hfits.most) (word32?_toString stack.member)

theorem Encoded.consumes {ws : List (List Char)} {slot : Option Stack} (h : Encoded ws slot) :
    slotDecoder.Consumes ws slot := by
  cases h with
  | empty parsed =>
    apply (Decoder.consumes_token .int parsed).bind
    rw [if_pos rfl]
    exact Decoder.consumes_done none
  | filled troop_eq troop_ne least_eq most_eq member_eq =>
    apply (Decoder.consumes_token .int troop_eq).bind
    rw [if_neg troop_ne]
    apply (Decoder.consumes_token .int least_eq).bind
    apply (Decoder.consumes_token .int most_eq).bind
    exact (Decoder.consumes_token .word32 member_eq).map _

/-- The tuple of a stack: its troop, its numbers, and a mark on captives. -/
inductive Written (lexicon : Lexicon) (stack : Stack) : String → Prop
  | free {troop : String} (resolved : lexicon.Resolves .troop stack.troop troop)
    (member_ne : stack.member ≠ 1) :
    Written lexicon stack
      ("(" ++ troop ++ ", " ++ toString stack.least ++ ", " ++ toString stack.most ++ ")")
  | captive {troop : String} (resolved : lexicon.Resolves .troop stack.troop troop)
    (member_eq : stack.member = 1) :
    Written lexicon stack
      ("(" ++ troop ++ ", " ++ toString stack.least ++ ", " ++ toString stack.most ++
        ", pmf_is_prisoner)")

theorem written_render (lexicon : Lexicon) (stack : Stack) :
    stack.Written lexicon (stack.render lexicon) := by
  have hresolved := lexicon.resolves_spell .troop stack.troop
  by_cases hmember : stack.member = 1
  · have hwritten := Written.captive hresolved hmember
    rw [show ", pmf_is_prisoner)" = ", pmf_is_prisoner" ++ ")" by decide, ← String.append_assoc]
      at hwritten
    rwa [render, captive, if_pos hmember]
  · have hwritten := Written.free hresolved hmember
    rwa [render, captive, if_neg hmember, String.append_empty]

end Stack

namespace PartyTemplate

/-- A template that a record has room for. -/
@[mk_iff]
structure Fits (template : PartyTemplate) : Prop where
  menu : Signed64 template.menu
  faction : Signed64 template.faction
  slots_length : template.slots.length = slotCount
  filled : ∀ stack ∈ template.slots.reduceOption, stack.Fits

instance (template : PartyTemplate) : Decidable template.Fits :=
  decidable_of_iff _ (fits_iff template).symm

/-- The tokens of a template, with plain decimal numerals. -/
def encode (template : PartyTemplate) : List (List Char) :=
  template.id.toList :: template.name.toList :: (toString template.flags.toNat).toList ::
    (toString template.menu).toList :: (toString template.faction).toList ::
    (toString template.personality.toNat).toList :: template.slots.flatMap Stack.encode

/-- The tokens of a file of templates: their number, and each of them. -/
def encodeAll (templates : List PartyTemplate) : List (List Char) :=
  (toString templates.length).toList :: templates.flatMap encode

theorem Fits.encoded_encode {template : PartyTemplate} (h : template.Fits) :
    Encoded template.encode template := by
  have hfits (slot : Option Stack) (hslot : slot ∈ template.slots) (stack : Stack)
      (hstack : slot = some stack) : stack.Fits := by
    rw [hstack] at hslot
    exact h.filled stack (List.reduceOption_mem_iff.mpr hslot)
  have hslots := Decoder.listed_flatMap (R := Stack.Encoded)
    (fun slot hslot => Stack.encoded_encode (hfits slot hslot)) 0
  exact .mk (word64?_toString _) (int?_toString h.menu) (int?_toString h.faction)
    (word32?_toString _) h.slots_length hslots

theorem Encoded.consumes {ws : List (List Char)} {template : PartyTemplate}
    (h : Encoded ws template) : decoder.Consumes ws template := by
  obtain ⟨flags_eq, menu_eq, faction_eq, personality_eq, slots_length, slots_eq⟩ := h
  have hslots := slots_eq.consumes fun _ _ _ hslot => hslot.consumes
  rw [slots_length] at hslots
  apply (Decoder.consumes_word template.id).bind
  apply (Decoder.consumes_word template.name).bind
  apply (Decoder.consumes_token .word64 flags_eq).bind
  apply (Decoder.consumes_token .int menu_eq).bind
  apply (Decoder.consumes_token .int faction_eq).bind
  apply (Decoder.consumes_token .word32 personality_eq).bind
  exact hslots.map _

/-- An id without its tag, which is dropped once if the id starts with it. -/
inductive ShortId : String → String → Prop
  | tagged (id : String) : ShortId ("pt_" ++ id) id
  | untagged {id : String} (h : ∀ rest, id ≠ "pt_" ++ rest) : ShortId id id

/-- What a personality without a name is told by: whether it has banditness, its courage from four
on and its aggressiveness if there is any, which are the two lowest digits to the base sixteen. -/
def traitNames (word : Nat) : List String :=
  (if word.testBit 8 then ["banditness"] else []) ++
    (if 4 ≤ word % 16 then ["courage_" ++ toString (word % 16)] else []) ++
    (if 0 < word / 16 % 16 then ["aggressiveness_" ++ toString (word / 16 % 16)] else [])

/-- The text of a personality. -/
inductive Personality (word : UInt32) : String → Prop
  | named {name : String} (known : (word, name) ∈ personalities) : Personality word name
  | mixed {text : String} (unknown : ∀ name, (word, name) ∉ personalities)
    (barred : Barred (traitNames word.toNat) text) : Personality word text

/-- The tuple of a template, with the stacks of the slots that are not empty. -/
inductive Written (lexicon : Lexicon) (template : PartyTemplate) : String → Prop
  | mk {id flags faction personality : String} {tuples : List String}
    (id_short : ShortId template.id id)
    (flags_told : flagLayout.Told lexicon template.flags flags)
    (resolved : lexicon.Resolves .faction template.faction faction)
    (personality_eq : Personality template.personality personality)
    (filled : List.Forall₂ (Stack.Written lexicon) template.slots.reduceOption tuples) :
    Written lexicon template
      ("  (\"" ++ id ++ "\", \"" ++ template.name ++ "\", " ++ flags ++ ", " ++
        toString template.menu ++ ", " ++ faction ++ ", " ++ personality ++ ", [" ++
        String.intercalate ", " tuples ++ "]),\n")

theorem shortId_shortId (template : PartyTemplate) : ShortId template.id template.shortId := by
  rw [shortId, Entity.tag]
  cases hdrop : NameRule.dropTag? "pt_".toList template.id.toList with
  | some id =>
    have heq : template.id = "pt_" ++ String.ofList id := by
      rw [← String.toList_inj, NameRule.dropTag?_eq_some_iff.mp hdrop, String.toList_append,
        String.toList_ofList (l := id)]
    rw [heq]
    exact .tagged _
  | none =>
    apply ShortId.untagged
    intro rest heq
    have hsome : NameRule.dropTag? "pt_".toList template.id.toList = some rest.toList := by
      rw [NameRule.dropTag?_eq_some_iff, heq, String.toList_append]
    rw [hsome] at hdrop
    cases hdrop

theorem courage_toNat (word : UInt32) : (word &&& 0x0F).toNat = word.toNat % 16 := by
  rw [UInt32.toNat_and]
  exact Nat.and_two_pow_sub_one_eq_mod word.toNat 4

theorem aggressiveness_toNat (word : UInt32) :
    ((word &&& 0xF0) >>> 4).toNat = word.toNat / 16 % 16 := by
  rw [UInt32.toNat_shiftRight, UInt32.toNat_and]
  show (word.toNat &&& 0xF0) >>> 4 = _
  rw [Nat.shiftRight_and_distrib, Nat.shiftRight_eq_div_pow]
  exact Nat.and_two_pow_sub_one_eq_mod (word.toNat / 2 ^ 4) 4

theorem banditness_eq_zero_iff (word : UInt32) :
    word &&& 0x100 = 0 ↔ word.toNat.testBit 8 = false := by
  rw [← UInt32.toNat_inj, UInt32.toNat_and]
  show word.toNat &&& 2 ^ 8 = 0 ↔ _
  rw [Nat.and_two_pow]
  cases word.toNat.testBit 8 <;> decide

theorem traits_eq (word : UInt32) : traits word = traitNames word.toNat := by
  have hcourage : (word &&& 0x0F) < 4 ↔ ¬4 ≤ word.toNat % 16 := by
    rw [UInt32.lt_iff_toNat_lt, courage_toNat, Nat.not_le]
    rfl
  have haggressive : (word &&& 0xF0) >>> 4 = 0 ↔ ¬0 < word.toNat / 16 % 16 := by
    rw [← UInt32.toNat_inj, aggressiveness_toNat, Nat.not_lt, Nat.le_zero]
    rfl
  simp only [traits, traitNames, banditness_eq_zero_iff, hcourage, haggressive, courage_toNat,
    aggressiveness_toNat, ite_not, ← Bool.not_eq_true]

theorem personality_spellPersonality (word : UInt32) :
    Personality word (spellPersonality word) := by
  rw [spellPersonality]
  cases hlookup : personalities.lookup word with
  | some name =>
    obtain ⟨before, after, hsplit, -⟩ := List.lookup_eq_some_iff.mp hlookup
    have hmem : (word, name) ∈ before ++ (word, name) :: after := by simp
    exact .named (hsplit ▸ hmem)
  | none =>
    show Personality word (FlagLayout.join (traits word))
    rw [traits_eq]
    refine .mixed ?_ (barred_join _)
    intro name hmem
    have hne := List.lookup_eq_none_iff.mp hlookup _ hmem
    simp at hne

theorem render_eq (lexicon : Lexicon) (template : PartyTemplate) :
    template.render lexicon = "  (\"" ++ template.shortId ++ "\", \"" ++ template.name ++ "\", " ++
      flagLayout.spell lexicon template.flags ++ ", " ++ toString template.menu ++ ", " ++
      lexicon.spell .faction template.faction ++ ", " ++ spellPersonality template.personality ++
      ", [" ++ commaList (template.filledSlots.map (·.render lexicon)) ++ "]),\n" := by
  -- Only the quotes are joined otherwise, whatever the fields are.
  have hfields (id name flags menu faction personality tuples : String) :
      "  (" ++ quoted id ++ ", " ++ quoted name ++ ", " ++ flags ++ ", " ++ menu ++ ", " ++
        faction ++ ", " ++ personality ++ ", [" ++ tuples ++ "]),\n" =
      "  (\"" ++ id ++ "\", \"" ++ name ++ "\", " ++ flags ++ ", " ++ menu ++ ", " ++
        faction ++ ", " ++ personality ++ ", [" ++ tuples ++ "]),\n" := by
    rw [← String.toList_inj]
    simp [quoted]
  exact hfields ..

theorem written_render (lexicon : Lexicon) (template : PartyTemplate) :
    template.Written lexicon (template.render lexicon) := by
  have hfilled : List.Forall₂ (Stack.Written lexicon) template.slots.reduceOption
      (template.filledSlots.map (·.render lexicon)) :=
    Decoder.forall₂_map_self (fun stack => stack.written_render lexicon) template.filledSlots
  rw [render_eq]
  exact .mk (shortId_shortId template) (flagLayout.told_spell lexicon template.flags)
    (lexicon.resolves_spell .faction template.faction)
    (personality_spellPersonality template.personality) hfilled

end PartyTemplate

/-- The module of party templates inverts how they are compiled. Every list of templates can be
compiled; and wherever the tokens of some templates stand, followed by any others, these templates
come back, each gives its tuple between the opening lines and the closing bracket, and the tokens
after them are left. -/
theorem partyTemplates_inverted (context : Context) :
    (∀ templates : List PartyTemplate, (∀ template ∈ templates, template.Fits) →
        (templates.length : Int) ≤ maxInt →
        Decoder.Counted (fun _ => PartyTemplate.Encoded) (PartyTemplate.encodeAll templates)
          templates) ∧
      ∀ (templates : List PartyTemplate) (ws rest : List (List Char)) (s : Source) (looks : Nat),
        Decoder.Counted (fun _ => PartyTemplate.Encoded) ws templates → s.Clean →
        s.tokens = ws ++ rest →
        ∃ (tuples : List String) (s' : Source),
          (Format.partyTemplates.decoder context.operators).run .never looks s =
            (.ok templates, s') ∧
          Format.partyTemplates.generate context .never looks s =
            (.ok ("# -*- coding: utf-8 -*-\nfrom header_common import *\n" ++
              "from header_operations import *\nfrom module_constants import *\n" ++
              "from header_parties import *\n\nparty_templates = [\n" ++
              String.join tuples ++ "]\n"), s') ∧
          s'.tokens = rest ∧
          List.Forall₂ (PartyTemplate.Written context.lexicon) templates tuples := by
  constructor
  · intro templates hfits hlength
    apply Decoder.counted_flatMap _ hlength
    exact fun template hmem => (hfits template hmem).encoded_encode
  · intro templates ws rest s looks hencoded hclean htokens
    obtain ⟨s', hrun, hgenerate, hrest⟩ := Format.generate_of_counted .partyTemplates context
      (fun _ _ hrecord => hrecord.consumes) hencoded hclean htokens looks
    have htuples := Decoder.forall₂_map_self
      (fun template : PartyTemplate => template.written_render context.lexicon) templates
    have hopening : Format.partyTemplates.opening ++ "[\n" =
        "# -*- coding: utf-8 -*-\nfrom header_common import *\n" ++
          "from header_operations import *\nfrom module_constants import *\n" ++
          "from header_parties import *\n\nparty_templates = [\n" := by
      decide +kernel
    rw [Format.render_eq_opening, hopening] at hgenerate
    exact ⟨_, s', hrun, hgenerate, hrest, htuples⟩

/-- Two templates: one with an id that is tagged twice, an icon, goods and flags, a captive stack
between empty slots and a troop without a name; and one without a tag and without stacks. -/
theorem partyTemplates_inverted_two :
    let lexicon := ((Lexicon.empty.insert .troop #["player", "looter"]).insert .faction
      #["outlaws"]).insert .mapIcon #["player", "gray_knight"]
    let context : Context := ⟨⟨.vanilla, []⟩, lexicon⟩
    let templates : List PartyTemplate :=
      [⟨"pt_pt_a", "A", 0x0005000000000101, 0, 0, 0x1A5,
          [some ⟨1, -3, 12, 0⟩, none, some ⟨7, 1, -1, 1⟩, none, none, none]⟩,
        ⟨"b", "B", 0, -1, -1, 0x138, [none, none, none, none, none, none]⟩]
    let s := Source.ofBytes ("2 pt_pt_a A 1407374883553537 0 0 421 1 -3 12 0 -1 7 1 -1 1 -1 " ++
      "-1 -1 b B 0 -1 -1 312 -1 -1 -1 -1 -1 -1 x").toUTF8
    (∀ template ∈ templates, template.Fits) ∧ s.Clean ∧
      s.tokens = PartyTemplate.encodeAll templates ++ [['x']] ∧
      ∃ s' : Source,
        (Format.partyTemplates.decoder context.operators).run .never 0 s = (.ok templates, s') ∧
        Format.partyTemplates.generate context .never 0 s =
          (.ok ("# -*- coding: utf-8 -*-\nfrom header_common import *\n" ++
            "from header_operations import *\nfrom module_constants import *\n" ++
            "from header_parties import *\n\nparty_templates = [\n" ++
            "  (\"pt_a\", \"A\", icon_gray_knight|carries_goods(5)|pf_disabled, 0, fac_outlaws, " ++
            "banditness|courage_5|aggressiveness_10, " ++
            "[(trp_looter, -3, 12), (7, 1, -1, pmf_is_prisoner)]),\n" ++
            "  (\"b\", \"B\", 0, -1, -1, bandit_personality, []),\n" ++ "]\n"), s') ∧
        s'.tokens = [['x']] := by
  intro lexicon context templates s
  have hfits : ∀ template ∈ templates, template.Fits := by decide
  have hclean : s.Clean := Source.clean_ofBytes_toUTF8 _
  have htokens : s.tokens = PartyTemplate.encodeAll templates ++ [['x']] := by decide +kernel
  have hencoded := (partyTemplates_inverted context).1 templates hfits (by decide)
  obtain ⟨tuples, s', hrun, hgenerate, hrest, -⟩ :=
    (partyTemplates_inverted context).2 templates _ _ s 0 hencoded hclean htokens
  have hsource : (Format.partyTemplates.generate context .never 0 s).2 = s' := by rw [hgenerate]
  refine ⟨hfits, hclean, htokens, s', hrun, Prod.ext ?_ hsource, hrest⟩
  dsimp only
  decide +kernel

end ModuleSource.Layout
