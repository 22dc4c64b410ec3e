import ModuleSource.Proofs.Decoder.Logic
import ModuleSource.Proofs.Decoder.SelfDelimiting
import ModuleSource.Proofs.Number.Numerals
import ModuleSource.Proofs.Statement.Legible

/-!
The names taken from a file of party templates and the module generated from it. The names are all
the tagged words of the file, wherever they stand; the module has one tuple for each record. A
record is its id, its name and numerals, and no numeral is tagged, so the two number the templates
alike just when no record is named by a tagged word.
-/

namespace ModuleSource

open Text Layout Number

namespace NameRule

/-- The word is the tag with something after it. -/
def Tagged (tag word : String) : Prop := ∃ name, name ≠ "" ∧ word = tag ++ name

/-- What follows the tag in a tagged word. -/
def nameOf? (tag : String) (word : List Char) : Option String :=
  ((dropTag? tag.toList word).filter (!·.isEmpty)).map String.ofList

theorem dropTag?_eq_some_iff {tag word name : List Char} :
    dropTag? tag word = some name ↔ word = tag ++ name := by
  unfold dropTag?
  split
  · next hprefix =>
    obtain ⟨rest, rfl⟩ := List.isPrefixOf_iff_prefix.mp hprefix
    simp [eq_comm]
  · next hprefix =>
    refine ⟨(nomatch ·), ?_⟩
    rintro rfl
    exact absurd (List.isPrefixOf_iff_prefix.mpr (List.prefix_append tag name)) hprefix

theorem nameOf?_eq_some_iff {tag name : String} {word : List Char} :
    nameOf? tag word = some name ↔ word = tag.toList ++ name.toList ∧ name ≠ "" := by
  constructor
  · intro h
    obtain ⟨rest, hrest, rfl⟩ := Option.map_eq_some_iff.mp h
    obtain ⟨hdrop, hne⟩ := Option.filter_eq_some_iff.mp hrest
    rw [String.toList_ofList]
    exact ⟨dropTag?_eq_some_iff.mp hdrop, by simpa using hne⟩
  · rintro ⟨hword, hne⟩
    refine Option.map_eq_some_iff.mpr ⟨name.toList, ?_, String.ofList_toList⟩
    exact Option.filter_eq_some_iff.mpr ⟨dropTag?_eq_some_iff.mpr hword, by simpa using hne⟩

theorem tagged_iff {tag word : String} :
    Tagged tag word ↔ ∃ name, nameOf? tag word.toList = some name := by
  refine exists_congr fun name => ?_
  rw [nameOf?_eq_some_iff, ← String.toList_append, String.toList_inj, and_comm]

instance (tag word : String) : Decidable (Tagged tag word) :=
  decidable_of_iff ((nameOf? tag word.toList).isSome = true)
    (Option.isSome_iff_exists.trans tagged_iff.symm)

theorem not_tagged_iff {tag word : String} :
    ¬Tagged tag word ↔ nameOf? tag word.toList = none := by
  rw [tagged_iff, ← Option.ne_none_iff_exists', not_not]

/-- The names in a text are those of its tagged words. -/
theorem names_tagged (tag text : String) : (tagged tag).names text.toUTF8 =
    .ok ((Source.ofBytes text.toUTF8).tokens.filterMap (nameOf? tag)).toArray := by
  rw [Source.tokens_ofBytes_toUTF8]
  simp only [names, toList_toUTF8, decode?_utf8, namesIn, List.filter_filterMap,
    List.map_filterMap]
  rfl

/-- No numeral is tagged, since none starts as the tag does. -/
theorem nameOf?_of_startsNumeral {word : List Char} (h : startsNumeral word = true) :
    nameOf? "pt_" word = none := by
  by_contra hsome
  obtain ⟨name, hname⟩ := Option.ne_none_iff_exists'.mp hsome
  obtain ⟨rfl, -⟩ := nameOf?_eq_some_iff.mp hname
  rw [startsNumeral_append (by decide)] at h
  exact absurd h (by decide)

end NameRule

namespace Decoder

variable {α β : Type} {R : Nat → List (List Char) → α → Prop} {i : Nat} {ws : List (List Char)}
  {as : List α}

/-- What is picked from the words of a list is what is picked from those of its entries. -/
theorem Listed.filterMap_eq {pick : List Char → Option β} {found : α → List β}
    (h : Listed R i ws as) (hR : ∀ a ∈ as, ∀ i ws, R i ws a → ws.filterMap pick = found a) :
    ws.filterMap pick = as.flatMap found := by
  induction h with
  | nil i => rfl
  | cons head tail ih =>
    rw [List.filterMap_append, List.flatMap_cons, hR _ List.mem_cons_self _ _ head,
      ih fun a ha => hR a (List.mem_cons_of_mem _ ha)]

/-- What holds of the words of every entry holds of the words of a list. -/
theorem Listed.forall_mem {P : List Char → Prop} (h : Listed R i ws as)
    (hR : ∀ i ws a, R i ws a → ∀ w ∈ ws, P w) : ∀ w ∈ ws, P w := by
  induction h with
  | nil i => simp
  | cons head tail ih => exact List.forall_mem_append.mpr ⟨hR _ _ _ head, ih⟩

end Decoder

namespace Layout

open Decoder

namespace Stack

/-- What a slot is compiled to: the four fields of its stack, or a single token if it is empty. -/
inductive Encoded : List (List Char) → Option Stack → Prop
  | empty {w : List Char} (parsed : int? w = some noTroop) : Encoded [w] none
  | filled {troop least most member : List Char} {stack : Stack}
    (troop_eq : int? troop = some stack.troop) (troop_ne : stack.troop ≠ noTroop)
    (least_eq : int? least = some stack.least) (most_eq : int? most = some stack.most)
    (member_eq : word32? member = some stack.member) :
    Encoded [troop, least, most, member] (some stack)

theorem slotDecoder_reads : slotDecoder.Reads Encoded := by
  refine (reads_token .int).bind ?_
  rintro _ troop ⟨w, rfl, -, htroop⟩
  split
  · next hnone => exact .empty (hnone ▸ htroop)
  · next hsome =>
    refine (reads_token .int).bind ?_
    rintro _ least ⟨u, rfl, -, hleast⟩
    refine (reads_token .int).bind ?_
    rintro _ most ⟨v, rfl, -, hmost⟩
    refine Reads.map ((reads_token .word32).mono ?_)
    rintro _ member ⟨x, rfl, -, hmember⟩
    exact .filled htroop hsome hleast hmost hmember

/-- A slot is numerals. -/
theorem Encoded.startsNumeral {ws : List (List Char)} {slot : Option Stack}
    (h : Encoded ws slot) : ∀ w ∈ ws, startsNumeral w = true := by
  cases h with
  | empty parsed => simpa using startsNumeral_of_int? parsed
  | filled troop_eq _ least_eq most_eq member_eq =>
    simp only [List.forall_mem_cons, List.not_mem_nil, false_imp_iff, implies_true, and_true]
    exact ⟨startsNumeral_of_int? troop_eq, startsNumeral_of_int? least_eq,
      startsNumeral_of_int? most_eq, startsNumeral_of_word? member_eq⟩

end Stack

namespace PartyTemplate

/-- What a template is compiled to. -/
inductive Encoded : List (List Char) → PartyTemplate → Prop
  | mk {flags menu faction personality : List Char} {slots : List (List Char)}
    {template : PartyTemplate} (flags_eq : word64? flags = some template.flags)
    (menu_eq : int? menu = some template.menu)
    (faction_eq : int? faction = some template.faction)
    (personality_eq : word32? personality = some template.personality)
    (slots_length : template.slots.length = slotCount)
    (slots_eq : Decoder.Listed (fun _ => Stack.Encoded) 0 slots template.slots) :
    Encoded (template.id.toList :: template.name.toList :: flags :: menu :: faction ::
      personality :: slots) template

theorem decoder_reads : decoder.Reads Encoded := by
  refine (reads_token .word).bind ?_
  rintro _ _ ⟨id, rfl, -, ⟨⟩⟩
  refine (reads_token .word).bind ?_
  rintro _ _ ⟨name, rfl, -, ⟨⟩⟩
  refine (reads_token .word64).bind ?_
  rintro _ flags ⟨u, rfl, -, hflags⟩
  refine (reads_token .int).bind ?_
  rintro _ menu ⟨v, rfl, -, hmenu⟩
  refine (reads_token .int).bind ?_
  rintro _ faction ⟨w, rfl, -, hfaction⟩
  refine (reads_token .word32).bind ?_
  rintro _ personality ⟨x, rfl, -, hpersonality⟩
  refine Reads.map ((Reads.collect (fun _ => Stack.slotDecoder_reads) slotCount).mono ?_)
  rintro ws slots ⟨hlength, hslots⟩
  let template : PartyTemplate :=
    ⟨.ofList id, .ofList name, flags, menu, faction, personality, slots⟩
  have hencoded : Encoded (template.id.toList :: _) template :=
    .mk hflags hmenu hfaction hpersonality hlength hslots
  rwa [String.toList_ofList, String.toList_ofList] at hencoded

/-- All that follows the id and the name of a template is numerals. -/
theorem Encoded.numerals {ws : List (List Char)} {template : PartyTemplate}
    (h : Encoded ws template) :
    ∃ numerals, ws = template.id.toList :: template.name.toList :: numerals ∧
      ∀ w ∈ numerals, startsNumeral w = true := by
  obtain ⟨flags_eq, menu_eq, faction_eq, personality_eq, -, slots_eq⟩ := h
  refine ⟨_, rfl, ?_⟩
  simp only [List.forall_mem_cons]
  exact ⟨startsNumeral_of_word? flags_eq, startsNumeral_of_int? menu_eq,
    startsNumeral_of_int? faction_eq, startsNumeral_of_word? personality_eq,
    slots_eq.forall_mem fun _ _ _ hslot => hslot.startsNumeral⟩

theorem shortId_of_nameOf? {template : PartyTemplate} {name : String}
    (h : NameRule.nameOf? "pt_" template.id.toList = some name) : template.shortId = name := by
  have hdrop := NameRule.dropTag?_eq_some_iff.mpr (NameRule.nameOf?_eq_some_iff.mp h).1
  rw [shortId, Entity.tag, hdrop]
  exact String.ofList_toList

/-- Of the words of a template with a tagged id, its name is the only other one that may be tagged.
-/
theorem Encoded.filterMap_eq {ws : List (List Char)} {template : PartyTemplate}
    (h : Encoded ws template) (hid : NameRule.Tagged "pt_" template.id) :
    ws.filterMap (NameRule.nameOf? "pt_") =
      template.shortId :: (NameRule.nameOf? "pt_" template.name.toList).toList := by
  obtain ⟨numerals, rfl, hnumerals⟩ := h.numerals
  obtain ⟨short, hshort⟩ := NameRule.tagged_iff.mp hid
  have hnone : numerals.filterMap (NameRule.nameOf? "pt_") = [] := by
    refine List.filterMap_eq_nil_iff.mpr fun w hw => ?_
    exact NameRule.nameOf?_of_startsNumeral (hnumerals w hw)
  rw [List.filterMap_cons_some hshort, shortId_of_nameOf? hshort]
  cases hname : NameRule.nameOf? "pt_" template.name.toList with
  | none => rw [List.filterMap_cons_none hname, hnone]; rfl
  | some name => rw [List.filterMap_cons_some hname, hnone]; rfl

/-- A template is rendered with its short id in front. -/
theorem render_eq_shortId (lexicon : Lexicon) (template : PartyTemplate) :
    ∃ rest, template.render lexicon = "  (\"" ++ template.shortId ++ "\", " ++ rest := by
  have hfront (id rest : String) : "  (" ++ (quoted id ++ (", " ++ rest)) =
      "  (\"" ++ (id ++ ("\", " ++ rest)) := by
    rw [← String.toList_inj]
    simp [quoted]
  unfold render
  simp only [String.append_assoc]
  rw [hfront]
  exact ⟨_, rfl⟩

end PartyTemplate

end Layout

/-- The first line of a file of party templates has no tagged word. -/
theorem Format.filterMap_signature {line : String}
    (h : Format.ofSignature? line = some .partyTemplates) :
    (words line.toList).filterMap (NameRule.nameOf? "pt_") = [] := by
  have htrim : Format.partyTemplates.signature.toList = trim line.toList := by
    simpa using List.find?_some h
  rw [← words_trim, ← htrim]
  decide +kernel

theorem flatMap_cons_toList_eq_map_iff {α β : Type} {f : α → β} {g : α → Option β} {as : List α} :
    (as.flatMap fun a => f a :: (g a).toList) = as.map f ↔ ∀ a ∈ as, g a = none := by
  have hlength (as : List α) : as.length ≤ (as.flatMap fun a => f a :: (g a).toList).length := by
    induction as with
    | nil => exact Nat.le_refl 0
    | cons a as ih =>
      simp only [List.flatMap_cons, List.length_append, List.length_cons]
      omega
  induction as with
  | nil => simp
  | cons a as ih =>
    rw [List.flatMap_cons, List.map_cons, List.cons_append, List.cons_inj_right,
      List.forall_mem_cons]
    cases hg : g a with
    | none => simp [ih]
    | some b =>
      -- Every entry gives at least one element, so one that gives two makes the list too long.
      refine ⟨fun h => ?_, fun h => nomatch h.1⟩
      have hle := hlength as
      have heq := congrArg List.length h
      simp only [Option.toList_some, List.singleton_append, List.length_cons, List.length_map]
        at heq
      omega

namespace NameRule

variable {context : Context} {text line : String} {looks : Nat} {source source' : Source}
  {records : List PartyTemplate}

/-- The names of a file that is read to its end: of every record the short id, and then its name if
that is tagged too. -/
theorem names_partyTemplates
    (hline : (Source.ofBytes text.toUTF8).takeLine = (.ok line, source))
    (hsignature : Format.ofSignature? line = some .partyTemplates)
    (hrun : (Format.partyTemplates.decoder context.operators).run .never looks source =
      (.ok records, source'))
    (hend : source'.tokens = []) (hids : ∀ template ∈ records, Tagged "pt_" template.id) :
    (tagged "pt_").names text.toUTF8 = .ok (records.flatMap fun template =>
      template.shortId :: (nameOf? "pt_" template.name.toList).toList).toArray := by
  have hfirst : (Source.ofBytes text.toUTF8).tokens = words line.toList ++ source.tokens := by
    have step := Source.lineStep_takeLine (Source.ofBytes text.toUTF8)
    rw [hline] at step
    cases step with
    | line step => exact step.tokens_eq
  have hreads : (Format.partyTemplates.decoder context.operators).Reads
      (Decoder.Counted fun _ => PartyTemplate.Encoded) :=
    Decoder.Reads.listOf PartyTemplate.decoder_reads
  obtain ⟨ws, hws, w, n, rest, rfl, hcount, -, hlisted⟩ := hreads.of_run hrun
  -- Neither the first line nor the count is tagged; what is found comes from the records.
  have hnone : nameOf? "pt_" w = none :=
    nameOf?_of_startsNumeral (startsNumeral_of_int? hcount)
  rw [names_tagged, hfirst, hws, hend, List.append_nil, List.filterMap_append,
    Format.filterMap_signature hsignature, List.nil_append, List.filterMap_cons_none hnone]
  rw [hlisted.filterMap_eq fun template hmem i ws h => h.filterMap_eq (hids template hmem)]

/-- If a file of party templates is read to its end and every id is tagged, then the names in the
file are the ids of the generated tuples, in order, just when no record is named by a tagged word. A
party template in range is then written with the id of the tuple of its number. -/
theorem names_partyTemplates_aligned
    (hline : (Source.ofBytes text.toUTF8).takeLine = (.ok line, source))
    (hsignature : Format.ofSignature? line = some .partyTemplates)
    (hrun : (Format.partyTemplates.decoder context.operators).run .never looks source =
      (.ok records, source'))
    (hend : source'.tokens = []) (hids : ∀ template ∈ records, Tagged "pt_" template.id) :
    Format.partyTemplates.generate context .never looks source =
      (.ok (frame ["header_parties"] "party_templates"
        (records.map (·.render context.lexicon))), source') ∧
    ((tagged "pt_").names text.toUTF8 = .ok (records.map (·.shortId)).toArray ↔
      ∀ template ∈ records, ¬Tagged "pt_" template.name) ∧
    ∀ lexicon : Lexicon,
      (tagged "pt_").names text.toUTF8 = .ok (lexicon.table .partyTemplate) →
      (∀ template ∈ records, ¬Tagged "pt_" template.name) →
      ∀ (i : Nat) (hi : i < records.length),
        (Operand.entity .partyTemplate i).render lexicon = "pt_" ++ records[i].shortId ∧
          ∃ rest, records[i].render context.lexicon =
            "  (\"" ++ records[i].shortId ++ "\", " ++ rest := by
  have hnames := names_partyTemplates hline hsignature hrun hend hids
  have haligned : (tagged "pt_").names text.toUTF8 = .ok (records.map (·.shortId)).toArray ↔
      ∀ template ∈ records, ¬Tagged "pt_" template.name := by
    simp only [hnames, Except.ok.injEq, not_tagged_iff]
    rw [← flatMap_cons_toList_eq_map_iff]
    exact ⟨List.toArray_inj, congrArg List.toArray⟩
  refine ⟨Format.generate_eq_ok.mpr ⟨records, hrun, rfl⟩, haligned, ?_⟩
  intro lexicon hlexicon hplain i hi
  refine ⟨?_, PartyTemplate.render_eq_shortId _ _⟩
  have htable := Except.ok.inj (hlexicon.symm.trans (haligned.mpr hplain))
  have hspell := Lexicon.spell_toArray htable (i := i) (by rwa [List.length_map])
  rwa [List.getElem_map] at hspell

/-- Two templates with tagged ids and plain names. -/
theorem names_partyTemplates_aligned_two :
    let text := "partytemplatesfile version 1\n2\n" ++
      "pt_a A 0 0 0 0 -1 -1 -1 -1 -1 -1\npt_c C 0 0 0 0 -1 -1 -1 -1 -1 -1\n"
    let context : Context := ⟨⟨.vanilla, []⟩, .empty⟩
    ∃ (line : String) (source source' : Source) (records : List PartyTemplate),
      (Source.ofBytes text.toUTF8).takeLine = (.ok line, source) ∧
      Format.ofSignature? line = some .partyTemplates ∧
      (Format.partyTemplates.decoder context.operators).run .never 0 source =
        (.ok records, source') ∧
      source'.tokens = [] ∧ (∀ template ∈ records, Tagged "pt_" template.id) ∧
      (∀ template ∈ records, ¬Tagged "pt_" template.name) ∧
      (tagged "pt_").names text.toUTF8 = .ok #["a", "c"] ∧
      ∀ lexicon : Lexicon, lexicon.table .partyTemplate = #["a", "c"] →
        (Operand.entity .partyTemplate 1).render lexicon = "pt_c" := by
  intro text context
  let source : Source :=
    { pending := [.text "2".toList, .text "pt_a A 0 0 0 0 -1 -1 -1 -1 -1 -1".toList,
        .text "pt_c C 0 0 0 0 -1 -1 -1 -1 -1 -1".toList],
      fetched := 1, line := 1, text := "partytemplatesfile version 1".toList }
  let final : Source :=
    { pending := [], fetched := 4, line := 4, text := "pt_c C 0 0 0 0 -1 -1 -1 -1 -1 -1".toList }
  let records : List PartyTemplate :=
    [⟨"pt_a", "A", 0, 0, 0, 0, List.replicate 6 none⟩,
      ⟨"pt_c", "C", 0, 0, 0, 0, List.replicate 6 none⟩]
  have hline : (Source.ofBytes text.toUTF8).takeLine =
      (.ok "partytemplatesfile version 1", source) := by
    decide +kernel
  have hrun : (Format.partyTemplates.decoder context.operators).run .never 0 source =
      (.ok records, final) := by
    decide +kernel
  have hend : final.tokens = [] := by decide +kernel
  have hids : ∀ template ∈ records, Tagged "pt_" template.id := by decide +kernel
  have hplain : ∀ template ∈ records, ¬Tagged "pt_" template.name := by decide +kernel
  obtain ⟨-, haligned, hspell⟩ :=
    names_partyTemplates_aligned hline (by decide +kernel) hrun hend hids
  have hnames : (tagged "pt_").names text.toUTF8 = .ok #["a", "c"] := by
    rw [haligned.mpr hplain]
    decide +kernel
  refine ⟨_, source, final, records, hline, by decide +kernel, hrun, hend, hids, hplain, hnames, ?_⟩
  intro lexicon hlexicon
  have hsecond := (hspell lexicon (hlexicon ▸ hnames) hplain 1 (by decide)).1
  exact hsecond.trans (by decide +kernel)

/-- A template whose name is tagged too gives two names, and shifts those after it: number one is
written as the name of the first template, not as the id of the second. -/
theorem names_partyTemplates_shifted :
    let text := "partytemplatesfile version 1\n2\n" ++
      "pt_a pt_b 0 0 0 0 -1 -1 -1 -1 -1 -1\npt_c C 0 0 0 0 -1 -1 -1 -1 -1 -1\n"
    let context : Context := ⟨⟨.vanilla, []⟩, .empty⟩
    ∃ (line : String) (source source' : Source) (records : List PartyTemplate),
      (Source.ofBytes text.toUTF8).takeLine = (.ok line, source) ∧
      Format.ofSignature? line = some .partyTemplates ∧
      (Format.partyTemplates.decoder context.operators).run .never 0 source =
        (.ok records, source') ∧
      source'.tokens = [] ∧ (∀ template ∈ records, Tagged "pt_" template.id) ∧
      records.map (·.shortId) = ["a", "c"] ∧
      (tagged "pt_").names text.toUTF8 = .ok #["a", "b", "c"] := by
  intro text context
  let source : Source :=
    { pending := [.text "2".toList, .text "pt_a pt_b 0 0 0 0 -1 -1 -1 -1 -1 -1".toList,
        .text "pt_c C 0 0 0 0 -1 -1 -1 -1 -1 -1".toList],
      fetched := 1, line := 1, text := "partytemplatesfile version 1".toList }
  let final : Source :=
    { pending := [], fetched := 4, line := 4, text := "pt_c C 0 0 0 0 -1 -1 -1 -1 -1 -1".toList }
  let records : List PartyTemplate :=
    [⟨"pt_a", "pt_b", 0, 0, 0, 0, List.replicate 6 none⟩,
      ⟨"pt_c", "C", 0, 0, 0, 0, List.replicate 6 none⟩]
  have hline : (Source.ofBytes text.toUTF8).takeLine =
      (.ok "partytemplatesfile version 1", source) := by
    decide +kernel
  have hrun : (Format.partyTemplates.decoder context.operators).run .never 0 source =
      (.ok records, final) := by
    decide +kernel
  have hend : final.tokens = [] := by decide +kernel
  have hids : ∀ template ∈ records, Tagged "pt_" template.id := by decide +kernel
  refine ⟨_, source, final, records, hline, by decide +kernel, hrun, hend, hids, by decide +kernel,
    ?_⟩
  rw [names_partyTemplates hline (by decide +kernel) hrun hend hids]
  decide +kernel

end NameRule

end ModuleSource
