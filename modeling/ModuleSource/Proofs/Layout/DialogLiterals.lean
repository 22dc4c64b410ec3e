import ModuleSource.Proofs.Layout.Bracketed
import ModuleSource.Proofs.Text.QuotedWords

/-!
The literals of generated dialogs. A line of dialog writes its two states, its text and its voice
file between double quotes, just as they are. Main statement: the module of a file has a literal for
each of these words, record by record, and no others, and each denotes its word, if and only if no
text and no voice file has a double quote or a backslash that makes an escape. The names of entities
and operators must have no quotes, hashes and backslashes, for they are written outside of literals,
too.
-/

namespace ModuleSource

open Text Number Layout

/-- No name of an entity opens a literal or a comment, or breaks a line. -/
def Lexicon.Harmless (lexicon : Lexicon) : Prop :=
  ∀ kind, ∀ name ∈ lexicon.table kind, Outer name ∧ OneLine name

/-- No name of an operator opens a literal or a comment. -/
def OperatorSet.Harmless (table : OperatorSet) : Prop := ∀ op ∈ table.operators, Outer op.name

instance (table : OperatorSet) : Decidable table.Harmless :=
  inferInstanceAs (Decidable (∀ op ∈ table.operators, Outer op.name))

namespace Text

theorem Outer.bare {s : String} (h : Outer s) : Bare s :=
  ⟨fun hmem => h _ hmem (by decide), inert_of_not_mem fun hmem => h _ hmem (by decide)⟩

theorem oneLine_of_isWord {s : String} (h : IsWord s.toList) : OneLine s := by
  have hbreaks : lineBreaks.all isBlank = true := by decide
  intro c hc hmem
  have hblank := h.2 c hc
  rw [List.all_eq_true.mp hbreaks c hmem] at hblank
  cases hblank

theorem oneLine_spaced {word : String} (h : OneLine word) : OneLine (spaced word) := by
  rw [OneLine, spaced, String.toList_ofList]
  intro c hc
  obtain ⟨d, hd, rfl⟩ := List.mem_map.mp hc
  split
  · decide
  · exact h d hd

/-- Neither an underscore nor a space makes an escape. -/
theorem bare_spaced {word : String} : Bare (spaced word) ↔ Bare word := by
  have himage {P : Char → Prop} (hspace : ¬ P ' ') (hscore : ¬ P '_') (c : Char) :
      P (if c = '_' then ' ' else c) ↔ P c := by
    split
    · next hc =>
      rw [hc]
      exact iff_of_false hspace hscore
    · exact Iff.rfl
  have hback := himage (P := (· = '\\')) (by decide) (by decide)
  have hmarks := himage (P := (· ∈ escapeMarks)) (by decide) (by decide)
  have hquote := himage (P := ('"' = ·)) (by decide) (by decide)
  rw [Bare, Bare, spaced, String.toList_ofList, inert_map hback hmarks]
  refine and_congr (not_congr ?_) Iff.rfl
  rw [List.mem_map]
  constructor
  · rintro ⟨c, hc, heq⟩
    rw [← (hquote c).mp heq.symm] at hc
    exact hc
  · exact fun hmem => ⟨'"', hmem, rfl⟩

/-- What is written after most words. -/
theorem breaksOff_comma : BreaksOff ",\n    " :=
  ⟨',', [], "    ".toList, by decide, by simp [outerMarks], by simp⟩

/-- What is written after the last word of a record, if this is its voice file. -/
theorem breaksOff_closing : BreaksOff "]],\n\n" :=
  ⟨']', [']', ','], ['\n'], by decide, by simp [outerMarks], by simp⟩

end Text

namespace Lexicon.Harmless

variable {lexicon : Lexicon} (h : lexicon.Harmless)
include h

theorem outer (kind : Entity) : ∀ name ∈ lexicon.table kind, Outer name :=
  fun name hname => (h kind name hname).1

/-- A state is written without a tag. -/
theorem oneLine_state (index : Int) : OneLine (lexicon.spell .dialogState index) := by
  cases hget : (lexicon.table .dialogState).get? index with
  | none =>
    have hdigit : ∀ c ∈ lineBreaks, c ≠ '-' ∧ c.isDigit = false := by simp [lineBreaks]
    rw [spell_of_get?_none hget]
    intro c hc hmem
    rcases mem_toString_int hc with rfl | hc
    · exact (hdigit _ hmem).1 rfl
    · rw [(hdigit _ hmem).2] at hc
      cases hc
  | some name =>
    rw [spell_of_get? hget]
    change OneLine ("" ++ name)
    rw [String.empty_append]
    cases index with
    | ofNat i => exact (h .dialogState name (Array.mem_of_getElem? hget)).2
    | negSucc i => cases hget

end Lexicon.Harmless

theorem Block.outer_render {lexicon : Lexicon} {table : OperatorSet} (hlexicon : lexicon.Harmless)
    (htable : table.Harmless) {ws : List (List Char)} {block : Block}
    (h : Decoder.Counted (fun _ => Statement.Compiled table) ws block) :
    Outer (block.render lexicon "    ") := by
  refine render_of_composes composes_outer (fun s hs => ?_) (by decide)
  obtain ⟨ws, hcompiled⟩ := h.of_mem hs
  exact hcompiled.render_of_composes composes_outer hlexicon.outer htable

namespace Layout.Dialog

/-- The words of a line of dialog. -/
inductive Compiled (table : OperatorSet) : List (List Char) → Dialog → Prop
  | mk {label w v text u voice : List Char} {partner : UInt32} {start finish : Int}
    {us vs : List (List Char)} {condition consequence : Block} (isLabel : IsWord label)
    (hpartner : word32? w = some partner) (hstart : int? v = some start)
    (conditions : Decoder.Counted (fun _ => Statement.Compiled table) us condition)
    (isText : IsWord text) (hfinish : int? u = some finish)
    (consequences : Decoder.Counted (fun _ => Statement.Compiled table) vs consequence)
    (isVoice : IsWord voice) :
    Compiled table (label :: w :: v :: (us ++ text :: u :: (vs ++ [voice])))
      ⟨.ofList label, partner, start, condition, .ofList text, finish, consequence, .ofList voice⟩

theorem decoder_reads (table : OperatorSet) : (decoder table).Reads (Compiled table) := by
  refine (Decoder.reads_token .word).bind ?_
  rintro _ _ ⟨label, rfl, isLabel, ⟨⟩⟩
  refine (Decoder.reads_token .word32).bind ?_
  rintro _ partner ⟨w, rfl, -, hpartner⟩
  refine (Decoder.reads_token .int).bind ?_
  rintro _ start ⟨v, rfl, -, hstart⟩
  refine (Block.decoder_reads table).bind ?_
  intro us condition conditions
  refine (Decoder.reads_token .word).bind ?_
  rintro _ _ ⟨text, rfl, isText, ⟨⟩⟩
  refine (Decoder.reads_token .int).bind ?_
  rintro _ finish ⟨u, rfl, -, hfinish⟩
  refine (Block.decoder_reads table).bind ?_
  intro vs consequence consequences
  refine Decoder.Reads.map ((Decoder.reads_token .word).mono ?_)
  rintro _ _ ⟨voice, rfl, isVoice, ⟨⟩⟩
  exact .mk isLabel hpartner hstart conditions isText hfinish consequences isVoice

/-- The words that a line of dialog writes between double quotes: its states and its text, which has
spaces for underscores, and the voice file if there is one. -/
def words (lexicon : Lexicon) (dialog : Dialog) : List String :=
  [lexicon.spell .dialogState dialog.start, spaced dialog.text,
    lexicon.spell .dialogState dialog.finish] ++
  if dialog.voice = noVoice then [] else [dialog.voice]

/-- The text of a line of dialog, cut after each of its words. -/
def pieces (lexicon : Lexicon) (dialog : Dialog) : List Piece :=
  [⟨none, "  [" ++ partnerLayout.spell lexicon dialog.partner.toUInt64 ++ ", "⟩,
    ⟨some (lexicon.spell .dialogState dialog.start), ",\n    "⟩,
    ⟨none, dialog.condition.render lexicon "    " ++ ",\n    "⟩,
    ⟨some (spaced dialog.text), ",\n    "⟩,
    ⟨some (lexicon.spell .dialogState dialog.finish), ",\n    "⟩] ++
  if dialog.voice = noVoice then [⟨none, dialog.consequence.render lexicon "    " ++ "],\n\n"⟩]
  else [⟨none, dialog.consequence.render lexicon "    " ++ ",\n    ["⟩,
    ⟨some dialog.voice, "]],\n\n"⟩]

variable {lexicon : Lexicon} {table : OperatorSet}

theorem join_pieces (lexicon : Lexicon) (dialog : Dialog) :
    String.join ((dialog.pieces lexicon).map Piece.text) = dialog.render lexicon := by
  unfold pieces render
  split <;> simp [Piece.text, String.append_assoc]

theorem words_pieces (lexicon : Lexicon) (dialog : Dialog) :
    Piece.words (dialog.pieces lexicon) = dialog.words lexicon := by
  unfold pieces words Piece.words
  split <;> simp

theorem fits_pieces (hlexicon : lexicon.Harmless) (htable : table.Harmless)
    {ws : List (List Char)} {dialog : Dialog} (h : dialog.Compiled table ws) :
    ∀ piece ∈ dialog.pieces lexicon, piece.Fits := by
  cases h with
  | @mk label w v text u voice partner start finish us vs condition consequence isLabel hpartner
      hstart conditions isText hfinish consequences isVoice =>
    have hflags : Outer (partnerLayout.spell lexicon partner.toUInt64) :=
      FlagLayout.spell_of_composes composes_outer hlexicon.outer _ (by decide) _
    have houter {s close : String} (hs : Outer s) (hclose : Outer close) (hend : EndsApart close) :
        Piece.Fits ⟨none, s ++ close⟩ :=
      ⟨composes_outer.append hs hclose, hend.append _, nofun⟩
    have hquoted {s close : String} (hs : OneLine s) (hclose : Outer close)
        (hend : EndsApart close) (hbreak : BreaksOff close) : Piece.Fits ⟨some s, close⟩ := by
      refine ⟨hclose, hend, ?_⟩
      rintro _ ⟨⟩
      exact ⟨hs, hbreak⟩
    have hcomma {s : String} (hs : OneLine s) :=
      hquoted hs (by decide) (by decide) breaksOff_comma
    have hstate (index : Int) := hcomma (hlexicon.oneLine_state index)
    have hbefore := Block.outer_render hlexicon htable conditions
    have hafter := Block.outer_render hlexicon htable consequences
    rw [← String.toList_ofList (l := text)] at isText
    rw [← String.toList_ofList (l := voice)] at isVoice
    have htext := hcomma (oneLine_spaced (oneLine_of_isWord isText))
    have hopening : Outer "  [" := by decide
    have hcomma' : Outer ", " := by decide
    have hfirst := houter (composes_outer.append hopening hflags) hcomma' (by decide)
    unfold pieces
    rw [List.forall_mem_append]
    constructor
    · simp only [List.forall_mem_cons, List.not_mem_nil, false_imp_iff, implies_true, and_true]
      exact ⟨hfirst, hstate _, houter hbefore (by decide) (by decide), htext, hstate _⟩
    · split
      · rw [List.forall_mem_singleton]
        exact houter hafter (by decide) (by decide)
      · simp only [List.forall_mem_cons, List.not_mem_nil, false_imp_iff, implies_true, and_true]
        exact ⟨houter hafter (by decide) (by decide),
          hquoted (oneLine_of_isWord isVoice) (by decide) (by decide) breaksOff_closing⟩

/-- The names of states are bare, so it is the text and the voice file that decide. -/
theorem forall_mem_words (hlexicon : lexicon.Harmless) {dialog : Dialog} :
    (∀ w ∈ dialog.words lexicon, Bare w) ↔ Bare dialog.text ∧ Bare dialog.voice := by
  have hstate (index : Int) : Bare (lexicon.spell .dialogState index) :=
    (Lexicon.spell_of_appends composes_outer.toAppends (hlexicon.outer _) index).bare
  have hnone : Bare noVoice := by decide
  unfold words
  rw [List.forall_mem_append]
  refine and_congr ?_ ?_
  · simp [hstate, bare_spaced]
  · split
    · next h => simp [h, hnone]
    · simp

end Layout.Dialog

namespace Format

/-- The text of a module of dialogs after its opening. -/
def dialogPieces (lexicon : Lexicon) (records : List Dialog) : List Piece :=
  ⟨none, "[\n"⟩ :: (records.flatMap (·.pieces lexicon) ++ [⟨none, "]\n"⟩])

theorem render_eq_pieces (lexicon : Lexicon) (records : List Dialog) :
    dialogs.render lexicon records =
      dialogs.opening ++ String.join ((dialogPieces lexicon records).map Piece.text) := by
  have hrecords : String.join ((records.flatMap (·.pieces lexicon)).map Piece.text) =
      String.join (records.map (·.render lexicon)) := by
    induction records with
    | nil => rfl
    | cons dialog records ih =>
      rw [List.flatMap_cons, List.map_append, String.join_append, ih, Dialog.join_pieces,
        List.map_cons, String.join_cons]
  have hframe (s : String) : Piece.text ⟨none, s⟩ = s := String.empty_append
  rw [render_eq_opening, dialogPieces, List.map_cons, List.map_append, List.map_singleton,
    String.join_cons, String.join_append, String.join_cons, String.join_nil, hrecords, hframe,
    hframe, String.append_empty, String.append_assoc, String.append_assoc]
  rfl

theorem words_dialogPieces (lexicon : Lexicon) (records : List Dialog) :
    Piece.words (dialogPieces lexicon records) = records.flatMap (·.words lexicon) := by
  have hrecords : Piece.words (records.flatMap (·.pieces lexicon)) =
      records.flatMap (·.words lexicon) := by
    rw [Piece.words, List.filterMap_flatMap]
    exact List.flatMap_congr fun dialog _ => dialog.words_pieces lexicon
  rw [← hrecords, dialogPieces, Piece.words, Piece.words]
  simp

/-- The opening of a module begins with a comment, and has no literals. -/
theorem scan_opening : LiteralScan.scan {} dialogs.opening.toList = some {} := by
  decide +kernel

/-- The module of a file of dialogs has one literal for each word that its records write between
double quotes, and none else, and each denotes its word, just if the texts and voice files are bare;
and then each literal is the word as it stands, between double quotes and on one line. -/
theorem dialogs_literals_verbatim_iff (context : Context) (signal : StopSignal) (looks : Nat)
    (names : List Char → Option Nat) {source source' : Source} {text : String}
    (hlexicon : context.lexicon.Harmless) (hoperators : context.operators.Harmless)
    (hgenerate : dialogs.generate context signal looks source = (.ok text, source')) :
    ∃ (used : List (List Char)) (records : List Dialog),
      (dialogs.decoder context.operators).run signal looks source = (.ok records, source') ∧
      source.tokens = used ++ source'.tokens ∧
      Decoder.Counted (fun _ => Dialog.Compiled context.operators) used records ∧
      ((∃ ls, literals? text.toList = some ls ∧
          ls.map (Literal.denotes names) =
            (records.flatMap (·.words context.lexicon)).map fun w => some (codes w)) ↔
        ∀ dialog ∈ records, Bare dialog.text ∧ Bare dialog.voice) ∧
      ((∀ dialog ∈ records, Bare dialog.text ∧ Bare dialog.voice) →
        literals? text.toList =
          some ((records.flatMap (·.words context.lexicon)).map Literal.ofWord)) := by
  obtain ⟨records, hrun, rfl⟩ := generate_eq_ok.mp hgenerate
  have hreads : (dialogs.decoder context.operators).Reads
      (Decoder.Counted fun _ => Dialog.Compiled context.operators) :=
    Decoder.Reads.listOf (Dialog.decoder_reads context.operators)
  obtain ⟨used, htokens, hcounted⟩ := hreads.of_run hrun
  have hfits : ∀ piece ∈ dialogPieces context.lexicon records, piece.Fits := by
    have houter {s : String} (hs : Outer s) (hend : EndsApart s) : Piece.Fits ⟨none, s⟩ :=
      ⟨hs, hend, nofun⟩
    refine List.forall_mem_cons.mpr ⟨houter (by decide) (by decide), ?_⟩
    refine List.forall_mem_append.mpr ⟨fun piece hpiece => ?_, ?_⟩
    · obtain ⟨dialog, hdialog, hpiece⟩ := List.mem_flatMap.mp hpiece
      obtain ⟨ws, hcompiled⟩ := hcounted.of_mem hdialog
      exact Dialog.fits_pieces hlexicon hoperators hcompiled piece hpiece
    · exact List.forall_mem_singleton.mpr (houter (by decide) (by decide))
  have hbare : (∀ w ∈ Piece.words (dialogPieces context.lexicon records), Bare w) ↔
      ∀ dialog ∈ records, Bare dialog.text ∧ Bare dialog.voice := by
    rw [words_dialogPieces, List.forall_mem_flatMap]
    exact forall₂_congr fun dialog _ => Dialog.forall_mem_words hlexicon
  refine ⟨used, records, hrun, htokens, hcounted, ?_, fun hwords => ?_⟩
  · rw [render_eq_pieces, ← words_dialogPieces, literals_denote_iff scan_opening hfits names]
    exact hbare
  · rw [render_eq_pieces, ← words_dialogPieces]
    exact literals?_of_bare scan_opening hfits (hbare.mpr hwords)

/-- Two lines of dialog, one of them with a voice file, among names with brackets. A hash and a
single quote in a text open nothing, and the backslash in the voice file makes no escape. No
operator of an engine has a quote, a hash or a backslash in its name. -/
theorem dialogs_literals_verbatim_two :
    let lexicon := (Lexicon.empty.insert .troop #["player", "ra[m"]).insert .dialogState
      #["start", "close_window"]
    let context : Context := ⟨⟨.standard, [⟨37, "map_free", .exactly 0, []⟩]⟩, lexicon⟩
    let source := Source.ofBytes
      "2 a 65537 0 1 37 0 Don't_(yet)! 1 0 NO_VOICEOVER b 4095 1 0 # 7 0 C:\\path".toUTF8
    let text := dialogs.opening ++
      "[\n  [trp_ra[m|plyr, \"start\",\n    [\n      map_free(),\n    ],\n    \"Don't (yet)!\"," ++
      "\n    \"close_window\",\n    []],\n\n  [anyone, \"close_window\",\n    []," ++
      "\n    \"#\",\n    \"7\",\n    [],\n    [\"C:\\path\"]],\n\n]\n"
    let words := ["start", "Don't (yet)!", "close_window", "close_window", "#", "7", "C:\\path"]
    context.lexicon.Harmless ∧ context.operators.Harmless ∧
      (∀ engine, (OperatorSet.ofEngine engine).Harmless) ∧
      (dialogs.generate context .never 0 source).1 = .ok text ∧
      literals? text.toList = some (words.map Literal.ofWord) ∧
      ∀ w ∈ words, (Literal.ofWord w).denotes (fun _ => none) = some (codes w) := by
  intro lexicon context source text words
  have hlexicon : context.lexicon.Harmless := by
    intro kind
    cases kind <;> decide
  have hoperators : context.operators.Harmless := by decide
  have hgenerate : (dialogs.generate context .never 0 source).1 = .ok text := by
    decide +kernel
  refine ⟨hlexicon, hoperators, fun engine op hop => ?_, hgenerate, ?_, by decide⟩
  · exact composes_outer.clear (OperatorSet.clear_ofEngine engine op hop)
  obtain ⟨used, records, hrun, -, -, -, hliterals⟩ := dialogs_literals_verbatim_iff context .never 0
    (fun _ => none) hlexicon hoperators (Prod.ext hgenerate rfl)
  have hrecords : records =
      ((dialogs.decoder context.operators).run .never 0 source).1.toOption.getD [] := by
    rw [hrun]
    rfl
  have hbare : ∀ dialog ∈ records, Bare dialog.text ∧ Bare dialog.voice := by
    rw [hrecords]
    decide +kernel
  rw [hliterals hbare, hrecords]
  decide +kernel

/-- Words are written as they are, so a double quote splits a literal in two, a backslash at the end
keeps one from ending, and one before a letter can make it denote something else. Names are written
as they are, too: a double quote in the name of an operator opens a literal, and a hash in the name
of a troop makes a comment of the rest of its line. -/
theorem dialogs_literals_broken :
    let context : Context := ⟨⟨.vanilla, [⟨1, "\"", .exactly 0, []⟩]⟩,
      Lexicon.empty.insert .troop #["player", "ra#m"]⟩
    let generated (body : String) := (dialogs.generate context .never 0 (.ofBytes body.toUTF8)).1
    let split := "[\n  [0, \"0\",\n    [],\n    \"Yes\",\"No\",\n    \"0\",\n    []],\n\n]\n"
    let unended := "[\n  [0, \"0\",\n    [],\n    \"Yes\\\",\n    \"0\",\n    []],\n\n]\n"
    let escaped := "[\n  [0, \"0\",\n    [],\n    \"Yes\\no\",\n    \"0\",\n    []],\n\n]\n"
    let opened := "[\n  [0, \"0\",\n    [\n      \"(),\n    ],\n    \"Yes\",\n    \"0\"," ++
      "\n    []],\n\n]\n"
    let hidden := "[\n  [trp_ra#m, \"0\",\n    [],\n    \"Yes\",\n    \"0\",\n    []],\n\n]\n"
    (∀ kind, ∀ name ∈ context.lexicon.table kind,
        '"' ∉ name.toList ∧ '\\' ∉ name.toList ∧ OneLine name) ∧
      (generated "1 a 0 0 0 Yes\",\"No 0 0 NO_VOICEOVER" = .ok (dialogs.opening ++ split) ∧
        literals? (dialogs.opening ++ split).toList =
          some (["0", "Yes", "No", "0"].map Literal.ofWord)) ∧
      (generated "1 a 0 0 0 Yes\\ 0 0 NO_VOICEOVER" = .ok (dialogs.opening ++ unended) ∧
        literals? (dialogs.opening ++ unended).toList = none) ∧
      (generated "1 a 0 0 0 Yes\\no 0 0 NO_VOICEOVER" = .ok (dialogs.opening ++ escaped) ∧
        literals? (dialogs.opening ++ escaped).toList =
          some (["0", "Yes\\no", "0"].map Literal.ofWord) ∧
        (Literal.ofWord "Yes\\no").denotes (fun _ => none) = some (codes "Yes\no")) ∧
      (generated "1 a 0 0 1 1 0 Yes 0 0 NO_VOICEOVER" = .ok (dialogs.opening ++ opened) ∧
        literals? (dialogs.opening ++ opened).toList = none) ∧
      (generated "1 a 1 0 0 Yes 0 0 NO_VOICEOVER" = .ok (dialogs.opening ++ hidden) ∧
        literals? (dialogs.opening ++ hidden).toList =
          some (["Yes", "0"].map Literal.ofWord)) := by
  intro context generated split unended escaped opened hidden
  have hgenerated : generated "1 a 0 0 0 Yes\",\"No 0 0 NO_VOICEOVER" =
        .ok (dialogs.opening ++ split) ∧
      generated "1 a 0 0 0 Yes\\ 0 0 NO_VOICEOVER" = .ok (dialogs.opening ++ unended) ∧
      generated "1 a 0 0 0 Yes\\no 0 0 NO_VOICEOVER" = .ok (dialogs.opening ++ escaped) ∧
      generated "1 a 0 0 1 1 0 Yes 0 0 NO_VOICEOVER" = .ok (dialogs.opening ++ opened) ∧
      generated "1 a 1 0 0 Yes 0 0 NO_VOICEOVER" = .ok (dialogs.opening ++ hidden) := by
    decide +kernel
  have hliterals (t : String) : literals? (dialogs.opening ++ t).toList = literals? t.toList := by
    rw [literals?, String.toList_append, LiteralScan.scan_append, scan_opening]
    rfl
  obtain ⟨hsplit, hunended, hescaped, hopened, hhidden⟩ := hgenerated
  simp only [hliterals]
  refine ⟨fun kind => ?_, ⟨hsplit, ?_⟩, ⟨hunended, ?_⟩, ⟨hescaped, ?_⟩, ⟨hopened, ?_⟩, hhidden, ?_⟩
  · cases kind <;> decide
  all_goals decide +kernel

end Format

end ModuleSource
