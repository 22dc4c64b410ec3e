import ModuleSource.Proofs.Text.Literals

/-!
Words between double quotes in a text. A text is cut into pieces, each of which is a word between
double quotes, or none, and what is written after it up to the next word; there a line ends. Main
statement: a text has one literal for each word and each literal denotes its word, if and only if
every word is bare. If a word is not bare, then its first literal is shorter than the word or has an
escape in it, or it runs on into the next line; in no case is the word what it denotes.
-/

namespace ModuleSource.Text

/-- The numbers of the characters of a text. -/
def codes (s : String) : List Nat := s.toList.map Char.toNat

theorem codes_injective {s : String} {cs : List Char} (h : codes s = cs.map Char.toNat) :
    s.toList = cs :=
  (List.map_inj_right fun _ _ => Char.toNat_inj.mp).mp h

/-- A word between double quotes, or none, and what is written after it. -/
structure Piece where
  word : Option String
  rest : String

namespace Piece

def text (piece : Piece) : String := (piece.word.map Layout.quoted).getD "" ++ piece.rest

/-- The words of a text in pieces. -/
def words (pieces : List Piece) : List String := pieces.filterMap word

/-- What is written after a word opens nothing, and ends the line. -/
structure Fits (piece : Piece) : Prop where
  outer : Outer piece.rest
  endsApart : EndsApart piece.rest
  breaksOff : ∀ w ∈ piece.word, OneLine w ∧ BreaksOff piece.rest

end Piece

/-- A word between double quotes, as a literal. -/
def Literal.ofWord (w : String) : Literal := ⟨w.toList, .double, false⟩

theorem toList_quoted_append (w rest : String) :
    (Layout.quoted w ++ rest).toList = '"' :: (w.toList ++ '"' :: rest.toList) := by
  simp [Layout.quoted]

namespace LiteralScan

/-- Bare words are found as they are. -/
theorem scan_pieces {pieces : List Piece} (hfits : ∀ piece ∈ pieces, piece.Fits)
    (hbare : ∀ w ∈ Piece.words pieces, Bare w) (found : List Literal) :
    scan ⟨found, .code false⟩ (String.join (pieces.map Piece.text)).toList =
      some ⟨found ++ (Piece.words pieces).map Literal.ofWord, .code false⟩ := by
  induction pieces generalizing found with
  | nil =>
    rw [Piece.words, List.filterMap_nil, List.map_nil]
    exact congrArg (fun ls => some (LiteralScan.mk ls _)) (List.append_nil found).symm
  | cons piece pieces ih =>
    obtain ⟨hfit, hpieces⟩ := List.forall_mem_cons.mp hfits
    rw [List.map_cons, String.join_cons, String.toList_append, scan_append]
    obtain ⟨word, rest⟩ := piece
    cases word with
    | none =>
      have hpiece : Piece.text ⟨none, rest⟩ = rest := String.empty_append
      rw [hpiece, scan_endsApart hfit.outer hfit.endsApart]
      exact ih hpieces hbare found
    | some w =>
      have hwords : Piece.words (⟨some w, rest⟩ :: pieces) = w :: Piece.words pieces := rfl
      rw [hwords, List.forall_mem_cons] at hbare
      obtain ⟨⟨hquote, hinert⟩, hbare⟩ := hbare
      have hpiece : Piece.text ⟨some w, rest⟩ = Layout.quoted w ++ rest := rfl
      rw [hpiece, toList_quoted_append,
        scan_quoted hquote (hfit.breaksOff w rfl).1 hinert hfit.outer hfit.endsApart,
        Option.bind_some, ih hpieces hbare, hwords, List.append_assoc]
      rfl

end LiteralScan

/-- At least as many literals as words, and if it is the words that they denote, then these are
bare. -/
def Covers (names : List Char → Option Nat) (ws : List String) (ls : List Literal) : Prop :=
  ws.length ≤ ls.length ∧
    (ls.map (Literal.denotes names) = ws.map (fun w => some (codes w)) → ∀ w ∈ ws, Bare w)

section Covers

variable {names : List Char → Option Nat} {ws vs : List String} {ls ms : List Literal} {w : String}

theorem Covers.append (h : Covers names ws ls) (h' : Covers names vs ms) :
    Covers names (ws ++ vs) (ls ++ ms) := by
  constructor
  · rw [List.length_append, List.length_append]
    exact Nat.add_le_add h.1 h'.1
  · intro heq
    -- As there are no literals to spare, the words have the same number of them on both sides.
    have hlength := congrArg List.length heq
    simp only [List.length_map, List.length_append] at hlength
    have hle := h.1
    have hle' := h'.1
    rw [List.map_append, List.map_append] at heq
    obtain ⟨hleft, hright⟩ := List.append_inj heq (by simp only [List.length_map]; omega)
    exact List.forall_mem_append.mpr ⟨h.2 hleft, h'.2 hright⟩

/-- A literal that takes no more text than a word in quotes denotes this word only if it is the word
in quotes, and the word is bare. -/
theorem bare_of_denotes {l : Literal} (hsize : l.size ≤ w.toList.length + 2)
    (hguarded : l.long = false → LiteralScan.Guarded l.body)
    (h : l.denotes names = some (codes w)) : Bare w := by
  have hlength : (codes w).length = w.toList.length := List.length_map _
  have hbody : l.body.length ≤ w.toList.length := by
    unfold Literal.size at hsize
    split at hsize <;> omega
  rcases unescape_shortens h with hless | ⟨hcodes, hinert⟩
  · omega
  · have hword := codes_injective hcodes
    have hshort : l.long = false := by
      unfold Literal.size at hsize
      rw [hword] at hsize
      split at hsize
      · omega
      · next hlong => exact Bool.eq_false_iff.mpr hlong
    rw [Bare, hword]
    exact ⟨(hguarded hshort).not_mem hinert, hinert⟩

theorem covers_singleton {l : Literal} (hsize : l.size ≤ w.toList.length + 2)
    (hguarded : l.long = false → LiteralScan.Guarded l.body) (rest : List Literal) :
    Covers names [w] (l :: rest) := by
  refine ⟨by simp, fun heq => List.forall_mem_singleton.mpr ?_⟩
  exact bare_of_denotes hsize hguarded (List.cons.inj heq).1

end Covers

namespace LiteralScan

variable {names : List Char → Option Nat} {found : List Literal} {s : LiteralScan} {w rest : String}

theorem covers_quoted (names : List Char → Option Nat) (houter : Outer rest)
    (hend : EndsApart rest) (hbreak : BreaksOff rest)
    (h : scan ⟨found, .code false⟩ (Layout.quoted w ++ rest).toList = some s) :
    s.Spoiled ∨ ∃ new, s = ⟨found ++ new, .code false⟩ ∧ Covers names [w] new := by
  have hsplit : (Layout.quoted w ++ rest).toList = '"' :: (w.toList ++ ['"']) ++ rest.toList := by
    rw [toList_quoted_append]
    simp
  rw [hsplit] at h
  obtain ⟨t, hquoted, hrest⟩ := scan_append_eq_some.mp h
  rcases code_or_spoiled hbreak hrest with hspoiled | ⟨hcode, hinside⟩
  · exact Or.inl hspoiled
  have hopened : Since found 1 ⟨found, .opened .double⟩ := Or.inl ⟨rfl, rfl, Nat.le_refl _⟩
  have hsince : t.Since found (w.toList.length + 2) := by
    have hend : t.Since found (1 + (w.toList ++ ['"']).length) := hopened.scan hquoted
    rwa [List.length_append, List.length_singleton, Nat.add_comm] at hend
  have hfirst : ∃ l more, s.found = found ++ l :: more ∧ l.size ≤ w.toList.length + 2 ∧
      (l.long = false → Guarded l.body) := by
    rcases hsince with ⟨hfound, hmode⟩ | ⟨l, more, hfound, hsize, hguarded⟩
    · -- Of the places in the literal only the one after two quotes is left at the end of a line.
      obtain ⟨found', mode⟩ := t
      cases mode with
      | paired quote =>
        obtain rfl : found' = found := hfound
        rw [scan_paired houter hend, scan_endsApart houter hend] at hrest
        obtain rfl := Option.some.inj hrest
        refine ⟨_, [], rfl, hmode.2, fun _ front back heq => ?_⟩
        simp at heq
      | opened | short | long => cases hinside
      | _ => exact hmode.elim
    · obtain ⟨new, hnew⟩ := found_append_of_scan hrest
      exact ⟨l, more ++ new, by rw [hnew, hfound]; simp, hsize, hguarded⟩
  obtain ⟨l, more, hfound, hsize, hguarded⟩ := hfirst
  refine Or.inr ⟨l :: more, ?_, covers_singleton hsize hguarded more⟩
  obtain ⟨found', mode⟩ := s
  obtain rfl : mode = _ := hcode
  rw [show found' = _ from hfound]

/-- Whatever the words are, there is a literal for each, unless one runs on into the next line. -/
theorem covers_pieces {pieces : List Piece} (hfits : ∀ piece ∈ pieces, piece.Fits)
    (h : scan ⟨found, .code false⟩ (String.join (pieces.map Piece.text)).toList = some s) :
    s.Spoiled ∨ ∃ new, s = ⟨found ++ new, .code false⟩ ∧
      Covers names (Piece.words pieces) new := by
  induction pieces generalizing found with
  | nil =>
    obtain rfl := Option.some.inj h
    exact Or.inr ⟨[], by rw [List.append_nil], Nat.le_refl _, fun _ => by simp [Piece.words]⟩
  | cons piece pieces ih =>
    obtain ⟨hfit, hpieces⟩ := List.forall_mem_cons.mp hfits
    rw [List.map_cons, String.join_cons, String.toList_append] at h
    obtain ⟨t, hpiece, hrest⟩ := scan_append_eq_some.mp h
    obtain ⟨word, rest⟩ := piece
    cases word with
    | none =>
      change scan _ ("" ++ rest).toList = _ at hpiece
      rw [String.empty_append, scan_endsApart hfit.outer hfit.endsApart] at hpiece
      obtain rfl := Option.some.inj hpiece
      exact ih hpieces hrest
    | some w =>
      rcases covers_quoted names hfit.outer hfit.endsApart (hfit.breaksOff w rfl).2 hpiece
        with hspoiled | ⟨new, rfl, hcovers⟩
      · exact Or.inl (hspoiled.scan hrest)
      rcases ih hpieces hrest with hspoiled | ⟨more, rfl, hcovers'⟩
      · exact Or.inl hspoiled
      · exact Or.inr ⟨new ++ more, by rw [List.append_assoc], hcovers.append hcovers'⟩

theorem torn_of_spoiled {ls : List Literal} (h : s.Spoiled) (hls : s.literals? = some ls) :
    ∃ l ∈ ls, Torn l.body := by
  obtain ⟨found, mode⟩ := s
  rcases h with ⟨l, hl, htorn⟩ | ⟨quote, body, escaped, count, hmode, -⟩
  · cases mode with
    | code | comment =>
      obtain rfl := Option.some.inj hls
      exact ⟨l, hl, htorn⟩
    | paired quote =>
      obtain rfl := Option.some.inj hls
      exact ⟨l, List.mem_append_left _ hl, htorn⟩
    | _ => cases hls
  · obtain rfl : mode = _ := hmode
    cases hls

end LiteralScan

/-- A torn literal denotes no text on one line. -/
theorem denotes_ne_of_torn {names : List Char → Option Nat} {l : Literal} {w : String}
    (h : LiteralScan.Torn l.body) (hw : OneLine w) : l.denotes names ≠ some (codes w) := by
  intro heq
  obtain ⟨front, c, back, hbody, hc⟩ := h
  rw [Literal.denotes, hbody] at heq
  obtain ⟨d, hd, hfeed⟩ := List.mem_map.mp (lineFeed_mem_of_unescape hc heq)
  rw [Char.toNat_inj.mp hfeed] at hd
  exact hw _ hd (by decide)

section Text

variable {head : String} {pieces : List Piece}
  (hhead : LiteralScan.scan {} head.toList = some {}) (hfits : ∀ piece ∈ pieces, piece.Fits)
include hhead hfits

/-- In a text after a head without literals, bare words are the literals. -/
theorem literals?_of_bare (hbare : ∀ w ∈ Piece.words pieces, Bare w) :
    literals? (head ++ String.join (pieces.map Piece.text)).toList =
      some ((Piece.words pieces).map Literal.ofWord) := by
  rw [literals?, String.toList_append, LiteralScan.scan_append, hhead, Option.bind_some,
    LiteralScan.scan_pieces hfits hbare]
  rfl

/-- No other words are what the literals denote. -/
theorem literals_denote_iff (names : List Char → Option Nat) :
    (∃ ls, literals? (head ++ String.join (pieces.map Piece.text)).toList = some ls ∧
        ls.map (Literal.denotes names) = (Piece.words pieces).map fun w => some (codes w)) ↔
      ∀ w ∈ Piece.words pieces, Bare w := by
  constructor
  · rintro ⟨ls, hls, heq⟩
    rw [literals?, String.toList_append, LiteralScan.scan_append, hhead, Option.bind_some] at hls
    obtain ⟨s, hscan, hfound⟩ := Option.bind_eq_some_iff.mp hls
    rcases LiteralScan.covers_pieces hfits hscan with hspoiled | ⟨new, rfl, hcovers⟩
    · obtain ⟨l, hl, htorn⟩ := LiteralScan.torn_of_spoiled hspoiled hfound
      have hdenotes := List.mem_map_of_mem (f := Literal.denotes names) hl
      rw [heq, List.mem_map] at hdenotes
      obtain ⟨w, hw, hdenotes⟩ := hdenotes
      obtain ⟨piece, hpiece, hword⟩ := List.mem_filterMap.mp hw
      have hline := ((hfits piece hpiece).breaksOff w hword).1
      exact absurd hdenotes.symm (denotes_ne_of_torn htorn hline)
    · obtain rfl := Option.some.inj hfound
      exact hcovers.2 heq
  · intro hbare
    refine ⟨_, literals?_of_bare hhead hfits hbare, ?_⟩
    rw [List.map_map]
    exact List.map_congr_left fun w hw => unescape_of_inert (hbare w hw).2

end Text

end ModuleSource.Text
