import Mathlib.Tactic.Common
import ModuleSource.Proofs.Text.Encoding

/-!
Brackets in a text. A scan goes through a text with the brackets that are open, the innermost first,
and passes over what stands in double quotes; it fails at a bracket that closes none or the wrong
one. It also counts the brackets that are opened at one depth. A text is scanned inside brackets as
it is scanned alone, so what is known of the pieces of a text tells how deep each of its places is.
-/

namespace ModuleSource.Text

inductive Bracket where
  | round
  | square
deriving DecidableEq

/-- What a scan knows: the open brackets, whether it is inside quotes, and how many brackets were
opened at the depth that it watches. -/
structure Nesting where
  enclosing : List Bracket := []
  inString : Bool := false
  opened : Nat := 0
deriving DecidableEq

namespace Nesting

def enter (depth : Nat) (bracket : Bracket) (s : Nesting) : Nesting where
  enclosing := bracket :: s.enclosing
  inString := false
  opened := if s.enclosing.length = depth then s.opened + 1 else s.opened

def leave? (bracket : Bracket) (s : Nesting) : Option Nesting :=
  match s.enclosing with
  | [] => none
  | top :: rest => if top = bracket then some { s with enclosing := rest } else none

def step (depth : Nat) (s : Nesting) (c : Char) : Option Nesting :=
  if s.inString then some { s with inString := c != '"' }
  else if c = '"' then some { s with inString := true }
  else if c = '(' then some (s.enter depth .round)
  else if c = '[' then some (s.enter depth .square)
  else if c = ')' then s.leave? .round
  else if c = ']' then s.leave? .square
  else some s

/-- Scans a text, with an eye on the brackets opened at the given depth. -/
def scan (depth : Nat) (s : Nesting) (cs : List Char) : Option Nesting := cs.foldlM (step depth) s

end Nesting

/-- The characters that a scan heeds. -/
def marks : List Char := ['"', '(', ')', '[', ']']

/-- A text without quotes and brackets. -/
def Plain (cs : List Char) : Prop := ∀ c ∈ cs, c ∉ marks

-- The instance is named: a search could find one that goes through all characters there are.
instance : DecidablePred Plain := fun cs => List.decidableBAll (· ∉ marks) cs

/-- Whether a text has none of the characters, seen from its bytes. -/
def lacks (chars : List Char) (s : String) : Bool :=
  s.toUTF8.data.toList.all fun b => !(chars.map fun c => UInt8.ofNat c.toNat).contains b

/-- Characters of one byte are seen from the bytes of a text. -/
theorem not_mem_of_lacks {chars : List Char} {s : String}
    (hchars : ∀ c ∈ chars, String.utf8EncodeChar c = [UInt8.ofNat c.toNat])
    (h : lacks chars s = true) : ∀ c ∈ s.toList, c ∉ chars := by
  intro c hc hmem
  have hbyte : UInt8.ofNat c.toNat ∈ s.toUTF8.data.toList := by
    rw [← toList_eq_toList_data, toList_toUTF8, utf8, List.mem_flatMap]
    exact ⟨c, hc, by rw [hchars c hmem]; exact List.mem_singleton_self _⟩
  have hlacks := List.all_eq_true.mp h _ hbyte
  rw [List.contains_iff_mem.mpr (List.mem_map_of_mem hmem)] at hlacks
  cases hlacks

theorem plain_of_lacks {s : String} (h : lacks marks s = true) : Plain s.toList := by
  refine not_mem_of_lacks ?_ h
  simp only [marks, List.forall_mem_cons, List.not_mem_nil, false_imp_iff, implies_true]
  decide

namespace Nesting

variable {depth k n : Nat} {s t u : Nesting} {e : List Bracket} {b : Bracket} {c : Char}
  {cs ds : List Char}

@[simp]
theorem scan_nil : scan depth s [] = some s := rfl

theorem scan_cons : scan depth s (c :: cs) = (step depth s c).bind (scan depth · cs) :=
  List.foldlM_cons

theorem scan_append : scan depth s (cs ++ ds) = (scan depth s cs).bind (scan depth · ds) :=
  List.foldlM_append

/-- The text is scanned piece by piece. -/
theorem scan_append_string {x y : String} (hx : scan depth s x.toList = some t)
    (hy : scan depth t y.toList = some u) : scan depth s (x ++ y).toList = some u := by
  rw [String.toList_append, scan_append, hx]
  exact hy

theorem step_of_not_mem_marks (h : c ∉ marks) (e : List Bracket) (k : Nat) :
    step depth ⟨e, false, k⟩ c = some ⟨e, false, k⟩ := by
  simp only [marks, List.mem_cons, List.not_mem_nil, or_false, not_or] at h
  simp [step, h]

theorem scan_plain (h : Plain cs) (e : List Bracket) (k : Nat) :
    scan depth ⟨e, false, k⟩ cs = some ⟨e, false, k⟩ := by
  induction cs with
  | nil => rfl
  | cons c cs ih =>
    rw [scan_cons, step_of_not_mem_marks (h c List.mem_cons_self)]
    exact ih fun d hd => h d (List.mem_cons_of_mem c hd)

theorem scan_quoted (h : '"' ∉ cs) (e : List Bracket) (k : Nat) :
    scan depth ⟨e, false, k⟩ ('"' :: (cs ++ ['"'])) = some ⟨e, false, k⟩ := by
  have inside : scan depth ⟨e, true, k⟩ cs = some ⟨e, true, k⟩ := by
    induction cs with
    | nil => rfl
    | cons c cs ih =>
      rw [List.mem_cons, not_or] at h
      have hstep : step depth ⟨e, true, k⟩ c = some ⟨e, true, k⟩ := by simp [step, Ne.symm h.1]
      rw [scan_cons, hstep]
      exact ih h.2
  change scan depth ⟨e, true, k⟩ (cs ++ ['"']) = _
  rw [scan_append, inside]
  rfl

/-- What goes well to the end goes well to every place before it. -/
theorem exists_scan_of_prefix (h : scan depth s cs = some t) (hfront : ds <+: cs) :
    ∃ u, scan depth s ds = some u := by
  obtain ⟨rest, rfl⟩ := hfront
  rw [scan_append, Option.bind_eq_some_iff] at h
  obtain ⟨u, hu, -⟩ := h
  exact ⟨u, hu⟩

/-- The same place with further brackets around the text. -/
def under (base : List Bracket) (s : Nesting) : Nesting :=
  { s with enclosing := s.enclosing ++ base }

theorem leave?_under (base : List Bracket) (h : s.leave? b = some t) :
    (s.under base).leave? b = some (t.under base) := by
  obtain ⟨enclosing, inString, opened⟩ := s
  cases enclosing with
  | nil => cases h
  | cons top rest =>
    change (if top = b then _ else none) = _ at h
    change (if top = b then some (under base ⟨rest, inString, opened⟩) else none) = _
    split at h
    · next htop => rw [if_pos htop, Option.some.inj h]
    · cases h

theorem enter_under (base : List Bracket) :
    (s.under base).enter (depth + base.length) b = (s.enter depth b).under base := by
  simp only [under, enter, List.length_append, Nat.add_right_cancel_iff, List.cons_append]

theorem step_under (base : List Bracket) (h : step depth s c = some t) :
    step (depth + base.length) (s.under base) c = some (t.under base) := by
  unfold step at h ⊢
  have hstring : (s.under base).inString = s.inString := rfl
  rw [hstring, enter_under, enter_under]
  split at h
  · next hin =>
    rw [if_pos hin, ← Option.some.inj h]
    rfl
  next hin =>
  rw [if_neg hin]
  split at h
  · next hquote =>
    rw [if_pos hquote, ← Option.some.inj h]
    rfl
  next hquote =>
  rw [if_neg hquote]
  split at h
  · next hround => rw [if_pos hround, ← Option.some.inj h]
  next hround =>
  rw [if_neg hround]
  split at h
  · next hsquare => rw [if_pos hsquare, ← Option.some.inj h]
  next hsquare =>
  rw [if_neg hsquare]
  split at h
  · next hclose =>
    rw [if_pos hclose]
    exact leave?_under base h
  next hclose =>
  rw [if_neg hclose]
  split at h
  · next hclose' =>
    rw [if_pos hclose']
    exact leave?_under base h
  · next hclose' => rw [if_neg hclose', Option.some.inj h]

/-- Brackets around a text do not change how it is scanned; they only add to its depth. -/
theorem scan_under (base : List Bracket) (h : scan depth s cs = some t) :
    scan (depth + base.length) (s.under base) cs = some (t.under base) := by
  induction cs generalizing s with
  | nil =>
    obtain rfl := Option.some.inj h
    rfl
  | cons c cs ih =>
    rw [scan_cons, Option.bind_eq_some_iff] at h
    obtain ⟨u, hstep, hrest⟩ := h
    rw [scan_cons, step_under base hstep]
    exact ih hrest

end Nesting

/-- A text that, inside some bracket, leaves everything open that was open before it, and nothing
else. -/
def Closed (s : String) : Prop := ∀ (b : Bracket) (e : List Bracket) (k : Nat),
  Nesting.scan 0 ⟨b :: e, false, k⟩ s.toList = some ⟨b :: e, false, k⟩

/-- A closed text in which, outside its own brackets, one bracket is opened. -/
def IsGroup (s : String) : Prop := ∀ (e : List Bracket) (k : Nat),
  Nesting.scan 0 ⟨e, false, k⟩ s.toList = some ⟨e, false, if e.length = 0 then k + 1 else k⟩

section Pieces

variable {s t : String}

theorem IsGroup.closed (h : IsGroup s) : Closed s := fun b e k => h (b :: e) k

theorem closed_of_plain (h : Plain s.toList) : Closed s :=
  fun b e k => Nesting.scan_plain h (b :: e) k

theorem closed_ofList {cs : List Char} (h : Plain cs) : Closed (.ofList cs) := by
  refine closed_of_plain ?_
  rwa [String.toList_ofList]

theorem Closed.append (hs : Closed s) (ht : Closed t) : Closed (s ++ t) := by
  intro b e k
  exact Nesting.scan_append_string (hs b e k) (ht b e k)

section Joined

variable {P : String → Prop} (hempty : P "") (happend : ∀ {s t : String}, P s → P t → P (s ++ t))
  {texts : List String} (h : ∀ text ∈ texts, P text)
include hempty happend h

/-- What appending keeps is kept by texts one after the other. -/
theorem join_of_append : P (String.join texts) := by
  induction texts with
  | nil => exact hempty
  | cons text texts ih =>
    rw [String.join_cons]
    exact happend (h text List.mem_cons_self) (ih fun t ht => h t (List.mem_cons_of_mem text ht))

theorem intercalate_of_append {sep : String} (hsep : P sep) : P (String.intercalate sep texts) := by
  induction texts with
  | nil => exact hempty
  | cons text texts ih =>
    cases texts with
    | nil =>
      rw [String.intercalate_singleton]
      exact h text List.mem_cons_self
    | cons next texts =>
      rw [String.intercalate_cons_cons]
      exact happend (happend (h text List.mem_cons_self) hsep)
        (ih fun t ht => h t (List.mem_cons_of_mem text ht))

end Joined

theorem closed_empty : Closed "" := fun _ _ _ => rfl

theorem closed_join {texts : List String} (h : ∀ text ∈ texts, Closed text) :
    Closed (String.join texts) :=
  join_of_append (P := Closed) closed_empty Closed.append h

/-- Groups one after the other are counted. -/
theorem scan_join {groups : List String} (h : ∀ group ∈ groups, IsGroup group) (k : Nat) :
    Nesting.scan 0 ⟨[], false, k⟩ (String.join groups).toList =
      some ⟨[], false, k + groups.length⟩ := by
  induction groups generalizing k with
  | nil => rfl
  | cons group groups ih =>
    rw [String.join_cons, String.toList_append, Nesting.scan_append,
      h group List.mem_cons_self [] k]
    have hrest := ih (fun g hg => h g (List.mem_cons_of_mem group hg)) (k + 1)
    rw [Nat.add_assoc, Nat.add_comm 1] at hrest
    exact hrest

end Pieces

/-- A text that is one list in square brackets after `head`, with `n` brackets opened directly in
the list. -/
structure IsListing (head : List Char) (n : Nat) (text : List Char) : Prop where
  /-- The list is opened after the head, and a line feed is all that follows it. -/
  framed : ∃ body, text = head ++ '[' :: body ++ [']', '\n']
  /-- Every bracket is closed by its own kind, and every quote by another. -/
  nested : Nesting.scan 1 {} text = some { opened := n }
  /-- No bracket is open before the list and after it, and some bracket is everywhere in it. -/
  depth : ∀ place, place <+: text → ∃ s, Nesting.scan 1 {} place = some s ∧
    (s.enclosing = [] ↔ place <+: head ∨ text.dropLast <+: place)

theorem isListing_of_scan {head body : List Char} {n : Nat} (hhead : Plain head)
    (hbody : Nesting.scan 0 {} body = some { opened := n }) :
    IsListing head n (head ++ '[' :: body ++ [']', '\n']) := by
  have hopen : Nesting.scan 1 {} (head ++ ['[']) = some { enclosing := [.square] } := by
    rw [Nesting.scan_append, Nesting.scan_plain hhead]
    rfl
  have hlist : Nesting.scan 1 {} (head ++ '[' :: body) =
      some { enclosing := [.square], opened := n } := by
    rw [← List.singleton_append, ← List.append_assoc, Nesting.scan_append, hopen]
    exact Nesting.scan_under [.square] hbody
  have hend : Nesting.scan 1 {} (head ++ '[' :: body ++ [']']) = some { opened := n } := by
    rw [Nesting.scan_append, hlist]
    rfl
  have hlast : (head ++ '[' :: body ++ [']', '\n']).dropLast = head ++ '[' :: body ++ [']'] := by
    rw [List.dropLast_append_of_ne_nil (List.cons_ne_nil _ _)]
    rfl
  have hsplit : head ++ '[' :: body = head ++ ['['] ++ body := by simp
  refine ⟨⟨body, rfl⟩, ?_, fun place hplace => ?_⟩
  · rw [Nesting.scan_append, hlist]
    rfl
  rw [hlast]
  -- A place is in the head, in the list up to its closing bracket, or after this bracket.
  by_cases hbefore : place.length ≤ head.length
  · have hin : place <+: head := by
      refine List.prefix_of_prefix_length_le hplace ?_ hbefore
      rw [List.append_assoc]
      exact List.prefix_append head _
    refine ⟨{}, Nesting.scan_plain (fun c hc => hhead c (hin.subset hc)) [] 0, ?_⟩
    exact iff_of_true rfl (Or.inl hin)
  by_cases hwithin : place.length ≤ (head ++ '[' :: body).length
  · have hin : place <+: head ++ ['['] ++ body := by
      rw [← hsplit]
      exact List.prefix_of_prefix_length_le hplace (List.prefix_append _ _) hwithin
    have hopened : head ++ ['['] <+: place := by
      refine List.prefix_of_prefix_length_le (List.prefix_append _ _) hin ?_
      rw [List.length_append, List.length_singleton]
      omega
    obtain ⟨inner, rfl⟩ := hopened
    obtain ⟨s, hs⟩ := Nesting.exists_scan_of_prefix hbody ((List.prefix_append_right_inj _).mp hin)
    refine ⟨s.under [.square], ?_, iff_of_false (by simp [Nesting.under]) ?_⟩
    · rw [Nesting.scan_append, hopen]
      exact Nesting.scan_under [.square] hs
    · rintro (hshort | hlong)
      · exact hbefore hshort.length_le
      · have hle := hlong.length_le
        rw [List.length_append, List.length_singleton] at hle
        omega
  · have htext : head ++ '[' :: body ++ [']', '\n'] = head ++ '[' :: body ++ [']'] ++ ['\n'] := by
      simp
    rw [htext] at hplace
    have hclosed : head ++ '[' :: body ++ [']'] <+: place := by
      refine List.prefix_of_prefix_length_le (List.prefix_append _ _) hplace ?_
      rw [List.length_append, List.length_singleton]
      omega
    obtain ⟨rest, rfl⟩ := hclosed
    have hrest : Plain rest := by
      have hfeed : Plain ['\n'] := by decide
      exact fun c hc => hfeed c (((List.prefix_append_right_inj _).mp hplace).subset hc)
    refine ⟨{ opened := n }, ?_, iff_of_true rfl (Or.inr (List.prefix_append _ _))⟩
    rw [Nesting.scan_append, hend]
    exact Nesting.scan_plain hrest [] n

end ModuleSource.Text
