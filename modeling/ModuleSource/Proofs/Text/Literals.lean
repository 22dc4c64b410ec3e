import ModuleSource.Layout.Frame
import ModuleSource.Proofs.Text.Escapes

/-!
Literals in a text. A scan goes through a text and collects what stands between quotes, single or
double ones. A literal ends at the next quote of its kind and on its own line, three quotes open one
that three quotes end, and in both a backslash keeps the character after it from ending the literal.
Outside of literals a hash opens a comment that lasts to the end of the line, and a backslash only
joins two lines. A quote right after a name is refused, since the name could be a prefix that
changes these rules. Main statement: where words between double quotes stand in text that has no
quotes, no hash and no backslash, there is one literal for each word and it denotes this word, if
and only if no word has a double quote and no backslash in a word makes an escape.
-/

namespace ModuleSource.Text

inductive Quote where
  | double
  | single
deriving DecidableEq

def Quote.mark : Quote → Char
  | double => '"'
  | single => '\''

def Quote.of? (c : Char) : Option Quote :=
  if c = '"' then some .double else if c = '\'' then some .single else none

structure Literal where
  body : List Char
  quote : Quote := .double
  /-- Whether three quotes stand on both sides. -/
  long : Bool := false
deriving DecidableEq

/-- The numbers of the characters that a literal denotes, with a table of the names of characters;
none if it has a broken escape. -/
def Literal.denotes (names : List Char → Option Nat) (l : Literal) : Option (List Nat) :=
  unescape names l.body

/-- Where a scan is. -/
inductive LiteralMode where
  /-- Outside literals. -/
  | code (afterName : Bool)
  | comment
  /-- Outside literals, after a backslash. -/
  | joining
  /-- After a first quote. -/
  | opened (quote : Quote)
  /-- After a second quote, which ends an empty literal unless a third one follows. -/
  | paired (quote : Quote)
  | short (quote : Quote) (body : List Char) (escaped : Bool)
  /-- In a literal that has so many quotes after its body up to now. -/
  | long (quote : Quote) (body : List Char) (escaped : Bool) (quotes : Nat)
deriving DecidableEq

/-- What a scan knows: the literals that have ended, and where it is. -/
structure LiteralScan where
  found : List Literal := []
  mode : LiteralMode := .code false
deriving DecidableEq

/-- The characters of names. -/
def isNamePart (c : Char) : Bool := c.isAlphanum || c == '_' || 128 ≤ c.toNat

def lineBreaks : List Char := ['\n', '\r']

namespace LiteralScan

def close (s : LiteralScan) (l : Literal) : LiteralScan := ⟨s.found ++ [l], .code false⟩

/-- Outside literals. -/
def stepCode (s : LiteralScan) (afterName : Bool) (c : Char) : Option LiteralScan :=
  match Quote.of? c with
  | some quote => if afterName then none else some { s with mode := .opened quote }
  | none =>
    if c = '#' then some { s with mode := .comment }
    else if c = '\\' then some { s with mode := .joining }
    else some { s with mode := .code (isNamePart c) }

/-- Inside a literal that one quote ends. -/
def stepShort (s : LiteralScan) (quote : Quote) (body : List Char) (c : Char) :
    Option LiteralScan :=
  if c = quote.mark then some (s.close ⟨body, quote, false⟩)
  else if c ∈ lineBreaks then none
  else some { s with mode := .short quote (body ++ [c]) (c == '\\') }

/-- Inside a literal that three quotes end. -/
def stepLong (s : LiteralScan) (quote : Quote) (body : List Char) (count : Nat) (c : Char) :
    LiteralScan :=
  if c ≠ quote.mark then
    { s with mode := .long quote (body ++ List.replicate count quote.mark ++ [c]) (c == '\\') 0 }
  else if count = 2 then s.close ⟨body, quote, true⟩
  else { s with mode := .long quote body false (count + 1) }

def step (s : LiteralScan) (c : Char) : Option LiteralScan :=
  match s.mode with
  | .code afterName => s.stepCode afterName c
  | .comment => some (if c ∈ lineBreaks then { s with mode := .code false } else s)
  | .joining => if c ∈ lineBreaks then some { s with mode := .code false } else none
  | .opened quote =>
    if c = quote.mark then some { s with mode := .paired quote } else s.stepShort quote [] c
  | .paired quote =>
    if c = quote.mark then some { s with mode := .long quote [] false 0 }
    else (s.close ⟨[], quote, false⟩).stepCode false c
  | .short quote body false => s.stepShort quote body c
  | .short quote body true => some { s with mode := .short quote (body ++ [c]) false }
  | .long quote body false count => some (s.stepLong quote body count c)
  | .long quote body true _ => some { s with mode := .long quote (body ++ [c]) false 0 }

def scan (s : LiteralScan) (cs : List Char) : Option LiteralScan := cs.foldlM step s

/-- The literals found, unless the text ends inside one. -/
def literals? (s : LiteralScan) : Option (List Literal) :=
  match s.mode with
  | .code _ | .comment => some s.found
  | .paired quote => some (s.found ++ [⟨[], quote, false⟩])
  | _ => none

end LiteralScan

/-- The literals of a text, in order; none if it breaks the rules for them. -/
def literals? (cs : List Char) : Option (List Literal) :=
  (LiteralScan.scan {} cs).bind LiteralScan.literals?

example : literals? "x = [\"a'\", '', \"\"\"b\"c\n\"\"\"] # it's".toList =
    some [⟨['a', '\''], .double, false⟩, ⟨[], .single, false⟩,
      ⟨['b', '"', 'c', '\n'], .double, true⟩] := by
  decide

example : literals? "\"a\\\"b\"".toList = some [⟨['a', '\\', '"', 'b'], .double, false⟩] := by
  decide

/-- The characters that a scan heeds outside of literals. -/
def outerMarks : List Char := ['"', '\'', '#', '\\']

/-- A text that opens neither a literal nor a comment. -/
def Outer (s : String) : Prop := ∀ c ∈ s.toList, c ∉ outerMarks

-- The instance is named: a search could find one that goes through all characters there are.
instance : DecidablePred Outer := fun s => List.decidableBAll (· ∉ outerMarks) s.toList

/-- A text whose last character is not of a name, so that a quote may follow it. -/
def EndsApart (s : String) : Prop := s.toList.getLast?.any (!isNamePart ·) = true

instance : DecidablePred EndsApart := fun s =>
  inferInstanceAs (Decidable (s.toList.getLast?.any (!isNamePart ·) = true))

/-- A word that, between double quotes, stands for itself: no quote ends the literal in it, and no
backslash makes an escape. -/
def Bare (s : String) : Prop := '"' ∉ s.toList ∧ inert s.toList = true

instance : DecidablePred Bare := fun s =>
  inferInstanceAs (Decidable ('"' ∉ s.toList ∧ inert s.toList = true))

/-- A text without line breaks. -/
def OneLine (s : String) : Prop := ∀ c ∈ s.toList, c ∉ lineBreaks

instance : DecidablePred OneLine := fun s => List.decidableBAll (· ∉ lineBreaks) s.toList

example : Bare "C:\\path" ∧ ¬ Bare "C:\\new" ∧ ¬ Bare "a\\" := by decide

theorem EndsApart.append {t : String} (h : EndsApart t) (s : String) : EndsApart (s ++ t) := by
  unfold EndsApart at h ⊢
  rw [String.toList_append, List.getLast?_append]
  cases hlast : t.toList.getLast? with
  | none =>
    rw [hlast] at h
    cases h
  | some c => rwa [hlast] at h

theorem EndsApart.exists_concat {s : String} (h : EndsApart s) :
    ∃ front c, s.toList = front ++ [c] ∧ isNamePart c = false := by
  obtain ⟨c, hlast, hc⟩ := Option.any_eq_true _ _ |>.mp h
  obtain ⟨front, hfront⟩ := List.getLast?_eq_some_iff.mp hlast
  exact ⟨front, c, hfront, by simpa using hc⟩

namespace LiteralScan

variable {s t : LiteralScan} {found : List Literal} {cs ds : List Char} {c : Char}
  {quote : Quote}

theorem scan_append : scan s (cs ++ ds) = (scan s cs).bind (scan · ds) := List.foldlM_append

theorem scan_cons : scan s (c :: cs) = (s.step c).bind (scan · cs) := List.foldlM_cons

theorem scan_append_eq_some :
    scan s (cs ++ ds) = some t ↔ ∃ u, scan s cs = some u ∧ scan u ds = some t := by
  rw [scan_append, Option.bind_eq_some_iff]

theorem scan_cons_eq_some :
    scan s (c :: cs) = some t ↔ ∃ u, s.step c = some u ∧ scan u cs = some t := by
  rw [scan_cons, Option.bind_eq_some_iff]

theorem stepCode_of_outer (hc : c ∉ outerMarks) (afterName : Bool) :
    s.stepCode afterName c = some { s with mode := .code (isNamePart c) } := by
  simp only [outerMarks, List.mem_cons, List.not_mem_nil, or_false, not_or] at hc
  obtain ⟨hdouble, hsingle, hhash, hback⟩ := hc
  simp only [stepCode, Quote.of?, if_neg hdouble, if_neg hsingle, if_neg hhash, if_neg hback]

/-- Text that opens nothing is passed over. -/
theorem scan_outer (h : ∀ c ∈ cs, c ∉ outerMarks) (found : List Literal) (afterName : Bool) :
    ∃ after, scan ⟨found, .code afterName⟩ cs = some ⟨found, .code after⟩ := by
  induction cs generalizing afterName with
  | nil => exact ⟨afterName, rfl⟩
  | cons c cs ih =>
    obtain ⟨hc, hcs⟩ := List.forall_mem_cons.mp h
    rw [scan_cons]
    change ∃ after, (stepCode ⟨found, .code afterName⟩ afterName c).bind _ = _
    rw [stepCode_of_outer hc]
    exact ih hcs _

theorem scan_endsApart {t : String} (h : Outer t) (hend : EndsApart t) (afterName : Bool) :
    scan ⟨found, .code afterName⟩ t.toList = some ⟨found, .code false⟩ := by
  obtain ⟨front, c, ht, hc⟩ := hend.exists_concat
  rw [Outer, ht, List.forall_mem_append, List.forall_mem_singleton] at h
  obtain ⟨after, hfront⟩ := scan_outer h.1 found afterName
  rw [ht, scan_append, hfront, Option.bind_some, scan_cons]
  change (stepCode ⟨found, .code after⟩ after c).bind _ = _
  rw [stepCode_of_outer h.2, hc]
  rfl

/-- After a first quote a body is read from its start, unless a second quote follows. -/
theorem scan_opened (hc : c ≠ quote.mark) :
    scan ⟨found, .opened quote⟩ (c :: cs) = scan ⟨found, .short quote [] false⟩ (c :: cs) := by
  rw [scan_cons, scan_cons]
  change (if c = quote.mark then _ else stepShort ⟨found, .opened quote⟩ quote [] c).bind _ = _
  rw [if_neg hc]
  rfl

theorem stepShort_of_ne (hquote : c ≠ quote.mark) (hbreak : c ∉ lineBreaks) (body : List Char) :
    s.stepShort quote body c = some { s with mode := .short quote (body ++ [c]) (c == '\\') } := by
  rw [stepShort, if_neg hquote, if_neg hbreak]

/-- A body without quotes of its kind, line breaks and escapes is read to its end. -/
theorem scan_short : ∀ {cs : List Char} (_ : quote.mark ∉ cs) (_ : ∀ c ∈ cs, c ∉ lineBreaks)
    (_ : inert cs = true) (body : List Char),
    scan ⟨found, .short quote body false⟩ cs = some ⟨found, .short quote (body ++ cs) false⟩
  | [], _, _, _, body => by
    rw [List.append_nil]
    rfl
  | c :: cs, hquote, hbreaks, hinert, body => by
    rw [List.mem_cons, not_or] at hquote
    obtain ⟨hc, hcs⟩ := List.forall_mem_cons.mp hbreaks
    obtain ⟨hescape, hrest⟩ := inert_cons.mp hinert
    rw [scan_cons]
    change (stepShort ⟨found, .short quote body false⟩ quote body c).bind _ = _
    rw [stepShort_of_ne (Ne.symm hquote.1) hc, Option.bind_some]
    by_cases hback : c = '\\'
    · obtain ⟨d, ds, rfl, -⟩ := hescape hback
      subst hback
      rw [List.mem_cons, not_or] at hquote
      change scan ⟨found, .short quote (body ++ ['\\'] ++ [d]) false⟩ ds = _
      rw [scan_short hquote.2.2 (List.forall_mem_cons.mp hcs).2 (inert_cons.mp hrest).2]
      simp
    · rw [beq_eq_false_iff_ne.mpr hback, scan_short hquote.2 hcs hrest]
      simp

/-- After two quotes anything but a third one is outside. -/
theorem scan_paired {t : String} (ht : Outer t) (hend : EndsApart t) :
    scan ⟨found, .paired quote⟩ t.toList =
      scan ⟨found ++ [⟨[], quote, false⟩], .code false⟩ t.toList := by
  obtain ⟨front, last, hlist, -⟩ := hend.exists_concat
  obtain ⟨c, cs, hcons⟩ := List.exists_cons_of_ne_nil (List.concat_ne_nil last front)
  rw [← hlist] at hcons
  have hc : c ≠ quote.mark := by
    intro heq
    have hmem := ht c (by rw [hcons]; exact List.mem_cons_self)
    cases quote <;> exact hmem (by rw [heq]; decide)
  rw [hcons, scan_cons, scan_cons]
  change (if c = quote.mark then _ else _ : Option LiteralScan).bind _ = _
  rw [if_neg hc]
  rfl

/-- A bare word between double quotes is found as it is. -/
theorem scan_quoted (hquote : '"' ∉ cs) (hbreaks : ∀ c ∈ cs, c ∉ lineBreaks)
    (hinert : inert cs = true) {t : String} (ht : Outer t) (hend : EndsApart t) :
    scan ⟨found, .code false⟩ ('"' :: (cs ++ '"' :: t.toList)) =
      some ⟨found ++ [⟨cs, .double, false⟩], .code false⟩ := by
  cases cs with
  | nil =>
    change scan ⟨found, .paired .double⟩ t.toList = _
    rw [scan_paired ht hend]
    exact scan_endsApart ht hend false
  | cons c cs =>
    have hc : c ≠ Quote.double.mark := fun heq => hquote (by simp [heq, Quote.mark])
    change scan ⟨found, .opened .double⟩ (c :: (cs ++ '"' :: t.toList)) = _
    rw [scan_opened hc, ← List.cons_append, scan_append, scan_short hquote hbreaks hinert]
    exact scan_endsApart ht hend false

end LiteralScan

/-- Outside literals, in code or in a comment. -/
def LiteralMode.isOutside : LiteralMode → Bool
  | code _ | comment | joining => true
  | _ => false

/-- Outside literals, or at the first quote of one. -/
def LiteralMode.isFresh : LiteralMode → Bool
  | opened _ => true
  | mode => mode.isOutside

/-- In the body of a literal, or right before it. -/
def LiteralMode.isInside : LiteralMode → Bool
  | opened _ | short .. | long .. => true
  | _ => false

/-- In code or in a comment. -/
def LiteralMode.isPassing : LiteralMode → Bool
  | code _ | comment => true
  | _ => false

/-- In a body, after a character that does not end it. -/
def LiteralMode.Held (c : Char) (mode : LiteralMode) : Prop :=
  (∃ quote body, mode = short quote (body ++ [c]) false) ∨
    ∃ quote body, mode = long quote (body ++ [c]) false 0

/-- How much text a literal takes with its quotes. -/
def Literal.size (l : Literal) : Nat := l.body.length + if l.long then 6 else 2

namespace LiteralScan

/-- What a character can do. -/
inductive Moves : Char → LiteralScan → LiteralScan → Prop
  | outside {c found mode mode'} (hmode : mode.isOutside = true) (hmode' : mode'.isFresh = true) :
    Moves c ⟨found, mode⟩ ⟨found, mode'⟩
  | pair {quote found} : Moves quote.mark ⟨found, .opened quote⟩ ⟨found, .paired quote⟩
  | triple {quote found} : Moves quote.mark ⟨found, .paired quote⟩ ⟨found, .long quote [] false 0⟩
  | unpair {c quote found mode'} (hmode' : mode'.isFresh = true) :
    Moves c ⟨found, .paired quote⟩ ⟨found ++ [⟨[], quote, false⟩], mode'⟩
  | start {c quote found} (hc : c ≠ quote.mark) :
    Moves c ⟨found, .opened quote⟩ ⟨found, .short quote [c] (c == '\\')⟩
  | extend {c quote found body} (hc : c ≠ quote.mark) :
    Moves c ⟨found, .short quote body false⟩ ⟨found, .short quote (body ++ [c]) (c == '\\')⟩
  | keep {c quote found body} :
    Moves c ⟨found, .short quote body true⟩ ⟨found, .short quote (body ++ [c]) false⟩
  | finish {quote found body} :
    Moves quote.mark ⟨found, .short quote body false⟩ ⟨found ++ [⟨body, quote, false⟩], .code false⟩
  | extendLong {c quote found body count} :
    Moves c ⟨found, .long quote body false count⟩
      ⟨found, .long quote (body ++ List.replicate count quote.mark ++ [c]) (c == '\\') 0⟩
  | keepLong {c quote found body count} :
    Moves c ⟨found, .long quote body true count⟩ ⟨found, .long quote (body ++ [c]) false 0⟩
  | count {quote found body count} :
    Moves quote.mark ⟨found, .long quote body false count⟩
      ⟨found, .long quote body false (count + 1)⟩
  | finishLong {quote found body} :
    Moves quote.mark ⟨found, .long quote body false 2⟩
      ⟨found ++ [⟨body, quote, true⟩], .code false⟩

section Moves

variable {s t : LiteralScan} {found : List Literal} {cs : List Char} {c : Char} {quote : Quote}

theorem isFresh_of_stepCode {afterName : Bool} (h : s.stepCode afterName c = some t) :
    ∃ mode, mode.isFresh = true ∧ t = ⟨s.found, mode⟩ := by
  unfold stepCode at h
  split at h
  · split_ifs at h
    exact ⟨_, rfl, (Option.some.inj h).symm⟩
  · split_ifs at h <;> exact ⟨_, rfl, (Option.some.inj h).symm⟩

/-- In a literal that one quote ends, before its first character or after it. -/
theorem moves_of_stepShort {mode : LiteralMode} {body : List Char}
    (hmode : mode = .short quote body false ∨ mode = .opened quote ∧ body = [] ∧ c ≠ quote.mark)
    (h : stepShort ⟨found, mode⟩ quote body c = some t) : Moves c ⟨found, mode⟩ t := by
  unfold stepShort at h
  split_ifs at h with hquote
  · obtain rfl := Option.some.inj h
    subst hquote
    rcases hmode with rfl | ⟨_, _, hc⟩
    · exact .finish
    · exact absurd rfl hc
  · obtain rfl := Option.some.inj h
    rcases hmode with rfl | ⟨rfl, rfl, _⟩
    · exact .extend hquote
    · exact .start hquote

theorem moves_of_step (h : s.step c = some t) : Moves c s t := by
  obtain ⟨found, mode⟩ := s
  cases mode with
  | code afterName =>
    obtain ⟨mode, hmode, rfl⟩ := isFresh_of_stepCode h
    exact .outside rfl hmode
  | comment =>
    obtain rfl := Option.some.inj h
    split <;> exact .outside rfl rfl
  | joining =>
    simp only [step] at h
    split_ifs at h
    obtain rfl := Option.some.inj h
    exact .outside rfl rfl
  | opened quote =>
    simp only [step] at h
    split_ifs at h with hquote
    · obtain rfl := Option.some.inj h
      subst hquote
      exact .pair
    · exact moves_of_stepShort (Or.inr ⟨rfl, rfl, hquote⟩) h
  | paired quote =>
    simp only [step] at h
    split_ifs at h with hquote
    · obtain rfl := Option.some.inj h
      subst hquote
      exact .triple
    · obtain ⟨mode, hmode, rfl⟩ := isFresh_of_stepCode h
      exact .unpair hmode
  | short quote body escaped =>
    cases escaped with
    | false => exact moves_of_stepShort (Or.inl rfl) h
    | true =>
      obtain rfl := Option.some.inj h
      exact .keep
  | long quote body escaped count =>
    cases escaped with
    | true =>
      obtain rfl := Option.some.inj h
      exact .keepLong
    | false =>
      obtain rfl := Option.some.inj h
      unfold stepLong
      split_ifs with hquote htwo
      · exact .extendLong
      · obtain rfl := not_not.mp hquote
        subst htwo
        exact .finishLong
      · obtain rfl := not_not.mp hquote
        exact .count

/-- The literals that have ended stay. -/
theorem Moves.found_append (h : Moves c s t) : ∃ new, t.found = s.found ++ new := by
  cases h with
  | unpair | finish | finishLong => exact ⟨_, rfl⟩
  | _ => exact ⟨[], (List.append_nil _).symm⟩

/-- A body with a line feed that no backslash stands before. -/
def Torn (body : List Char) : Prop :=
  ∃ front c back, body = front ++ c :: '\n' :: back ∧ c ≠ '\\'

theorem Torn.append {body : List Char} (h : Torn body) (more : List Char) :
    Torn (body ++ more) := by
  obtain ⟨front, c, back, rfl, hc⟩ := h
  exact ⟨front, c, back ++ more, by simp, hc⟩

/-- Some literal is torn, be it over or not. -/
def Spoiled (s : LiteralScan) : Prop :=
  (∃ l ∈ s.found, Torn l.body) ∨
    ∃ quote body escaped count, s.mode = .long quote body escaped count ∧ Torn body

theorem Moves.spoiled (h : Moves c s t) (hs : s.Spoiled) : t.Spoiled := by
  rcases hs with ⟨l, hl, htorn⟩ | ⟨quote, body, escaped, count, hmode, htorn⟩
  · obtain ⟨new, hnew⟩ := h.found_append
    exact Or.inl ⟨l, by rw [hnew]; exact List.mem_append_left new hl, htorn⟩
  · cases h with
    | extendLong =>
      cases hmode
      exact Or.inr ⟨_, _, _, _, rfl, (htorn.append _).append _⟩
    | keepLong =>
      cases hmode
      exact Or.inr ⟨_, _, _, _, rfl, htorn.append _⟩
    | count =>
      cases hmode
      exact Or.inr ⟨_, _, _, _, rfl, htorn⟩
    | finishLong =>
      cases hmode
      exact Or.inl ⟨_, List.mem_append_right _ List.mem_cons_self, htorn⟩
    | outside houtside =>
      cases hmode
      cases houtside
    | _ => cases hmode

/-- Every double quote in a body stands right behind a backslash. -/
def Guarded (body : List Char) : Prop :=
  ∀ front back, body = front ++ '"' :: back → ∃ rest, front = rest ++ ['\\']

theorem Guarded.concat {body : List Char} (h : Guarded body)
    (hc : c = '"' → ∃ rest, body = rest ++ ['\\']) : Guarded (body ++ [c]) := by
  intro front back heq
  rcases List.eq_nil_or_concat back with rfl | ⟨inner, d, rfl⟩
  · obtain ⟨rfl, hlast⟩ := List.append_inj' heq rfl
    exact hc (List.cons.inj hlast).1
  · rw [List.concat_eq_append, ← List.cons_append, ← List.append_assoc] at heq
    exact h front inner (List.append_inj' heq rfl).1

theorem Guarded.not_mem {body : List Char} (h : Guarded body) (hinert : inert body = true) :
    '"' ∉ body := by
  intro hmem
  obtain ⟨front, back, rfl⟩ := List.append_of_mem hmem
  obtain ⟨rest, rfl⟩ := h front back rfl
  rw [List.append_assoc] at hinert
  exact not_mem_escapeMarks_of_inert hinert (by decide)

/-- Where a scan can be after a double quote and what follows it, in `n` characters: in the literal
that the quote opens, or beyond it. -/
def Since (found : List Literal) (n : Nat) (s : LiteralScan) : Prop :=
  (s.found = found ∧
    match s.mode with
    | .opened quote => quote = .double ∧ 1 ≤ n
    | .paired quote => quote = .double ∧ 2 ≤ n
    | .short quote body escaped => quote = .double ∧ body.length + 1 ≤ n ∧ Guarded body ∧
        (escaped = true → ∃ rest, body = rest ++ ['\\'])
    | .long quote body _ count => quote = .double ∧ body.length + count + 3 ≤ n
    | _ => False) ∨
  ∃ l rest, s.found = found ++ l :: rest ∧ l.size ≤ n ∧ (l.long = false → Guarded l.body)

theorem Moves.since (h : Moves c s t) {n : Nat} (hs : s.Since found n) :
    t.Since found (n + 1) := by
  rcases hs with ⟨hfound, hmode⟩ | ⟨l, rest, hfound, hsize, hguarded⟩
  · have hbackslash (body : List Char) (hescaped : (c == '\\') = true) :
        ∃ rest, body ++ [c] = rest ++ ['\\'] := ⟨body, by rw [eq_of_beq hescaped]⟩
    cases h with
    | @outside _ _ mode _ houtside =>
      cases mode with
      | code | comment | joining => exact hmode.elim
      | _ => cases houtside
    | pair => exact Or.inl ⟨hfound, hmode.1, by omega⟩
    | triple => exact Or.inl ⟨hfound, hmode.1, by simpa using hmode.2⟩
    | unpair =>
      refine Or.inr ⟨_, [], congrArg (· ++ _) hfound, ?_, fun _ front back heq => ?_⟩
      · exact Nat.le_succ_of_le hmode.2
      · simp at heq
    | start hc =>
      obtain ⟨rfl, hn⟩ := hmode
      have hempty : Guarded [] := fun front back heq => by simp at heq
      have hguarded : Guarded ([] ++ [c]) := hempty.concat fun heq => absurd heq hc
      exact Or.inl ⟨hfound, rfl, by simpa using hn, hguarded, hbackslash []⟩
    | extend hc =>
      obtain ⟨rfl, hn, hguarded, _⟩ := hmode
      refine Or.inl ⟨hfound, rfl, by simpa using hn, ?_, hbackslash _⟩
      exact hguarded.concat fun heq => absurd heq hc
    | keep =>
      obtain ⟨rfl, hn, hguarded, hescaped⟩ := hmode
      exact Or.inl ⟨hfound, rfl, by simpa using hn, hguarded.concat fun _ => hescaped rfl, nofun⟩
    | finish =>
      obtain ⟨rfl, hn, hguarded, _⟩ := hmode
      exact Or.inr ⟨_, [], congrArg (· ++ _) hfound, Nat.succ_le_succ hn, fun _ => hguarded⟩
    | extendLong =>
      refine Or.inl ⟨hfound, hmode.1, ?_⟩
      have hn := hmode.2
      simp only [List.length_append, List.length_replicate, List.length_singleton]
      omega
    | keepLong =>
      refine Or.inl ⟨hfound, hmode.1, ?_⟩
      have hn := hmode.2
      simp only [List.length_append, List.length_singleton]
      omega
    | count => exact Or.inl ⟨hfound, hmode.1, by have hn := hmode.2; omega⟩
    | finishLong => exact Or.inr ⟨_, [], congrArg (· ++ _) hfound, Nat.succ_le_succ hmode.2, nofun⟩
  · obtain ⟨new, hnew⟩ := h.found_append
    exact Or.inr ⟨l, rest ++ new, by rw [hnew, hfound]; simp, Nat.le_succ_of_le hsize, hguarded⟩

theorem mark_mem_outerMarks (quote : Quote) : quote.mark ∈ outerMarks := by
  cases quote <;> decide

/-- Nothing but a quote leads out of a literal. -/
theorem Moves.held (h : Moves c s t) (hc : c ∉ outerMarks) (hs : s.mode.isInside = true) :
    t.mode.Held c := by
  have hback : (c == '\\') = false := beq_eq_false_iff_ne.mpr fun heq => hc (heq ▸ by decide)
  cases h with
  | @outside _ _ mode _ houtside =>
    cases mode with
    | code | comment | joining => cases hs
    | _ => cases houtside
  | pair | triple | finish | count | finishLong => exact absurd (mark_mem_outerMarks _) hc
  | unpair => cases hs
  | start =>
    rw [hback]
    exact Or.inl ⟨_, [], rfl⟩
  | extend =>
    rw [hback]
    exact Or.inl ⟨_, _, rfl⟩
  | keep => exact Or.inl ⟨_, _, rfl⟩
  | extendLong =>
    rw [hback]
    exact Or.inr ⟨_, _, rfl⟩
  | keepLong => exact Or.inr ⟨_, _, rfl⟩

theorem isInside_of_held {mode : LiteralMode} (h : mode.Held c) : mode.isInside = true := by
  rcases h with ⟨quote, body, rfl⟩ | ⟨quote, body, rfl⟩ <;> rfl

/-- Outside literals nothing but a quote opens one. -/
theorem isPassing_of_step (h : s.step c = some t) (hc : c ∉ outerMarks)
    (hs : s.mode.isInside = false) : t.mode.isPassing = true := by
  obtain ⟨found, mode⟩ := s
  cases mode with
  | code afterName =>
    change stepCode _ afterName c = _ at h
    rw [stepCode_of_outer hc] at h
    obtain rfl := Option.some.inj h
    rfl
  | comment =>
    obtain rfl := Option.some.inj h
    split <;> rfl
  | joining =>
    simp only [step] at h
    split_ifs at h
    obtain rfl := Option.some.inj h
    rfl
  | paired quote =>
    have hquote : c ≠ quote.mark := fun heq => hc (heq ▸ mark_mem_outerMarks quote)
    simp only [step] at h
    rw [if_neg hquote, stepCode_of_outer hc] at h
    obtain rfl := Option.some.inj h
    rfl
  | opened | short | long => cases hs

theorem isInside_of_isPassing {mode : LiteralMode} (h : mode.isPassing = true) :
    mode.isInside = false := by
  cases mode with
  | code | comment => rfl
  | _ => cases h

/-- A literal on one line is not over at the end of the line, and a longer one is torn there. -/
theorem spoiled_of_lineFeed (h : s.step '\n' = some t) (hs : s.mode.Held c) (hc : c ≠ '\\') :
    t.Spoiled := by
  have hquote (quote : Quote) : '\n' ≠ quote.mark := by cases quote <;> decide
  obtain ⟨found, mode⟩ := s
  rcases hs with ⟨quote, body, hmode⟩ | ⟨quote, body, hmode⟩
  · obtain rfl : mode = _ := hmode
    change stepShort _ quote (body ++ [c]) '\n' = _ at h
    rw [stepShort, if_neg (hquote quote), if_pos (by decide)] at h
    cases h
  · obtain rfl : mode = _ := hmode
    obtain rfl := Option.some.inj h
    rw [stepLong, if_pos (hquote quote)]
    exact Or.inr ⟨_, _, _, _, rfl, body, c, [], by simp, hc⟩

theorem code_of_lineFeed (h : s.step '\n' = some t) (hs : s.mode.isPassing = true) :
    t.mode = .code false := by
  obtain ⟨found, mode⟩ := s
  cases mode with
  | code afterName =>
    obtain rfl := Option.some.inj h
    rfl
  | comment =>
    obtain rfl := Option.some.inj h
    rfl
  | _ => cases hs

/-- What every character keeps is kept by a text. -/
theorem scan_invariant {P : LiteralScan → Prop}
    (hstep : ∀ c ∈ cs, ∀ {s t : LiteralScan}, P s → s.step c = some t → P t) (hs : P s)
    (h : s.scan cs = some t) : P t := by
  induction cs generalizing s with
  | nil =>
    obtain rfl := Option.some.inj h
    exact hs
  | cons c cs ih =>
    obtain ⟨u, hu, hrest⟩ := scan_cons_eq_some.mp h
    exact ih (fun d hd => hstep d (List.mem_cons_of_mem c hd))
      (hstep c List.mem_cons_self hs hu) hrest

theorem Spoiled.scan (hs : s.Spoiled) (h : s.scan cs = some t) : t.Spoiled :=
  scan_invariant (fun _ _ _ _ hs h => (moves_of_step h).spoiled hs) hs h

theorem found_append_of_scan (h : s.scan cs = some t) : ∃ new, t.found = s.found ++ new := by
  refine scan_invariant (P := fun t => ∃ new, t.found = s.found ++ new) ?_
    ⟨[], (List.append_nil _).symm⟩ h
  rintro c - u v ⟨new, hnew⟩ hstep
  obtain ⟨more, hmore⟩ := (moves_of_step hstep).found_append
  exact ⟨new ++ more, by rw [hmore, hnew, List.append_assoc]⟩

theorem Since.scan {n : Nat} (hs : s.Since found n) (h : s.scan cs = some t) :
    t.Since found (n + cs.length) := by
  induction cs generalizing s n with
  | nil =>
    obtain rfl := Option.some.inj h
    exact hs
  | cons c cs ih =>
    obtain ⟨u, hu, hrest⟩ := scan_cons_eq_some.mp h
    rw [List.length_cons, Nat.add_comm cs.length, ← Nat.add_assoc]
    exact ih ((moves_of_step hu).since hs) hrest

end Moves

end LiteralScan

/-- A text that comes to the end of a line and has only blanks after it. -/
def BreaksOff (s : String) : Prop := ∃ c front back, s.toList = c :: front ++ '\n' :: back ∧
  (∀ d ∈ c :: front, d ∉ outerMarks) ∧ ∀ d ∈ back, d = ' ' ∨ d = '\n'

namespace LiteralScan

variable {s t : LiteralScan} {found : List Literal} {cs : List Char} {c : Char} {quote : Quote}

/-- At the end of a line a scan is outside literals, and was so where the text began; or else it has
gone through the end of the line in a literal. -/
theorem code_or_spoiled {text : String} (htext : BreaksOff text)
    (h : s.scan text.toList = some t) :
    t.Spoiled ∨ t.mode = .code false ∧ s.mode.isInside = false := by
  obtain ⟨c, front, back, hlist, hfront, hback⟩ := htext
  obtain ⟨hc, hfront⟩ := List.forall_mem_cons.mp hfront
  rw [hlist, List.cons_append] at h
  obtain ⟨s₁, hfirst, h⟩ := scan_cons_eq_some.mp h
  obtain ⟨s₂, hscan, h⟩ := scan_append_eq_some.mp h
  obtain ⟨s₃, hfeed, hrest⟩ := scan_cons_eq_some.mp h
  cases hs : s.mode.isInside with
  | true =>
    have hheld : ∃ d ∉ outerMarks, s₂.mode.Held d := by
      refine scan_invariant (P := fun s => ∃ d ∉ outerMarks, s.mode.Held d) ?_
        ⟨c, hc, (moves_of_step hfirst).held hc hs⟩ hscan
      rintro d hd u v ⟨e, -, he⟩ hstep
      exact ⟨d, hfront d hd, (moves_of_step hstep).held (hfront d hd) (isInside_of_held he)⟩
    obtain ⟨d, hd, hheld⟩ := hheld
    refine Or.inl ((spoiled_of_lineFeed hfeed hheld ?_).scan hrest)
    rintro rfl
    exact hd (by decide)
  | false =>
    have hpassing : s₂.mode.isPassing = true := by
      refine scan_invariant (P := fun s => s.mode.isPassing = true) ?_
        (isPassing_of_step hfirst hc hs) hscan
      exact fun d hd u v hu hstep =>
        isPassing_of_step hstep (hfront d hd) (isInside_of_isPassing hu)
    refine Or.inr ⟨?_, rfl⟩
    refine scan_invariant (P := fun s => s.mode = .code false) ?_
      (code_of_lineFeed hfeed hpassing) hrest
    intro d hd u v hu hstep
    obtain ⟨found, mode⟩ := u
    obtain rfl : mode = _ := hu
    rcases hback d hd with rfl | rfl <;> obtain rfl := Option.some.inj hstep <;> rfl

end LiteralScan

end ModuleSource.Text
