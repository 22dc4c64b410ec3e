import Mathlib.Tactic.Common

/-!
What the body of a literal denotes. A backslash makes an escape with what follows it: a letter or a
mark stands for one character, digits to the base eight or sixteen for the character of that number,
and a name in braces for the character of that name, by a table that is left open here. A backslash
before a line feed stands for nothing, and one before any other character for itself. Main
statement: a body denotes itself just if none of its backslashes makes an escape, and otherwise it
denotes less characters than it has.
-/

namespace ModuleSource.Text

/-- Where the reading of a body is. -/
inductive EscapeMode where
  | plain
  /-- After a backslash. -/
  | escaped
  /-- In a number to the base eight, with at most so many digits to come. -/
  | octal (left value : Nat)
  /-- In a number to the base sixteen, with so many digits to come. -/
  | hex (left value : Nat)
  /-- Before the braces of a name. -/
  | named
  | naming (name : List Char)
deriving DecidableEq

/-- What has been read of a body: the numbers of the characters it denotes so far. -/
structure Unescaping where
  output : List Nat := []
  mode : EscapeMode := .plain
deriving DecidableEq

/-- What a single character stands for after a backslash. -/
def letterEscapes : List (Char × List Nat) :=
  [('\n', []), ('\\', [92]), ('\'', [39]), ('"', [34]), ('a', [7]), ('b', [8]), ('f', [12]),
    ('n', [10]), ('r', [13]), ('t', [9]), ('v', [11])]

/-- How many digits to the base sixteen follow a letter. -/
def hexEscapes : List (Char × Nat) := [('x', 2), ('u', 4), ('U', 8)]

def octalDigits : List Char := ['0', '1', '2', '3', '4', '5', '6', '7']

/-- The digits to the base sixteen, in both spellings. -/
def hexDigits : List (Char × Nat) :=
  [('0', 0), ('1', 1), ('2', 2), ('3', 3), ('4', 4), ('5', 5), ('6', 6), ('7', 7), ('8', 8),
    ('9', 9), ('a', 10), ('b', 11), ('c', 12), ('d', 13), ('e', 14), ('f', 15), ('A', 10),
    ('B', 11), ('C', 12), ('D', 13), ('E', 14), ('F', 15)]

/-- The greatest number of a character. -/
def maxCode : Nat := 0x10FFFF

/-- The characters that the names of characters are written with. -/
def isNameLetter (c : Char) : Bool := c.isAlphanum || c == ' ' || c == '-'

namespace Unescaping

/-- Outside of escapes. -/
def push (output : List Nat) (c : Char) : Unescaping :=
  if c = '\\' then ⟨output, .escaped⟩ else ⟨output ++ [c.toNat], .plain⟩

/-- After a backslash. -/
def escape (output : List Nat) (c : Char) : Unescaping :=
  match letterEscapes.lookup c, hexEscapes.lookup c with
  | some codes, _ => ⟨output ++ codes, .plain⟩
  | none, some digits => ⟨output, .hex digits 0⟩
  | none, none =>
    if c ∈ octalDigits then ⟨output, .octal 2 (c.toNat - '0'.toNat)⟩
    else if c = 'N' then ⟨output, .named⟩
    else ⟨output ++ ['\\'.toNat, c.toNat], .plain⟩

def step (names : List Char → Option Nat) (d : Unescaping) (c : Char) : Option Unescaping :=
  match d.mode with
  | .plain => some (push d.output c)
  | .escaped => some (escape d.output c)
  | .octal left value =>
    if left ≠ 0 ∧ c ∈ octalDigits then
      some { d with mode := .octal (left - 1) (8 * value + (c.toNat - '0'.toNat)) }
    else some (push (d.output ++ [value]) c)
  | .hex left value =>
    match hexDigits.lookup c with
    | none => none
    | some digit =>
      if 1 < left then some { d with mode := .hex (left - 1) (16 * value + digit) }
      else if 16 * value + digit ≤ maxCode then some ⟨d.output ++ [16 * value + digit], .plain⟩
      else none
  | .named => if c = '{' then some { d with mode := .naming [] } else none
  | .naming name =>
    if c = '}' then (names name).map fun code => ⟨d.output ++ [code], .plain⟩
    else if isNameLetter c then some { d with mode := .naming (name ++ [c]) }
    else none

/-- What is denoted, unless the body ends inside an escape. -/
def finish (d : Unescaping) : Option (List Nat) :=
  match d.mode with
  | .plain => some d.output
  | .octal _ value => some (d.output ++ [value])
  | _ => none

end Unescaping

/-- The numbers of the characters that a body denotes; none if it has a broken escape. -/
def unescape (names : List Char → Option Nat) (body : List Char) : Option (List Nat) :=
  (body.foldlM (Unescaping.step names) {}).bind Unescaping.finish

/-- The characters that make an escape with a backslash before them. -/
def escapeMarks : List Char :=
  letterEscapes.map Prod.fst ++ hexEscapes.map Prod.fst ++ octalDigits ++ ['N']

/-- Whether every backslash is followed by a character that it makes no escape with. -/
def inert : List Char → Bool
  | [] => true
  | c :: cs => (c != '\\' || cs.head?.any fun d => !escapeMarks.contains d) && inert cs

example : unescape (fun _ => none) "C:\\path\\\\ \\x41\\1018".toList =
    some ("C:\\path\\ AA8".toList.map Char.toNat) := by decide

example : unescape (fun _ => none) "C:\\users".toList = none := by decide

section Inert

variable {c : Char} {cs ds : List Char}

theorem inert_cons : inert (c :: cs) = true ↔
    (c = '\\' → ∃ d ds, cs = d :: ds ∧ d ∉ escapeMarks) ∧ inert cs = true := by
  rw [inert, Bool.and_eq_true, Bool.or_eq_true, bne_iff_ne, ← Decidable.imp_iff_not_or]
  refine and_congr (imp_congr_right fun _ => ?_) Iff.rfl
  cases cs with
  | nil => simp
  | cons d ds => simp

theorem inert_append (hcs : inert cs = true) (hds : inert ds = true) :
    inert (cs ++ ds) = true := by
  induction cs with
  | nil => exact hds
  | cons c cs ih =>
    rw [inert_cons] at hcs
    rw [List.cons_append, inert_cons]
    refine ⟨fun hc => ?_, ih hcs.2⟩
    obtain ⟨d, rest, rfl, hd⟩ := hcs.1 hc
    exact ⟨d, rest ++ ds, rfl, hd⟩

theorem not_mem_escapeMarks_of_inert {front rest : List Char}
    (h : inert (front ++ '\\' :: c :: rest) = true) : c ∉ escapeMarks := by
  induction front with
  | nil =>
    obtain ⟨d, ds, heq, hd⟩ := (inert_cons.mp h).1 rfl
    obtain ⟨rfl, rfl⟩ := List.cons.inj heq
    exact hd
  | cons b front ih => exact ih (inert_cons.mp h).2

/-- A change of characters that make no escapes makes none. -/
theorem inert_map {f : Char → Char} (hback : ∀ c, f c = '\\' ↔ c = '\\')
    (hmarks : ∀ c, f c ∈ escapeMarks ↔ c ∈ escapeMarks) (cs : List Char) :
    inert (cs.map f) = true ↔ inert cs = true := by
  induction cs with
  | nil => rfl
  | cons c cs ih =>
    rw [List.map_cons, inert_cons, inert_cons, ih, hback]
    refine and_congr (imp_congr_right fun _ => ?_) Iff.rfl
    cases cs with
    | nil => simp
    | cons d ds =>
      constructor
      · rintro ⟨_, _, heq, hd⟩
        obtain ⟨rfl, rfl⟩ := List.cons.inj heq
        exact ⟨d, ds, rfl, fun hmem => hd ((hmarks d).mpr hmem)⟩
      · rintro ⟨_, _, heq, hd⟩
        obtain ⟨rfl, rfl⟩ := List.cons.inj heq
        exact ⟨f d, ds.map f, rfl, fun hmem => hd ((hmarks d).mp hmem)⟩

theorem inert_of_not_mem (h : '\\' ∉ cs) : inert cs = true := by
  induction cs with
  | nil => rfl
  | cons c cs ih =>
    rw [List.mem_cons, not_or] at h
    exact inert_cons.mpr ⟨fun hc => absurd hc.symm h.1, ih h.2⟩

end Inert

namespace Unescaping

variable {names : List Char → Option Nat} {d d' : Unescaping} {c : Char} {body : List Char}

private theorem lookup_eq_none_iff_keys {α : Type} {entries : List (Char × α)} :
    entries.lookup c = none ↔ c ∉ entries.map Prod.fst := by
  rw [List.lookup_eq_none_iff]
  simp only [bne_iff_ne, List.mem_map, not_exists, not_and]
  exact ⟨fun h entry hentry heq => h entry hentry heq.symm,
    fun h entry hentry heq => h entry hentry heq.symm⟩

theorem not_mem_escapeMarks : c ∉ escapeMarks ↔
    letterEscapes.lookup c = none ∧ hexEscapes.lookup c = none ∧ c ∉ octalDigits ∧ c ≠ 'N' := by
  simp only [escapeMarks, List.mem_append, not_or, lookup_eq_none_iff_keys, List.mem_singleton,
    and_assoc, ne_eq]

theorem escape_of_not_mem (h : c ∉ escapeMarks) (output : List Nat) :
    escape output c = ⟨output ++ ['\\'.toNat, c.toNat], .plain⟩ := by
  obtain ⟨hletter, hhex, hoctal, hnamed⟩ := not_mem_escapeMarks.mp h
  unfold escape
  rw [hletter, hhex]
  dsimp only
  rw [if_neg hoctal, if_neg hnamed]

theorem foldlM_cons_eq_some : (c :: body).foldlM (step names) d = some d' ↔
    ∃ d₁, step names d c = some d₁ ∧ body.foldlM (step names) d₁ = some d' := by
  rw [List.foldlM_cons, Option.bind_eq_bind, Option.bind_eq_some_iff]

/-- A body without escapes is read as it is. -/
theorem foldlM_of_inert : ∀ {body : List Char}, inert body = true → ∀ output : List Nat,
    body.foldlM (step names) ⟨output, .plain⟩ = some ⟨output ++ body.map Char.toNat, .plain⟩
  | [], _, output => by simp
  | c :: cs, h, output => by
    obtain ⟨hescape, hrest⟩ := inert_cons.mp h
    by_cases hc : c = '\\'
    · obtain ⟨e, rest, rfl, he⟩ := hescape hc
      subst hc
      rw [List.foldlM_cons]
      change ((e :: rest).foldlM (step names) ⟨output, .escaped⟩ : Option Unescaping) = _
      rw [List.foldlM_cons]
      change (rest.foldlM (step names) (escape output e) : Option Unescaping) = _
      rw [escape_of_not_mem he, foldlM_of_inert (inert_cons.mp hrest).2, List.append_assoc]
      rfl
    · have hpush : push output c = ⟨output ++ [c.toNat], .plain⟩ := if_neg hc
      rw [List.foldlM_cons]
      change (cs.foldlM (step names) (push output c) : Option Unescaping) = _
      rw [hpush, foldlM_of_inert hrest, List.append_assoc]
      rfl

/-- Inside an escape of more than one character. -/
def Counting (d : Unescaping) : Prop := d.mode ≠ .plain ∧ d.mode ≠ .escaped

/-- What a character does: it completes a backslash, stands for itself, or belongs to the escape
that is being read. -/
theorem step_cases (hstep : step names d c = some d') :
    (d.mode = .escaped ∧ d' = escape d.output c) ∨
      (∃ output, d.mode ≠ .escaped ∧ d.finish = some output ∧ d' = push output c) ∨
      d.Counting ∧ c ≠ '\n' ∧
        (d'.Counting ∧ d'.output = d.output ∨ ∃ code, d' = ⟨d.output ++ [code], .plain⟩) := by
  obtain ⟨output, mode⟩ := d
  cases mode with
  | plain =>
    obtain rfl := Option.some.inj hstep
    exact Or.inr (Or.inl ⟨output, nofun, rfl, rfl⟩)
  | escaped =>
    obtain rfl := Option.some.inj hstep
    exact Or.inl ⟨rfl, rfl⟩
  | octal left value =>
    simp only [step] at hstep
    split_ifs at hstep with hdigit
    · obtain rfl := Option.some.inj hstep
      refine Or.inr (Or.inr ⟨⟨nofun, nofun⟩, ?_, Or.inl ⟨⟨nofun, nofun⟩, rfl⟩⟩)
      rintro rfl
      exact absurd hdigit.2 (by decide)
    · obtain rfl := Option.some.inj hstep
      exact Or.inr (Or.inl ⟨output ++ [value], nofun, rfl, rfl⟩)
  | hex left value =>
    refine Or.inr (Or.inr ⟨⟨nofun, nofun⟩, ?_, ?_⟩)
    · rintro rfl
      exact absurd hstep nofun
    · simp only [step] at hstep
      split at hstep
      · exact absurd hstep nofun
      · split_ifs at hstep <;> obtain rfl := Option.some.inj hstep
        · exact Or.inl ⟨⟨nofun, nofun⟩, rfl⟩
        · exact Or.inr ⟨_, rfl⟩
  | named =>
    simp only [step] at hstep
    split_ifs at hstep with hopen
    obtain rfl := Option.some.inj hstep
    exact Or.inr (Or.inr ⟨⟨nofun, nofun⟩, by rw [hopen]; decide, Or.inl ⟨⟨nofun, nofun⟩, rfl⟩⟩)
  | naming name =>
    simp only [step] at hstep
    split_ifs at hstep with hclose hletter
    · obtain ⟨code, _, rfl⟩ := Option.map_eq_some_iff.mp hstep
      exact Or.inr (Or.inr ⟨⟨nofun, nofun⟩, by rw [hclose]; decide, Or.inr ⟨code, rfl⟩⟩)
    · obtain rfl := Option.some.inj hstep
      refine Or.inr (Or.inr ⟨⟨nofun, nofun⟩, ?_, Or.inl ⟨⟨nofun, nofun⟩, rfl⟩⟩)
      rintro rfl
      exact absurd hletter (by decide)

/-- What has been read of a body against what it denotes: less characters than were read, or the
same ones and no escape among them. -/
def Shortens (read : List Char) (d : Unescaping) : Prop :=
  match d.mode with
  | .plain => d.output.length < read.length ∨
      d.output = read.map Char.toNat ∧ inert read = true
  | .escaped => d.output.length + 1 < read.length ∨
      ∃ front, read = front ++ ['\\'] ∧ d.output = front.map Char.toNat ∧ inert front = true
  | _ => d.output.length + 1 < read.length

theorem shortens_push {read : List Char} {output : List Nat}
    (h : output.length < read.length ∨ output = read.map Char.toNat ∧ inert read = true) :
    Shortens (read ++ [c]) (push output c) := by
  unfold push
  split
  next hc =>
    subst hc
    rcases h with hless | ⟨heq, hinert⟩
    · exact Or.inl (by simpa using hless)
    · exact Or.inr ⟨read, rfl, heq, hinert⟩
  next hc =>
    rcases h with hless | ⟨heq, hinert⟩
    · exact Or.inl (by simpa using hless)
    · refine Or.inr ⟨by simp [heq], inert_append hinert (inert_cons.mpr ⟨?_, rfl⟩)⟩
      exact fun hback => absurd hback hc

theorem shortens_escape {read : List Char} {output : List Nat}
    (h : output.length + 1 < read.length ∨
      ∃ front, read = front ++ ['\\'] ∧ output = front.map Char.toNat ∧ inert front = true) :
    Shortens (read ++ [c]) (escape output c) := by
  have hlength : output.length + 1 ≤ read.length := by
    rcases h with hless | ⟨front, rfl, rfl, _⟩
    · exact Nat.le_of_lt hless
    · simp
  unfold escape
  split
  next _ _ codes hlookup =>
    have hcodes : ∀ entry ∈ letterEscapes, entry.2.length ≤ 1 := by decide
    have hle : codes.length ≤ 1 := by
      obtain ⟨front, back, heq, _⟩ := List.lookup_eq_some_iff.mp hlookup
      exact hcodes (c, codes) (by rw [heq]; simp)
    refine Or.inl ?_
    simp only [List.length_append, List.length_singleton]
    omega
  next =>
    change output.length + 1 < _
    simp only [List.length_append, List.length_singleton]
    omega
  next hletter hhex =>
    split_ifs with hoctal hnamed
    · change output.length + 1 < _
      simp only [List.length_append, List.length_singleton]
      omega
    · change output.length + 1 < _
      simp only [List.length_append, List.length_singleton]
      omega
    · have hc : c ∉ escapeMarks := not_mem_escapeMarks.mpr ⟨hletter, hhex, hoctal, hnamed⟩
      have hback : '\\' ∈ escapeMarks := by decide
      rcases h with hless | ⟨front, rfl, rfl, hinert⟩
      · refine Or.inl ?_
        simp only [List.length_append, List.length_cons, List.length_nil]
        omega
      · refine Or.inr ⟨by simp, ?_⟩
        rw [List.append_assoc]
        refine inert_append hinert (inert_cons.mpr ⟨fun _ => ⟨c, [], rfl, hc⟩, ?_⟩)
        exact inert_cons.mpr ⟨fun heq => absurd (heq ▸ hback) hc, rfl⟩

theorem shortens_of_counting {read : List Char} (h : d.Counting) :
    Shortens read d ↔ d.output.length + 1 < read.length := by
  obtain ⟨output, mode⟩ := d
  cases mode with
  | plain => exact absurd rfl h.1
  | escaped => exact absurd rfl h.2
  | _ => exact Iff.rfl

theorem shortens_finish {read : List Char} {codes : List Nat} (h : Shortens read d)
    (hfinish : d.finish = some codes) :
    codes.length < read.length ∨ codes = read.map Char.toNat ∧ inert read = true := by
  obtain ⟨output, mode⟩ := d
  cases mode with
  | plain =>
    obtain rfl := Option.some.inj hfinish
    exact h
  | octal left value =>
    obtain rfl := Option.some.inj hfinish
    have hless : output.length + 1 < read.length := h
    exact Or.inl (by simpa using hless)
  | _ => exact absurd hfinish nofun

theorem shortens_step {read : List Char} (h : Shortens read d) (hstep : step names d c = some d') :
    Shortens (read ++ [c]) d' := by
  rcases step_cases hstep with ⟨hmode, rfl⟩ | ⟨output, _, hfinish, rfl⟩ | ⟨hcounting, _, hkept⟩
  · rw [Shortens, hmode] at h
    exact shortens_escape h
  · exact shortens_push (shortens_finish h hfinish)
  · rw [shortens_of_counting hcounting] at h
    rcases hkept with ⟨hcounting', houtput⟩ | ⟨code, rfl⟩
    · rw [shortens_of_counting hcounting', houtput]
      exact Nat.lt_of_lt_of_le h (by simp)
    · exact Or.inl (by simpa using Nat.lt_succ_of_lt h)

theorem shortens_foldlM {read : List Char} (h : Shortens read d)
    (hfold : body.foldlM (step names) d = some d') : Shortens (read ++ body) d' := by
  induction body generalizing read d with
  | nil =>
    obtain rfl := Option.some.inj hfold
    rwa [List.append_nil]
  | cons c body ih =>
    obtain ⟨d₁, hstep, hrest⟩ := foldlM_cons_eq_some.mp hfold
    rw [List.append_cons]
    exact ih (shortens_step h hstep) hrest

theorem output_subset_of_finish {codes : List Nat} (h : d.finish = some codes) :
    d.output ⊆ codes := by
  obtain ⟨output, mode⟩ := d
  cases mode with
  | plain =>
    obtain rfl := Option.some.inj h
    exact List.Subset.refl output
  | octal left value =>
    obtain rfl := Option.some.inj h
    exact List.subset_append_left output [value]
  | _ => exact absurd h nofun

theorem output_subset_of_step (hstep : step names d c = some d') : d.output ⊆ d'.output := by
  rcases step_cases hstep with ⟨_, rfl⟩ | ⟨output, _, hfinish, rfl⟩ | ⟨_, _, ⟨_, heq⟩ | ⟨code, rfl⟩⟩
  · unfold escape
    split
    · simp
    · simp
    · split_ifs <;> simp
  · refine List.Subset.trans (output_subset_of_finish hfinish) ?_
    unfold push
    split <;> simp
  · rw [heq]
    exact List.Subset.refl _
  · simp

theorem output_subset_of_foldlM (hfold : body.foldlM (step names) d = some d') :
    d.output ⊆ d'.output := by
  induction body generalizing d with
  | nil =>
    obtain rfl := Option.some.inj hfold
    exact List.Subset.refl _
  | cons c body ih =>
    obtain ⟨d₁, hstep, hrest⟩ := foldlM_cons_eq_some.mp hfold
    exact List.Subset.trans (output_subset_of_step hstep) (ih hrest)

/-- Only a backslash leads into the state after a backslash. -/
theorem mode_ne_escaped (hc : c ≠ '\\') (hstep : step names d c = some d') :
    d'.mode ≠ .escaped := by
  rcases step_cases hstep with ⟨_, rfl⟩ | ⟨output, _, _, rfl⟩ | ⟨_, _, ⟨hcounting, _⟩ | ⟨code, rfl⟩⟩
  · unfold escape
    split
    · exact nofun
    · exact nofun
    · split_ifs <;> exact nofun
  · rw [push, if_neg hc]
    exact nofun
  · exact hcounting.2
  · exact nofun

/-- A line feed that no backslash stands before is denoted. -/
theorem lineFeed_mem_of_step (hmode : d.mode ≠ .escaped) (hstep : step names d '\n' = some d') :
    '\n'.toNat ∈ d'.output := by
  rcases step_cases hstep with ⟨hescaped, _⟩ | ⟨output, _, _, rfl⟩ | ⟨_, hfeed, _⟩
  · exact absurd hescaped hmode
  · rw [push, if_neg (by decide)]
    simp
  · exact absurd rfl hfeed

end Unescaping

theorem unescape_of_inert {names : List Char → Option Nat} {body : List Char}
    (h : inert body = true) : unescape names body = some (body.map Char.toNat) := by
  rw [unescape, Unescaping.foldlM_of_inert h []]
  rfl

/-- A body denotes less characters than it has, or itself and then it has no escape. -/
theorem unescape_shortens {names : List Char → Option Nat} {body : List Char} {codes : List Nat}
    (h : unescape names body = some codes) :
    codes.length < body.length ∨ codes = body.map Char.toNat ∧ inert body = true := by
  obtain ⟨d, hfold, hfinish⟩ := Option.bind_eq_some_iff.mp h
  have hstart : Unescaping.Shortens [] {} := Or.inr ⟨rfl, rfl⟩
  exact Unescaping.shortens_finish (Unescaping.shortens_foldlM hstart hfold) hfinish

theorem lineFeed_mem_of_unescape {names : List Char → Option Nat} {front back : List Char}
    {c : Char} {codes : List Nat} (hc : c ≠ '\\')
    (h : unescape names (front ++ c :: '\n' :: back) = some codes) : '\n'.toNat ∈ codes := by
  obtain ⟨d, hfold, hfinish⟩ := Option.bind_eq_some_iff.mp h
  rw [List.foldlM_append, Option.bind_eq_bind, Option.bind_eq_some_iff] at hfold
  obtain ⟨d₁, _, hfold⟩ := hfold
  obtain ⟨d₂, hstep, hfold⟩ := Unescaping.foldlM_cons_eq_some.mp hfold
  obtain ⟨d₃, hfeed, hfold⟩ := Unescaping.foldlM_cons_eq_some.mp hfold
  have hmem := Unescaping.lineFeed_mem_of_step (Unescaping.mode_ne_escaped hc hstep) hfeed
  exact Unescaping.output_subset_of_finish hfinish (Unescaping.output_subset_of_foldlM hfold hmem)

end ModuleSource.Text
