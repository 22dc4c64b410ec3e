import ModuleSource.Format
import ModuleSource.Proofs.Operator.Names
import ModuleSource.Proofs.Statement.Compiled
import ModuleSource.Proofs.Statement.Legible
import ModuleSource.Proofs.Text.Literals
import ModuleSource.Proofs.Text.Nesting

/-!
The pieces that records are written with. Numerals and fixed names are clear: they have no character
that a scan of brackets or of literals heeds. What holds of clear texts, of the names of entities
and operators, and of texts put together and into brackets, therefore holds of operands, statements,
blocks and flags. So they close every bracket that they open where the names have neither quotes nor
brackets, and they open neither a literal nor a comment where the names open none.
-/

namespace ModuleSource

open Text Number Layout

/-- No name of an entity has a quote or a bracket. -/
def Lexicon.Plain (lexicon : Lexicon) : Prop :=
  ∀ kind, ∀ name ∈ lexicon.table kind, Text.Plain name.toList

/-- No name of an operator has a quote or a bracket. -/
def OperatorSet.Plain (table : OperatorSet) : Prop :=
  ∀ op ∈ table.operators, Text.Plain op.name.toList

namespace Text

/-- The characters that the scans heed. -/
def heeded : List Char := ['"', '(', ')', '[', ']', '\'', '#', '\\']

/-- A text that means nothing to the scans. -/
def Clear (cs : List Char) : Prop := ∀ c ∈ cs, c ∉ heeded

-- The instance is named: a search could find one that goes through all characters there are.
instance : DecidablePred Clear := fun cs => List.decidableBAll (· ∉ heeded) cs

theorem clear_of_lacks {s : String} (h : lacks heeded s = true) : Clear s.toList := by
  refine not_mem_of_lacks ?_ h
  simp only [heeded, List.forall_mem_cons, List.not_mem_nil, false_imp_iff, implies_true]
  decide

section Clear

variable {cs ds : List Char}

theorem Clear.plain (h : Clear cs) : Plain cs := by
  have hsubset : marks ⊆ heeded := by decide
  exact fun c hc hmark => h c hc (hsubset hmark)

theorem Clear.append (hcs : Clear cs) (hds : Clear ds) : Clear (cs ++ ds) :=
  List.forall_mem_append.mpr ⟨hcs, hds⟩

theorem Clear.cons {c : Char} (hc : c ∉ heeded) (hcs : Clear cs) : Clear (c :: cs) :=
  List.forall_mem_cons.mpr ⟨hc, hcs⟩

theorem Clear.of_subset (hcs : Clear cs) (h : ds ⊆ cs) : Clear ds := fun c hc => hcs c (h hc)

theorem Clear.append_string {s t : String} (hs : Clear s.toList) (ht : Clear t.toList) :
    Clear (s ++ t).toList := by
  rw [String.toList_append]
  exact hs.append ht

/-- Numerals are written with digits. -/
theorem mem_toDigits (base : Nat) (hbase : 1 < base) {n : Nat} {c : Char}
    (h : c ∈ base.toDigits n) :
    ∃ d < base, c = d.digitChar := by
  induction n using Nat.strong_induction_on with
  | h n ih =>
    by_cases hn : n < base
    · rw [Nat.toDigits_of_lt_base hn, List.mem_singleton] at h
      exact ⟨n, hn, h⟩
    · have hle : base ≤ n := Nat.le_of_not_lt hn
      rw [Nat.toDigits_of_base_le hbase hle, List.mem_append, List.mem_singleton] at h
      rcases h with h | h
      · exact ih (n / base) (Nat.div_lt_self (by omega) hbase) h
      · exact ⟨n % base, Nat.mod_lt n (by omega), h⟩

theorem clear_toDigits (base : Nat) (hbase : 1 < base) (hsmall : base ≤ 16) (n : Nat) :
    Clear (base.toDigits n) := by
  have digits : ∀ d < 16, Nat.digitChar d ∉ heeded := by decide
  intro c hc
  obtain ⟨d, hd, rfl⟩ := mem_toDigits base hbase hc
  exact digits d (by omega)

theorem clear_lowerHex (n : Nat) : Clear (lowerHex n).toList := by
  refine Clear.append_string (by decide) ?_
  rw [String.toList_ofList]
  exact clear_toDigits _ (by decide) (by decide) n

theorem clear_upperHex (n : Nat) : Clear (upperHex n).toList := by
  have digits : ∀ d < 16, (Nat.digitChar d).toUpper ∉ heeded := by decide
  refine Clear.append_string (by decide) ?_
  rw [String.toList_ofList]
  intro c hc
  obtain ⟨digit, hdigit, rfl⟩ := List.mem_map.mp hc
  obtain ⟨d, hd, rfl⟩ := mem_toDigits 16 (by decide) hdigit
  exact digits d hd

theorem clear_toString_nat (n : Nat) : Clear (toString n).toList := by
  rw [Nat.toString_eq_repr, Nat.toList_repr]
  exact clear_toDigits _ (by decide) (by decide) n

theorem clear_toString_int (i : Int) : Clear (toString i).toList := by
  cases i with
  | ofNat n => exact clear_toString_nat n
  | negSucc n =>
    rw [toString_negSucc]
    exact Clear.cons (by decide) (clear_toString_nat (n + 1))

theorem clear_signText (negative : Bool) : Clear (Binary64.signText negative).toList := by
  cases negative <;> decide

theorem clear_digits (x : Binary64.Digits) : Clear x.text.toList := by
  have zeros (n : Nat) : Clear (List.replicate n '0') := by
    intro c hc
    rw [List.eq_of_mem_replicate hc]
    decide
  have written := clear_toDigits 10 (by decide) (by decide) x.digits
  unfold Binary64.Digits.text
  dsimp only
  split
  · rw [String.toList_ofList]
    exact written.append (zeros _)
  · next k _ =>
    -- The digits before and after the point are taken from the padded ones.
    have padded := (zeros (k + 2 - (Nat.toDigits 10 x.digits).length)).append written
    split
    · rw [String.toList_ofList]
      exact padded.of_subset (List.take_subset _ _)
    · rw [String.toList_ofList]
      refine (padded.of_subset (List.take_subset _ _)).append ?_
      refine Clear.cons (by decide) (padded.of_subset fun c hc => ?_)
      rw [List.mem_reverse] at hc
      have hpart := (List.dropWhile_suffix _).subset hc
      rw [List.mem_reverse] at hpart
      exact List.drop_subset _ _ hpart

theorem clear_text (x : Binary64) : Clear x.text.toList := by
  cases x with
  | nan => decide
  | infinite negative => exact (clear_signText negative).append_string (by decide)
  | finite negative mantissa exponent =>
    change Clear (if mantissa = 0 then _ else _ : String).toList
    split
    · exact (clear_signText negative).append_string (by decide)
    · exact (clear_signText negative).append_string (clear_digits _)

theorem clear_literal (x : Binary64) : Clear x.literal.toList := by
  unfold Binary64.literal
  split
  · exact ((clear_signText _).append_string (clear_toString_nat _)).append_string (by decide)
  · exact clear_text x

theorem clear_of_lookup {α : Type} [BEq α] [LawfulBEq α] {entries : List (α × String)}
    (h : ∀ entry ∈ entries, lacks heeded entry.2 = true) {a : α} {name : String}
    (hlookup : entries.lookup a = some name) : Clear name.toList := by
  obtain ⟨before, after, rfl, -⟩ := List.lookup_eq_some_iff.mp hlookup
  exact clear_of_lacks (h (a, name) (List.mem_append_right before List.mem_cons_self))

theorem clear_intervalText (x : Binary64) : Clear (intervalText x).toList := by
  have names : ∀ entry ∈ intervalNames, lacks heeded entry.2 = true := by decide
  unfold intervalText
  split
  · split
    · next name hlookup => exact clear_of_lookup names hlookup
    · exact (clear_signText _).append_string (clear_toString_nat _)
  · exact clear_literal x

end Clear

/-- The spaces in a text that is shown have a place in a word that has none. -/
theorem plain_spaced {word : String} (h : Plain word.toList) : Plain (spaced word).toList := by
  rw [spaced, String.toList_ofList]
  intro c hc
  obtain ⟨d, hd, rfl⟩ := List.mem_map.mp hc
  split
  · decide
  · exact h d hd

/-- What holds of clear texts, and of texts put together from such as it holds of. -/
structure Appends (Q : String → Prop) : Prop where
  clear {s : String} : Clear s.toList → Q s
  append {s t : String} : Q s → Q t → Q (s ++ t)

/-- What brackets around a text keep, too. -/
structure Composes (Q : String → Prop) : Prop extends Appends Q where
  round {s : String} : Q s → Q ("(" ++ s ++ ")")
  square {s : String} : Q s → Q ("[" ++ s ++ "]")

section Appends

variable {Q : String → Prop} (hQ : Appends Q) {texts : List String} (h : ∀ text ∈ texts, Q text)
include hQ h

theorem Appends.join : Q (String.join texts) :=
  join_of_append (hQ.clear (by decide)) hQ.append h

theorem Appends.intercalate {sep : String} (hsep : Q sep) : Q (String.intercalate sep texts) :=
  intercalate_of_append (hQ.clear (by decide)) hQ.append h hsep

theorem Appends.commaList : Q (commaList texts) := hQ.intercalate h (hQ.clear (by decide))

end Appends

theorem appends_plain : Appends fun s => Plain s.toList where
  clear := Clear.plain
  append {s t} hs ht := by
    rw [String.toList_append]
    exact List.forall_mem_append.mpr ⟨hs, ht⟩

theorem composes_closed : Composes Closed where
  clear h := closed_of_plain h.plain
  append := Closed.append
  round {s} hs b e k := by
    repeat' with_reducible apply Nesting.scan_append_string
    exacts [rfl, hs _ _ _, rfl]
  square {s} hs b e k := by
    repeat' with_reducible apply Nesting.scan_append_string
    exacts [rfl, hs _ _ _, rfl]

theorem composes_outer : Composes Outer := by
  have happend {s t : String} (hs : Outer s) (ht : Outer t) : Outer (s ++ t) := by
    rw [Outer, String.toList_append]
    exact List.forall_mem_append.mpr ⟨hs, ht⟩
  have hsubset : outerMarks ⊆ heeded := by decide
  exact {
    clear := fun h c hc hmark => h c hc (hsubset hmark)
    append := happend
    round := fun hs => happend (happend (by decide) hs) (by decide)
    square := fun hs => happend (happend (by decide) hs) (by decide) }

theorem closed_quoted {s : String} (h : Plain s.toList) : Closed (quoted s) := by
  intro b e k
  have hquote : '"' ∉ s.toList := fun hmem => h '"' hmem (by decide)
  have htext : (quoted s).toList = '"' :: (s.toList ++ ['"']) := by
    rw [quoted, String.toList_append, String.toList_append, List.append_assoc]
    rfl
  rw [htext]
  exact Nesting.scan_quoted hquote (b :: e) k

theorem closed_commaList {items : List String} (h : ∀ item ∈ items, Closed item) :
    Closed (commaList items) :=
  composes_closed.commaList h

theorem closed_of_clear {s : String} (h : Clear s.toList) : Closed s := closed_of_plain h.plain

theorem closed_int (i : Int) : Closed (toString i) := closed_of_clear (clear_toString_int i)

end Text

section Walk

variable {Q : String → Prop} {lexicon : Lexicon}

/-- An entity is spelt by its number, or by the tag of its kind and one of the names. -/
theorem Lexicon.spell_of_appends (hQ : Appends Q) {kind : Entity}
    (hnames : ∀ name ∈ lexicon.table kind, Q name) (index : Int) :
    Q (lexicon.spell kind index) := by
  cases hget : (lexicon.table kind).get? index with
  | none =>
    rw [spell_of_get?_none hget]
    exact hQ.clear (clear_toString_int index)
  | some name =>
    have htag : Clear kind.tag.toList := by cases kind <;> decide
    rw [spell_of_get? hget]
    refine hQ.append (hQ.clear htag) (hnames name ?_)
    cases index with
    | ofNat i => exact Array.mem_of_getElem? hget
    | negSucc i => cases hget

variable (hQ : Composes Q) (hnames : ∀ kind, ∀ name ∈ lexicon.table kind, Q name)
include hQ

section Names

include hnames

theorem Operand.render_of_composes (operand : Operand) : Q (operand.render lexicon) := by
  cases operand with
  | int value => exact hQ.clear (clear_toString_int value)
  | float value => exact hQ.clear (clear_literal value)
  | entity kind index => exact Lexicon.spell_of_appends hQ.toAppends (hnames kind) index

theorem Statement.Compiled.render_of_composes {table : OperatorSet}
    (htable : ∀ op ∈ table.operators, Q op.name) {ws : List (List Char)} {s : Statement}
    (h : s.Compiled table ws) : Q (s.render lexicon) := by
  have hsign : Q (if s.negated then negation else "") := by
    split <;> exact hQ.clear (by decide)
  have hhead : Q s.head := by
    cases h with
    | @mk w ws opcode operands parsed listed =>
      unfold head
      dsimp only
      split
      · next op hfind => exact htable op (OperatorSet.find?_eq_some hfind).1
      · exact hQ.clear (clear_toString_nat _)
  have hoperands : Q (String.intercalate ", " (s.operands.map (·.render lexicon))) := by
    refine hQ.intercalate (fun text htext => ?_) (hQ.clear (by decide))
    obtain ⟨operand, -, rfl⟩ := List.mem_map.mp htext
    exact operand.render_of_composes hQ hnames
  have hcall := hQ.append (hQ.append hsign hhead) (hQ.round hoperands)
  unfold render
  simpa only [String.append_assoc] using hcall

end Names

theorem Block.render_of_composes {block : Block} (h : ∀ s ∈ block, Q (s.render lexicon))
    {indent : String} (hindent : Clear indent.toList) : Q (block.render lexicon indent) := by
  have hlines : Q (block.lines lexicon (indent ++ "  ")) := by
    refine hQ.join fun line hline => ?_
    obtain ⟨s, hs, rfl⟩ := List.mem_map.mp hline
    have hinner := hQ.clear (hindent.append_string (t := "  ") (by decide))
    exact hQ.append (hQ.append hinner (h s hs)) (hQ.clear (by decide))
  unfold render
  split
  · exact hQ.square (hQ.clear (s := "") (by decide))
  · have hinner := hQ.append (hQ.append (hQ.clear (s := "\n") (by decide)) hlines)
      (hQ.clear hindent)
    have hblock := hQ.square hinner
    have hopen : "[\n" = "[" ++ "\n" := rfl
    rw [hopen]
    simpa only [String.append_assoc] using hblock

end Walk

section Flags

/-- The names that a layout of flags can write by itself. -/
def FieldStyle.vocabulary : FieldStyle → List String
  | .applied name => [name]
  | .entity _ => []
  | .appliedTo name _ => [name]
  | .oneOf names => names

def BitField.vocabulary (field : BitField) : List String :=
  field.style.vocabulary ++ field.special.toList.map Prod.snd

def FlagLayout.vocabulary (layout : FlagLayout) : List String :=
  layout.fields.flatMap BitField.vocabulary ++ layout.groups.map Prod.snd ++
    layout.flags.map Prod.snd

theorem FlagLayout.mem_vocabulary {layout : FlagLayout} {field : BitField}
    (hfield : field ∈ layout.fields) {name : String} (h : name ∈ field.vocabulary) :
    name ∈ layout.vocabulary :=
  List.mem_append_left _ (List.mem_append_left _ (List.mem_flatMap.mpr ⟨field, hfield, h⟩))

/-- A field is spelt by its own name for a value, or in its style. -/
theorem BitField.eq_of_spell {field : BitField} {lexicon : Lexicon} {word : UInt64} {text : String}
    (h : field.spell lexicon word = some text) : text ∈ field.special.toList.map Prod.snd ∨
      text = spellValue field.style lexicon (field.value word).toNat := by
  unfold spell at h
  dsimp only at h
  split at h
  · cases h
  split at h
  · next number name hspecial =>
    split at h
    · left
      rw [hspecial, ← Option.some.inj h]
      exact List.mem_singleton_self name
    · exact Or.inr (Option.some.inj h).symm
  · exact Or.inr (Option.some.inj h).symm

/-- What is written for a word comes from a field, or is one of the names of the layout. -/
theorem FlagLayout.mem_names {layout : FlagLayout} {lexicon : Lexicon} {word : UInt64}
    {name : String} (h : name ∈ layout.names lexicon word) :
    (∃ field ∈ layout.fields, field.spell lexicon word = some name) ∨
      name ∈ layout.vocabulary := by
  unfold names at h
  dsimp only at h
  rw [List.mem_append, List.mem_append] at h
  rcases h with (h | h) | h
  · obtain ⟨field, hfield, hspell⟩ := List.mem_filterMap.mp h
    exact Or.inl ⟨field, hfield, hspell⟩
  · split at h
    · next mask found hfound =>
      obtain rfl := List.mem_singleton.mp h
      have hgroup := List.mem_map_of_mem (f := Prod.snd) (List.mem_of_find?_eq_some hfound)
      exact Or.inr (List.mem_append_left _ (List.mem_append_right _ hgroup))
    · cases h
  · obtain ⟨entry, hentry, rfl⟩ := List.mem_map.mp h
    have hflag := List.mem_map_of_mem (f := Prod.snd) (List.mem_filter.mp hentry).1
    exact Or.inr (List.mem_append_right _ hflag)

variable {Q : String → Prop} {lexicon : Lexicon} (hQ : Composes Q)
  (hnames : ∀ kind, ∀ name ∈ lexicon.table kind, Q name)
include hQ

theorem FlagLayout.join_of_composes {names : List String} (h : ∀ name ∈ names, Q name) :
    Q (join names) := by
  unfold join
  split
  · exact hQ.clear (by decide)
  · exact hQ.intercalate h (hQ.clear (by decide))

include hnames

theorem BitField.spellValue_of_composes {style : FieldStyle}
    (h : ∀ name ∈ style.vocabulary, lacks heeded name = true) (value : Nat) :
    Q (spellValue style lexicon value) := by
  have hvalue := hQ.clear (clear_toString_nat value)
  have hentity (kind : Entity) (index : Int) := Lexicon.spell_of_appends hQ.toAppends
    (hnames kind) index
  have happlied {name text : String} (hname : lacks heeded name = true) (htext : Q text) :
      Q (name ++ "(" ++ text ++ ")") := by
    have hcall := hQ.append (hQ.clear (clear_of_lacks hname)) (hQ.round htext)
    simpa only [String.append_assoc] using hcall
  cases style with
  | applied name => exact happlied (h name List.mem_cons_self) hvalue
  | entity kind => exact hentity kind _
  | appliedTo name kind => exact happlied (h name List.mem_cons_self) (hentity kind _)
  | oneOf names =>
    change Q ((names[value - 1]?).getD (toString value))
    cases hname : names[value - 1]? with
    | none => exact hvalue
    | some name => exact hQ.clear (clear_of_lacks (h name (List.mem_of_getElem? hname)))

theorem FlagLayout.spell_of_composes (layout : FlagLayout)
    (h : ∀ name ∈ layout.vocabulary, lacks heeded name = true) (word : UInt64) :
    Q (layout.spell lexicon word) := by
  refine join_of_composes hQ fun name hname => ?_
  rcases mem_names hname with ⟨field, hfield, hspell⟩ | hfixed
  · rcases BitField.eq_of_spell hspell with hspecial | rfl
    · exact hQ.clear
        (clear_of_lacks (h name (mem_vocabulary hfield (List.mem_append_right _ hspecial))))
    · exact BitField.spellValue_of_composes hQ hnames
        (fun _ hmem => h _ (mem_vocabulary hfield (List.mem_append_left _ hmem))) _
  · exact hQ.clear (clear_of_lacks (h name hfixed))

end Flags

section Plain

variable {lexicon : Lexicon} (hlexicon : lexicon.Plain)
include hlexicon

theorem Lexicon.Plain.spell (kind : Entity) (index : Int) :
    Text.Plain (lexicon.spell kind index).toList :=
  spell_of_appends appends_plain (hlexicon kind) index

theorem Lexicon.Plain.closed (kind : Entity) : ∀ name ∈ lexicon.table kind, Closed name :=
  fun name hname => closed_of_plain (hlexicon kind name hname)

theorem FlagLayout.closed_spell (layout : FlagLayout)
    (h : ∀ name ∈ layout.vocabulary, lacks heeded name = true) (word : UInt64) :
    Closed (layout.spell lexicon word) :=
  spell_of_composes composes_closed hlexicon.closed layout h word

end Plain

theorem Layout.PartyTemplate.closed_spellPersonality (word : UInt32) :
    Closed (spellPersonality word) := by
  have names : ∀ entry ∈ personalities, lacks heeded entry.2 = true := by decide
  have numbered {label : String} (hlabel : Clear label.toList) (n : Nat) :
      Closed (label ++ toString n) :=
    closed_of_clear (hlabel.append_string (clear_toString_nat n))
  have htraits : ∀ trait ∈ traits word, Closed trait := by
    unfold traits
    dsimp only
    rw [List.forall_mem_append, List.forall_mem_append]
    refine ⟨⟨?_, ?_⟩, ?_⟩ <;> split
    · simp
    · exact List.forall_mem_singleton.mpr (closed_ofList (by decide))
    · simp
    · exact List.forall_mem_singleton.mpr (numbered (by decide) _)
    · simp
    · exact List.forall_mem_singleton.mpr (numbered (by decide) _)
  unfold spellPersonality
  split
  · next name hlookup => exact closed_of_clear (clear_of_lookup names hlookup)
  · exact FlagLayout.join_of_composes composes_closed htraits

theorem Layout.PartyTemplate.plain_shortId {template : PartyTemplate}
    (h : Text.Plain template.id.toList) : Text.Plain template.shortId.toList := by
  unfold shortId NameRule.dropTag?
  split
  · next id hid =>
    split at hid
    · rw [String.toList_ofList, ← Option.some.inj hid]
      exact fun c hc => h c (List.drop_subset _ _ hc)
    · cases hid
  · exact h

theorem Operator.declared_clear : declared.all (fun op => lacks heeded op.name) = true := by
  decide +kernel

theorem OperatorSet.clear_ofEngine (engine : Engine) :
    ∀ op ∈ (ofEngine engine).operators, Clear op.name.toList := fun op hop =>
  clear_of_lacks (List.all_eq_true.mp Operator.declared_clear op (mem_declared hop))

theorem OperatorSet.plain_ofEngine (engine : Engine) : (ofEngine engine).Plain :=
  fun op hop => (clear_ofEngine engine op hop).plain

end ModuleSource
