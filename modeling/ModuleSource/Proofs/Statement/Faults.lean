import ModuleSource.Proofs.Decoder.Cancellation
import ModuleSource.Proofs.Decoder.Expectation
import ModuleSource.Proofs.Decoder.OperatorIndependence

/-!
Faults in statement blocks. A record asks for an opcode, a count and as many operands as the count
says, each of the kind of its slot; a block asks for a count and for records. The grammar here says
of every run of tokens what a block that starts with them asks for next, so the first token that is
not what was asked for is found by it. The decoder of blocks fails at that token and nowhere else.
-/

namespace ModuleSource

open Text Number

/-- Whether a token is of the kind. -/
def TokenForm.Accepts (kind : TokenForm) (w : List Char) : Prop := ∃ v, kind.parse? w = some v

/-- The kinds of tokens that the operands of a record are read from, by its opcode and their slots.
-/
abbrev OperandForms := (opcode : Int) → (slot : Nat) → TokenForm

/-- The kinds that a set of operators asks for. -/
def OperatorSet.operandForms (table : OperatorSet) : OperandForms :=
  fun opcode slot => (Statement.roleOf (table.find? opcode.natAbs) slot).form

namespace Statement

/-- A record that is complete, with every token of the kind of its slot. -/
inductive WellFormed (forms : OperandForms) : List (List Char) → Prop
  | mk {w m : List Char} {ws : List (List Char)} {opcode n : Int} (parsed : int? w = some opcode)
    (counted : int? m = some n) (length : ws.length = n.toNat)
    (operands : ∀ slot v, ws[slot]? = some v → (forms opcode slot).Accepts v) :
    WellFormed forms (w :: m :: ws)

/-- What a token of a record is. -/
inductive Place where
  | opcode
  | count
  | operand
deriving DecidableEq

/-- What a record asks for after tokens that are all of the kinds of their slots. -/
inductive Awaits (forms : OperandForms) : List (List Char) → Place → TokenForm → Prop
  | opcode : Awaits forms [] .opcode .int
  | count {w : List Char} {opcode : Int} (parsed : int? w = some opcode) :
    Awaits forms [w] .count .int
  | operand {w m : List Char} {ws : List (List Char)} {opcode n : Int}
    (parsed : int? w = some opcode) (counted : int? m = some n) (more : ws.length < n.toNat)
    (operands : ∀ slot v, ws[slot]? = some v → (forms opcode slot).Accepts v) :
    Awaits forms (w :: m :: ws) .operand (forms opcode ws.length)

end Statement

namespace Block

/-- What a token of a block is: the count of the records, or a token of one of them. -/
inductive Place where
  | count
  | inRecord (index : Nat) (place : Statement.Place)
deriving DecidableEq

/-- Where a token of a block is read, if the tokens of its records are read at the given sites. -/
def Place.site (records : Nat → Site) : Place → Site
  | count => .field
  | inRecord index _ => records index

/-- What a block asks for after its count, complete records and a part of another one. -/
inductive Awaits (forms : OperandForms) : List (List Char) → Place → TokenForm → Prop
  | count : Awaits forms [] .count .int
  | inRecord {w : List Char} {n : Int} {records : List (List (List Char))}
    {part : List (List Char)} {place : Statement.Place} {kind : TokenForm}
    (parsed : int? w = some n) (complete : ∀ record ∈ records, Statement.WellFormed forms record)
    (more : (records.length : Int) < n) (awaits : Statement.Awaits forms part place kind) :
    Awaits forms (w :: (records.flatten ++ part)) (.inRecord records.length place) kind

end Block

namespace Decoder

section Lists

variable {α : Type} {R : Nat → List (List Char) → α → Prop} {i n : Nat} {ws : List (List Char)}

/-- Where every entry is made from one token, which tokens make a list is told slot by slot. -/
theorem exists_listed_iff_getElem? {P : Nat → List Char → Prop}
    (hR : ∀ i ws, (∃ a, R i ws a) ↔ ∃ w, ws = [w] ∧ P i w) :
    (∃ as : List α, as.length = n ∧ Listed R i ws as) ↔
      ws.length = n ∧ ∀ slot v, ws[slot]? = some v → P (i + slot) v := by
  constructor
  · rintro ⟨as, rfl, h⟩
    induction h with
    | nil i => simp
    | @cons i ws rest a as head tail ih =>
      obtain ⟨w, rfl, hw⟩ := (hR i ws).mp ⟨a, head⟩
      obtain ⟨hlength, hslots⟩ := ih
      refine ⟨by simp [hlength], fun slot v hv => ?_⟩
      cases slot with
      | zero =>
        obtain rfl : w = v := by simpa using hv
        exact hw
      | succ slot =>
        have hslot := hslots slot v (by simpa using hv)
        rwa [Nat.add_right_comm] at hslot
  · rintro ⟨rfl, h⟩
    induction ws generalizing i with
    | nil => exact ⟨[], rfl, .nil i⟩
    | cons w ws ih =>
      obtain ⟨a, ha⟩ := (hR i [w]).mpr ⟨w, rfl, h 0 w rfl⟩
      have hrest : ∀ slot v, ws[slot]? = some v → P (i + 1 + slot) v := by
        intro slot v hv
        have hslot := h (slot + 1) v (by simpa using hv)
        rwa [Nat.add_right_comm, Nat.add_assoc]
      obtain ⟨as, hlength, hlisted⟩ := ih hrest
      exact ⟨a :: as, by simp [hlength], .cons ha hlisted⟩

/-- Where entries are made from the groups of tokens that have a property, lists are made from such
groups, one after the other. -/
theorem exists_listed_iff_flatten {P : List (List Char) → Prop}
    (hR : ∀ i ws, (∃ a, R i ws a) ↔ P ws) :
    (∃ as : List α, as.length = n ∧ Listed R i ws as) ↔
      ∃ groups : List (List (List Char)), groups.length = n ∧ ws = groups.flatten ∧
        ∀ group ∈ groups, P group := by
  constructor
  · rintro ⟨as, rfl, h⟩
    induction h with
    | nil i => exact ⟨[], rfl, rfl, fun _ h => nomatch h⟩
    | @cons i ws rest a as head tail ih =>
      obtain ⟨groups, hlength, rfl, hgroups⟩ := ih
      refine ⟨ws :: groups, by simp [hlength], rfl, ?_⟩
      rw [List.forall_mem_cons]
      exact ⟨(hR i ws).mp ⟨a, head⟩, hgroups⟩
  · rintro ⟨groups, rfl, rfl, h⟩
    induction groups generalizing i with
    | nil => exact ⟨[], rfl, .nil i⟩
    | cons group groups ih =>
      rw [List.forall_mem_cons] at h
      obtain ⟨a, ha⟩ := (hR i group).mpr h.1
      obtain ⟨as, hlength, hlisted⟩ := ih (i := i + 1) h.2
      exact ⟨a :: as, by simp [hlength], .cons ha hlisted⟩

end Lists

variable {γ δ : Type} {ws : List (List Char)} {site : Site} {kind : TokenForm}

theorem awaits_count_iff :
    count.Awaits ws site kind ↔ ws = [] ∧ site = .field ∧ kind = .int :=
  awaits_map_iff.trans awaits_token_iff

theorem consumes_count_iff {n : Nat} :
    count.Consumes ws n ↔ ∃ w v, ws = [w] ∧ int? w = some v ∧ v.toNat = n := by
  constructor
  · intro h
    obtain ⟨v, hv, rfl⟩ := consumes_map_iff.mp h
    obtain ⟨w, rfl, parsed⟩ := consumes_token_iff.mp hv
    exact ⟨w, v, rfl, parsed, rfl⟩
  · rintro ⟨w, v, rfl, parsed, rfl⟩
    exact consumes_count parsed

section Record

variable {forms : OperandForms} {operand : Int → Nat → Decoder γ}

/-- Decoders that read one token each, of the kinds that records have in their slots. -/
def OfForms (forms : OperandForms) (operand : Int → Nat → Decoder γ) : Prop :=
  ∀ opcode slot, ∃ g : (forms opcode slot).Value → γ, operand opcode slot = g <$> token _

/-- An opcode, a count and the operands, and what is made of them. -/
def recordOf (operand : Int → Nat → Decoder γ) (finish : Int → List γ → δ) : Decoder δ := do
  let opcode ← int
  let n ← count
  let operands ← collect (operand opcode) n
  return finish opcode operands

theorem OfForms.exists_consumes_iff (h : OfForms forms operand) (opcode : Int) (slot : Nat)
    (ws : List (List Char)) : (∃ a, (operand opcode slot).Consumes ws a) ↔
      ∃ w, ws = [w] ∧ (forms opcode slot).Accepts w := by
  obtain ⟨g, hg⟩ := h opcode slot
  rw [hg]
  simp only [consumes_map_iff, consumes_token_iff]
  constructor
  · rintro ⟨a, v, ⟨w, rfl, parsed⟩, -⟩
    exact ⟨w, rfl, v, parsed⟩
  · rintro ⟨w, rfl, v, parsed⟩
    exact ⟨g v, v, ⟨w, rfl, parsed⟩, rfl⟩

theorem OfForms.awaits_iff (h : OfForms forms operand) {opcode : Int} {slot : Nat} :
    (operand opcode slot).Awaits ws site kind ↔
      ws = [] ∧ site = .field ∧ kind = forms opcode slot := by
  obtain ⟨g, hg⟩ := h opcode slot
  rw [hg]
  exact awaits_map_iff.trans awaits_token_iff

theorem OfForms.exists_listed_iff (h : OfForms forms operand) {opcode : Int} {n : Nat} :
    (∃ as : List γ, as.length = n ∧
        Listed (fun slot => (operand opcode slot).Consumes) 0 ws as) ↔
      ws.length = n ∧ ∀ slot v, ws[slot]? = some v → (forms opcode slot).Accepts v := by
  refine (exists_listed_iff_getElem? (h.exists_consumes_iff opcode)).trans ?_
  simp only [Nat.zero_add]

/-- The records that are taken are the well-formed ones. -/
theorem OfForms.exists_consumes_recordOf_iff (h : OfForms forms operand)
    {finish : Int → List γ → δ} : (∃ a, (recordOf operand finish).Consumes ws a) ↔
      Statement.WellFormed forms ws := by
  constructor
  · rintro ⟨a, hconsumes⟩
    obtain ⟨us, vs, opcode, rfl, hopcode, hvs⟩ := consumes_bind_iff.mp hconsumes
    obtain ⟨w, rfl, parsed⟩ := consumes_token_iff.mp hopcode
    obtain ⟨us, vs, n, rfl, hcount, hvs⟩ := consumes_bind_iff.mp hvs
    obtain ⟨m, v, rfl, counted, rfl⟩ := consumes_count_iff.mp hcount
    obtain ⟨as, has, -⟩ := consumes_map_iff.mp hvs
    obtain ⟨hlength, hoperands⟩ := h.exists_listed_iff.mp ⟨as, consumes_collect_iff.mp has⟩
    exact .mk parsed counted hlength hoperands
  · rintro @⟨w, m, ws, opcode, n, parsed, counted, length, operands⟩
    obtain ⟨as, has⟩ := h.exists_listed_iff.mpr ⟨length, operands⟩
    have hoperands := (consumes_collect_iff.mpr has).map (finish opcode)
    exact ⟨_, (consumes_token .int parsed).bind ((consumes_count counted).bind hoperands)⟩

/-- What is asked for inside a record. -/
theorem OfForms.awaits_recordOf_iff (h : OfForms forms operand) {finish : Int → List γ → δ} :
    (recordOf operand finish).Awaits ws site kind ↔
      site = .field ∧ ∃ place, Statement.Awaits forms ws place kind := by
  constructor
  · intro hawaits
    rcases awaits_bind_iff.mp hawaits with hint | ⟨us, vs, opcode, rfl, hopcode, hvs⟩
    · obtain ⟨rfl, rfl, rfl⟩ := awaits_token_iff.mp hint
      exact ⟨rfl, _, .opcode⟩
    obtain ⟨w, rfl, parsed⟩ := consumes_token_iff.mp hopcode
    rcases awaits_bind_iff.mp hvs with hint | ⟨us, vs, n, rfl, hcount, hvs⟩
    · obtain ⟨rfl, rfl, rfl⟩ := awaits_count_iff.mp hint
      exact ⟨rfl, _, .count parsed⟩
    obtain ⟨m, v, rfl, counted, rfl⟩ := consumes_count_iff.mp hcount
    obtain ⟨us, part, as, rfl, hlisted, hlength, hpart⟩ :=
      awaits_collect_iff.mp (awaits_map_iff.mp hvs)
    obtain ⟨rfl, rfl, rfl⟩ := h.awaits_iff.mp hpart
    obtain ⟨hus, hoperands⟩ := h.exists_listed_iff.mp ⟨as, rfl, hlisted⟩
    rw [List.append_nil, ← hus]
    exact ⟨rfl, _, .operand parsed counted (hus ▸ hlength) hoperands⟩
  · rintro ⟨rfl, place, hplace⟩
    apply awaits_bind_iff.mpr
    cases hplace with
    | opcode => exact Or.inl (awaits_token_iff.mpr ⟨rfl, rfl, rfl⟩)
    | count parsed =>
      refine Or.inr ⟨[_], [], _, rfl, consumes_token .int parsed, awaits_bind_iff.mpr (Or.inl ?_)⟩
      exact awaits_count_iff.mpr ⟨rfl, rfl, rfl⟩
    | @operand w m ws opcode n parsed counted more operands =>
      refine Or.inr ⟨[w], m :: ws, _, rfl, consumes_token .int parsed, awaits_bind_iff.mpr ?_⟩
      refine Or.inr ⟨[m], ws, _, rfl, consumes_count counted, awaits_map_iff.mpr ?_⟩
      obtain ⟨as, hlength, hlisted⟩ := h.exists_listed_iff.mpr ⟨rfl, operands⟩
      refine awaits_collect_iff.mpr ⟨ws, [], as, (List.append_nil ws).symm, hlisted, ?_, ?_⟩
      · rwa [hlength]
      · rw [hlength]
        exact h.awaits_iff.mpr ⟨rfl, rfl, rfl⟩

end Record

/-- What is asked for inside a count and as many records, whose tokens are read at the given sites.
-/
theorem awaits_records_iff {forms : OperandForms} {record : Nat → Decoder γ} {sites : Nat → Site}
    (hconsumes : ∀ r ws, (∃ a, (record r).Consumes ws a) ↔ Statement.WellFormed forms ws)
    (hawaits : ∀ r ws site kind, (record r).Awaits ws site kind ↔
      site = sites r ∧ ∃ place, Statement.Awaits forms ws place kind) :
    (count >>= fun n => collect record n).Awaits ws site kind ↔
      ∃ place, Block.Awaits forms ws place kind ∧ site = place.site sites := by
  constructor
  · intro h
    rcases awaits_bind_iff.mp h with hcount | ⟨us, vs, n, rfl, hcount, hvs⟩
    · obtain ⟨rfl, rfl, rfl⟩ := awaits_count_iff.mp hcount
      exact ⟨_, .count, rfl⟩
    obtain ⟨w, v, rfl, parsed, rfl⟩ := consumes_count_iff.mp hcount
    obtain ⟨us, part, as, rfl, hlisted, hlength, hpart⟩ := awaits_collect_iff.mp hvs
    obtain ⟨rfl, place, hplace⟩ := (hawaits _ _ _ _).mp hpart
    obtain ⟨records, hrecords, rfl, hcomplete⟩ :=
      (exists_listed_iff_flatten hconsumes).mp ⟨as, rfl, hlisted⟩
    rw [← hrecords] at hlength ⊢
    exact ⟨_, .inRecord parsed hcomplete (by omega) hplace, rfl⟩
  · rintro ⟨place, hplace, rfl⟩
    apply awaits_bind_iff.mpr
    cases hplace with
    | count => exact Or.inl (awaits_count_iff.mpr ⟨rfl, rfl, rfl⟩)
    | @inRecord w n records part place _ parsed complete more awaits =>
      refine Or.inr ⟨[w], records.flatten ++ part, _, rfl, consumes_count parsed, ?_⟩
      obtain ⟨as, hlength, hlisted⟩ :=
        (exists_listed_iff_flatten (i := 0) hconsumes).mpr ⟨records, rfl, rfl, complete⟩
      refine awaits_collect_iff.mpr ⟨_, part, as, rfl, hlisted, by omega, ?_⟩
      rw [hlength]
      exact (hawaits _ _ _ _).mpr ⟨rfl, place, awaits⟩

end Decoder

section Table

variable {table : OperatorSet} {ws : List (List Char)} {site : Site} {kind : TokenForm}

theorem Operand.decoder_eq_map (role : Role) :
    ∃ g : role.form.Value → Operand, decoder role = g <$> Decoder.token role.form := by
  cases role with
  | int => exact ⟨.int, rfl⟩
  | float => exact ⟨.float, rfl⟩
  | entity kind => exact ⟨.entity kind, rfl⟩

theorem Operand.decoder_ofForms (table : OperatorSet) : Decoder.OfForms table.operandForms
    fun opcode slot => decoder (Statement.roleOf (table.find? opcode.natAbs) slot) :=
  fun opcode slot => decoder_eq_map (Statement.roleOf (table.find? opcode.natAbs) slot)

namespace Statement

theorem exists_consumes_iff :
    (∃ s, (decoder table).Consumes ws s) ↔ WellFormed table.operandForms ws :=
  (Operand.decoder_ofForms table).exists_consumes_recordOf_iff

theorem decoder_awaits_iff : (decoder table).Awaits ws site kind ↔
    site = .field ∧ ∃ place, Awaits table.operandForms ws place kind :=
  (Operand.decoder_ofForms table).awaits_recordOf_iff

end Statement

namespace Block

theorem decoder_awaits_iff : (decoder table).Awaits ws site kind ↔
    ∃ place, Awaits table.operandForms ws place kind ∧ site = place.site .record := by
  apply Decoder.awaits_records_iff
  · intro r ws
    simp only [Decoder.consumes_inRecord_iff]
    exact Statement.exists_consumes_iff
  · intro r ws site kind
    rw [Decoder.awaits_inRecord_iff]
    simp only [Statement.decoder_awaits_iff, exists_eq_left]

/-- The only look is made before the count. -/
theorem run_decoder (table : OperatorSet) (signal : StopSignal) (looks : Nat) (s : Source) :
    (decoder table).run signal looks s = if signal looks s.fetched then (.error .cancelled, s)
      else (decoder table).run .never looks s := by
  have hoperand (role : Role) : (Operand.decoder role).Blind := by
    obtain ⟨g, hg⟩ := Operand.decoder_eq_map role
    rw [hg]
    exact (Decoder.blind_token _).map g
  have hcount : Decoder.count.Blind := (Decoder.blind_token .int).map Int.toNat
  have hstatement : (Statement.decoder table).Blind :=
    (Decoder.blind_token .int).bind fun opcode => hcount.bind fun n =>
      (Decoder.blind_collect (fun slot => hoperand _) n).map _
  have hrecords : (Decoder.count >>= fun n =>
      Decoder.collect (fun r => (Statement.decoder table).inRecord r) n).Blind :=
    hcount.bind fun n => Decoder.blind_collect (fun r => hstatement.inRecord r) n
  exact hrecords.run_look signal looks s

/-- Complete records, and after them tokens that no complete record starts. -/
structure FirstFault (forms : OperandForms) (tokens : List (List Char))
    (records : List (List (List Char))) (later : List (List Char)) : Prop where
  split : tokens = records.flatten ++ later
  complete : ∀ record ∈ records, Statement.WellFormed forms record
  faulty : ∀ record, record <+: later → ¬Statement.WellFormed forms record

section Failure

variable {looks : Nat} {s s' : Source}

/-- A failure tells the first token that is not what the block asks for. -/
theorem tells_of_run (hs : s.Clean) {e : DecodeFailure}
    (h : (decoder table).run .never looks s = (.error e, s')) :
    ∃ ws place kind cause, Awaits table.operandForms ws place kind ∧
      cause.Tells s.tokens ws kind s' ∧ e = (place.site .record).error cause := by
  obtain ⟨ws, site, kind, cause, hawaits, htells, rfl⟩ := Decoder.tells_of_run hs h
  obtain ⟨place, hplace, rfl⟩ := decoder_awaits_iff.mp hawaits
  exact ⟨ws, place, kind, cause, hplace, htells, rfl⟩

theorem run_of_refused (hs : s.Clean) {place : Place}
    (h : Awaits table.operandForms ws place kind) (hrefused : Refused s.tokens ws kind) :
    ∃ cause s',
      (decoder table).run .never looks s = (.error ((place.site .record).error cause), s') :=
  Decoder.run_of_refused hs (decoder_awaits_iff.mpr ⟨place, h, rfl⟩) hrefused

/-- A failure outside the records is for the count. -/
theorem tells_of_run_read (hs : s.Clean) {cause : ReadFailure}
    (h : (decoder table).run .never looks s = (.error (.read cause), s')) :
    cause.Tells s.tokens [] .int s' := by
  obtain ⟨ws, place, kind, cause', hawaits, htells, he⟩ := tells_of_run hs h
  cases hawaits with
  | count =>
    obtain rfl := DecodeFailure.read.inj he
    exact htells
  | inRecord parsed complete more awaits => cases he

/-- A failure in a record is for the first token that the record does not ask for, and the records
before it are complete. -/
theorem tells_of_run_malformedStatement (hs : s.Clean) {r : Nat} {cause : ReadFailure}
    (h : (decoder table).run .never looks s = (.error (.malformedStatement r cause), s'))
    {w : List Char} {rest : List (List Char)} {n : Int} (htokens : s.tokens = w :: rest)
    (hn : int? w = some n) :
    (r : Int) < n ∧ ∃ records later, records.length = r ∧
      FirstFault table.operandForms rest records later ∧
      ∃ part place kind, Statement.Awaits table.operandForms part place kind ∧
        cause.Tells later part kind s' := by
  obtain ⟨ws, place, kind, cause', hawaits, htells, he⟩ := tells_of_run hs h
  cases hawaits with
  | count => cases he
  | @inRecord w' n' records part place _ parsed complete more awaits =>
    obtain ⟨rfl, rfl⟩ := DecodeFailure.malformedStatement.inj he
    obtain ⟨more', hmore⟩ := htells.refused.isPrefix
    rw [htokens, List.cons_append, List.append_assoc] at hmore
    obtain ⟨rfl, hrest⟩ := List.cons.inj hmore
    obtain rfl := Option.some.inj (parsed.symm.trans hn)
    rw [htokens, ← hrest, ← List.cons_append, ← List.cons_append] at htells
    have hlater := htells.of_append
    refine ⟨more, records, part ++ more', rfl, ⟨hrest.symm, complete, ?_⟩, part, place, kind,
      awaits, hlater⟩
    intro record hfront hcomplete
    obtain ⟨statement, hconsumes⟩ := Statement.exists_consumes_iff.mpr hcomplete
    have hpart := Statement.decoder_awaits_iff.mpr ⟨rfl, place, awaits⟩
    exact hpart.not_consumes hlater.refused hfront hconsumes

/-- Where a record is not complete, the decoder fails in it. -/
theorem run_of_firstFault (hs : s.Clean) {w : List Char} {rest later : List (List Char)} {n : Int}
    {records : List (List (List Char))} (htokens : s.tokens = w :: rest) (hn : int? w = some n)
    (hlength : (records.length : Int) < n)
    (h : FirstFault table.operandForms rest records later) :
    ∃ cause s', (decoder table).run .never looks s =
      (.error (.malformedStatement records.length cause), s') := by
  rcases Decoder.consumes_or_awaits (Statement.decoder table) later with
    ⟨record, statement, hfront, hconsumes⟩ | ⟨part, site, kind, hawaits, hrefused⟩
  · exact absurd (Statement.exists_consumes_iff.mp ⟨statement, hconsumes⟩)
      (h.faulty record hfront)
  · obtain ⟨-, place, hplace⟩ := Statement.decoder_awaits_iff.mp hawaits
    have hblock : Awaits table.operandForms (w :: (records.flatten ++ part)) _ kind :=
      .inRecord hn h.complete hlength hplace
    refine run_of_refused hs hblock ?_
    rw [htokens, h.split]
    exact hrefused.append (w :: records.flatten)

end Failure

/-- How decoding a block fails. A stop is seen on entry only, and then nothing is read. A failed
read of the count is reported as such. Any other failure names the first record that is not
complete, and in it the first token that is not of the kind of its slot, or the end where there is
none; it leaves what comes after that token. -/
theorem decoder_locates_fault (table : OperatorSet) (signal : StopSignal) (looks : Nat)
    {s : Source} (hs : s.Clean) :
    let result := ((decoder table).run signal looks s).1
    let s' := ((decoder table).run signal looks s).2
    (result = .error .cancelled ↔ signal looks s.fetched = true) ∧
    (result = .error .cancelled → s' = s) ∧
    (signal looks s.fetched = false →
      ((∃ cause, result = .error (.read cause)) ↔
        s.tokens = [] ∨ ∃ w rest, s.tokens = w :: rest ∧ int? w = none) ∧
      (∀ cause, result = .error (.read cause) → cause.Tells s.tokens [] .int s') ∧
      ∀ w rest n, s.tokens = w :: rest → int? w = some n → ∀ r : Nat,
        ((∃ cause, result = .error (.malformedStatement r cause)) ↔
          (r : Int) < n ∧ ∃ records later, records.length = r ∧
            FirstFault table.operandForms rest records later) ∧
        ∀ cause, result = .error (.malformedStatement r cause) →
          ∃ records later, records.length = r ∧
            FirstFault table.operandForms rest records later ∧
            ∃ part place kind, Statement.Awaits table.operandForms part place kind ∧
              cause.Tells later part kind s') := by
  rw [run_decoder]
  cases hstop : signal looks s.fetched with
  | true =>
    refine ⟨⟨fun _ => rfl, fun _ => rfl⟩, fun _ => rfl, fun hgo => ?_⟩
    cases hgo
  | false =>
    rw [if_neg Bool.false_ne_true]
    have hnever := Decoder.run_never_ne_cancelled (decoder table) looks s
    rcases hrun : (decoder table).run .never looks s with ⟨result, s'⟩
    rw [hrun] at hnever
    refine ⟨⟨fun h => absurd h hnever, fun h => nomatch h⟩, fun h => absurd h hnever, fun _ => ?_⟩
    refine ⟨⟨?_, ?_⟩, ?_, ?_⟩
    · rintro ⟨cause, rfl⟩
      rcases (tells_of_run_read hs hrun).refused with hnil | ⟨w, rest, hcons, rejected⟩
      · exact Or.inl hnil
      · exact Or.inr ⟨w, rest, hcons, rejected⟩
    · intro hcount
      obtain ⟨cause, s'', hfailed⟩ := run_of_refused hs (.count) hcount
      obtain ⟨rfl, -⟩ := Prod.mk.inj (hrun.symm.trans hfailed)
      exact ⟨cause, rfl⟩
    · rintro cause rfl
      exact tells_of_run_read hs hrun
    · intro w rest n htokens hn r
      refine ⟨⟨?_, ?_⟩, ?_⟩
      · rintro ⟨cause, rfl⟩
        obtain ⟨hr, records, later, hlength, hfault, -⟩ :=
          tells_of_run_malformedStatement hs hrun htokens hn
        exact ⟨hr, records, later, hlength, hfault⟩
      · rintro ⟨hr, records, later, rfl, hfault⟩
        obtain ⟨cause, s'', hfailed⟩ := run_of_firstFault hs htokens hn hr hfault
        obtain ⟨rfl, -⟩ := Prod.mk.inj (hrun.symm.trans hfailed)
        exact ⟨cause, rfl⟩
      · rintro cause rfl
        exact (tells_of_run_malformedStatement hs hrun htokens hn).2

/-- A complete record, and one whose second operand is on the next line and is no float. -/
theorem decoder_locates_fault_float :
    let table : OperatorSet := ⟨.vanilla, [⟨2, "op", .atLeast 2, [.int, .float]⟩]⟩
    let s := Source.ofBytes "9 5 0 2 2 7\nx 9".toUTF8
    let s' := ((decoder table).run .never 0 s).2
    s.Clean ∧ ((decoder table).run .never 0 s).1 =
        .error (.malformedStatement 1 (.malformed 2 "x" .float)) ∧
      ∃ records later, records.length = 1 ∧
        FirstFault table.operandForms
          [['5'], ['0'], ['2'], ['2'], ['7'], ['x'], ['9']] records later ∧
        ∃ part place kind, Statement.Awaits table.operandForms part place kind ∧
          (ReadFailure.malformed 2 "x" .float).Tells later part kind s' := by
  intro table s s'
  have hclean : s.Clean := Source.clean_ofBytes_toUTF8 _
  have hfailed : ((decoder table).run .never 0 s).1 =
      .error (.malformedStatement 1 (.malformed 2 "x" .float)) := by decide +kernel
  have htokens : s.tokens = [['9'], ['5'], ['0'], ['2'], ['2'], ['7'], ['x'], ['9']] := by
    decide +kernel
  have hcount : int? ['9'] = some 9 := by decide +kernel
  have hrecords := ((decoder_locates_fault table .never 0 hclean).2.2 rfl).2.2
  exact ⟨hclean, hfailed, (hrecords ['9'] _ 9 htokens hcount 1).2 _ hfailed⟩

end Block

end Table

end ModuleSource
