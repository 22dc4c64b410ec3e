import ModuleSource.Proofs.Decoder.Grammar

/-!
Where decoders fail. `Consumes` says which tokens bring a decoder to a value; `Awaits` says which
tokens bring it to a further read, and what that read asks for. On every list of tokens a decoder
does one or the other, and on every source a run fails just where a read that it awaits does. Both
relations are told part by part, through sequencing and counted lists.
-/

namespace ModuleSource

open Text

namespace Source

/-- The words that a source gives, one after the other, on the way from one position to another. -/
inductive Gives : Source → List (List Char) → Source → Prop
  | nil (s : Source) : Gives s [] s
  | cons {s t u : Source} {w : List Char} {ws : List (List Char)} (took : s.takeWord = (.ok w, t))
    (rest : Gives t ws u) : Gives s (w :: ws) u

theorem Gives.tokens_eq {s t : Source} {ws : List (List Char)} (h : Gives s ws t) :
    s.tokens = ws ++ t.tokens := by
  induction h with
  | nil s => rfl
  | @cons s t u w ws took rest ih =>
    have step := wordStep_takeWord s
    rw [took] at step
    cases step with
    | word isWord step => rw [step.tokens_eq, ih, List.singleton_append, List.cons_append]

theorem Gives.clean {s t : Source} {ws : List (List Char)} (h : Gives s ws t) (hs : s.Clean) :
    t.Clean := by
  induction h with
  | nil s => exact hs
  | @cons s t u w ws took rest ih =>
    have step := wordStep_takeWord s
    rw [took] at step
    cases step with
    | word isWord step =>
      obtain ⟨passed, hadvance, -⟩ := step.advance
      exact ih (hadvance.clean hs).1

/-- A source whose lines all decode gives its tokens. -/
theorem exists_gives {s : Source} (hs : s.Clean) {ws rest : List (List Char)}
    (h : s.tokens = ws ++ rest) : ∃ t, Gives s ws t := by
  induction ws generalizing s with
  | nil => exact ⟨s, .nil s⟩
  | cons w ws ih =>
    have step := wordStep_takeWord s
    rcases took : s.takeWord with ⟨result, t⟩
    rw [took] at step
    cases step with
    | @word v _ isWord step =>
      obtain ⟨passed, hadvance, -⟩ := step.advance
      rw [step.tokens_eq, List.singleton_append, List.cons_append] at h
      obtain ⟨rfl, htokens⟩ := List.cons.inj h
      obtain ⟨u, hgives⟩ := ih (hadvance.clean hs).1 htokens
      exact ⟨u, .cons took hgives⟩
    | undecodable step =>
      obtain ⟨passed, hadvance, hcount⟩ := step.advance
      exact absurd (List.count_pos_iff.mp (by rw [hcount]; decide)) (hadvance.clean hs).2
    | ended step =>
      rw [step.tokens_eq, (step.ended _ rfl).2.tokens_eq] at h
      cases h

/-- A failed read that met a token took it and does not accept it; any other would fail in the same
way whatever kind it asked for. -/
theorem read_eq_error {kind : TokenForm} {s s' : Source} {cause : ReadFailure}
    (h : s.read kind = (.error cause, s')) :
    (∃ w, s.tokens = w :: s'.tokens ∧ kind.parse? w = none ∧
        cause = .malformed s'.line (String.ofList w) kind) ∨
      (∀ other : TokenForm, s.read other = (.error cause, s')) ∧
        (cause = .access .invalidText ∧ ¬s.Clean ∨
          cause = .endOfStream s'.line ∧ s.tokens = [] ∧ s'.tokens = []) := by
  have step := readStep_read kind s
  rw [h] at step
  dsimp only at step
  generalize hresult : (Except.error cause : Except ReadFailure kind.Value) = result at step
  cases step with
  | value took isWord parsed step => cases hresult
  | @malformed w _ took isWord rejected step =>
    exact Or.inl ⟨w, step.tokens_eq, rejected, Except.error.inj hresult⟩
  | undecodable took step =>
    obtain ⟨passed, hadvance, hcount⟩ := step.advance
    obtain rfl := Except.error.inj hresult
    refine Or.inr ⟨fun other => by rw [read, took], Or.inl ⟨rfl, fun hs => ?_⟩⟩
    exact (hadvance.clean hs).2 (List.count_pos_iff.mp (by rw [hcount]; decide))
  | ended took step =>
    obtain ⟨hline, hended⟩ := step.ended _ rfl
    obtain rfl := Except.error.inj hresult
    rw [hline] at took ⊢
    refine Or.inr ⟨fun other => by rw [read, took], Or.inr ⟨rfl, ?_, hended.tokens_eq⟩⟩
    rw [step.tokens_eq, hended.tokens_eq, List.nil_append]

end Source

/-- The tokens are not enough for a read after some of them: they end there, or go on with one that
is not of the kind asked for. -/
def Refused (tokens taken : List (List Char)) (kind : TokenForm) : Prop :=
  tokens = taken ∨ ∃ w rest, tokens = taken ++ w :: rest ∧ kind.parse? w = none

theorem Refused.isPrefix {tokens taken : List (List Char)} {kind : TokenForm}
    (h : Refused tokens taken kind) : taken <+: tokens := by
  rcases h with rfl | ⟨w, rest, rfl, -⟩
  · exact List.prefix_refl tokens
  · exact List.prefix_append taken (w :: rest)

theorem Refused.append {tokens taken : List (List Char)} {kind : TokenForm}
    (h : Refused tokens taken kind) (front : List (List Char)) :
    Refused (front ++ tokens) (front ++ taken) kind := by
  rcases h with rfl | ⟨w, rest, rfl, rejected⟩
  · exact Or.inl rfl
  · exact Or.inr ⟨w, rest, (List.append_assoc _ _ _).symm, rejected⟩

/-- A failed read says what it met after the tokens taken before it, and stands behind that. -/
inductive ReadFailure.Tells (tokens taken : List (List Char)) (kind : TokenForm) :
    ReadFailure → Source → Prop
  | malformed {w : List Char} {s' : Source} (met : tokens = taken ++ w :: s'.tokens)
    (rejected : kind.parse? w = none) :
    Tells tokens taken kind (.malformed s'.line (String.ofList w) kind) s'
  | ended {s' : Source} (met : tokens = taken) (left : s'.tokens = []) :
    Tells tokens taken kind (.endOfStream s'.line) s'

theorem ReadFailure.Tells.refused {tokens taken : List (List Char)} {kind : TokenForm}
    {cause : ReadFailure} {s' : Source} (h : cause.Tells tokens taken kind s') :
    Refused tokens taken kind := by
  cases h with
  | malformed met rejected => exact Or.inr ⟨_, _, met, rejected⟩
  | ended met left => exact Or.inl met

theorem ReadFailure.Tells.of_append {tokens taken front : List (List Char)} {kind : TokenForm}
    {cause : ReadFailure} {s' : Source}
    (h : cause.Tells (front ++ tokens) (front ++ taken) kind s') :
    cause.Tells tokens taken kind s' := by
  cases h with
  | malformed met rejected =>
    rw [List.append_assoc] at met
    exact .malformed (List.append_cancel_left met) rejected
  | ended met left => exact .ended (List.append_cancel_left met) left

/-- Such a read fails. -/
theorem Source.read_of_refused {s t : Source} {ws : List (List Char)} {kind : TokenForm}
    (hgives : s.Gives ws t) (h : Refused s.tokens ws kind) :
    ∃ cause s', t.read kind = (.error cause, s') := by
  rw [hgives.tokens_eq] at h
  have step := readStep_read kind t
  rcases hread : t.read kind with ⟨cause | v, s'⟩
  · exact ⟨cause, s', rfl⟩
  · rw [hread] at step
    cases step with
    | @value w _ _ took isWord parsed step =>
      rw [step.tokens_eq] at h
      rcases h with h | ⟨w', rest, h, rejected⟩
      · simp at h
      · obtain ⟨rfl, -⟩ := List.cons.inj (List.append_cancel_left h)
        cases rejected.symm.trans parsed

namespace Decoder

variable {α β : Type} {d : Decoder α} {f : α → Decoder β} {ws : List (List Char)} {site : Site}
  {kind : TokenForm}

/-- Having taken these tokens, the decoder asks for one of the given kind. -/
def Awaits : Decoder α → List (List Char) → Site → TokenForm → Prop
  | done _, _, _, _ => False
  | look next, ws, site, kind => next.Awaits ws site kind
  | read site' kind' _, [], site, kind => site' = site ∧ kind' = kind
  | read _ kind' next, w :: ws, site, kind =>
    ∃ v, kind'.parse? w = some v ∧ (next v).Awaits ws site kind

/-- The tokens taken decide what is asked for. -/
theorem Awaits.unique (h : d.Awaits ws site kind) {site' : Site} {kind' : TokenForm}
    (h' : d.Awaits ws site' kind') : site = site' ∧ kind = kind' := by
  induction d generalizing ws with
  | done a => exact h.elim
  | look next ih => exact ih h h'
  | read first asked next ih =>
    cases ws with
    | nil => exact ⟨h.1.symm.trans h'.1, h.2.symm.trans h'.2⟩
    | cons w ws =>
      obtain ⟨v, parsed, hnext⟩ := h
      obtain ⟨v', parsed', hnext'⟩ := h'
      obtain rfl := Option.some.inj (parsed.symm.trans parsed')
      exact ih v hnext hnext'

section Consumes

theorem consumes_done_iff {a b : α} : (done b).Consumes ws a ↔ ws = [] ∧ b = a := by
  constructor
  · intro h
    obtain ⟨hvalue, hrest⟩ := Prod.mk.inj (h [])
    exact ⟨by simpa using hrest, Verdict.value.inj hvalue⟩
  · rintro ⟨rfl, rfl⟩
    exact consumes_done b

theorem not_consumes_read_nil {next : kind.Value → Decoder α} {a : α} :
    ¬(read site kind next).Consumes [] a := fun h => nomatch h []

theorem consumes_read_cons_iff {next : kind.Value → Decoder α} {w : List Char} {a : α} :
    (read site kind next).Consumes (w :: ws) a ↔
      ∃ v, kind.parse? w = some v ∧ (next v).Consumes ws a := by
  constructor
  · intro h
    cases parsed : kind.parse? w with
    | some v =>
      refine ⟨v, rfl, fun rest => ?_⟩
      have hjudge := h rest
      rwa [List.cons_append, judge_read_some parsed] at hjudge
    | none =>
      have hjudge := h []
      rw [List.cons_append, judge_read_none parsed] at hjudge
      cases hjudge
  · rintro ⟨v, parsed, h⟩
    exact h.read parsed

theorem consumes_bind_iff {b : β} : (d >>= f).Consumes ws b ↔
    ∃ us vs a, ws = us ++ vs ∧ d.Consumes us a ∧ (f a).Consumes vs b := by
  constructor
  · change (d.bind f).Consumes ws b → _
    intro h
    induction d generalizing ws with
    | done a => exact ⟨[], ws, a, rfl, consumes_done a, h⟩
    | look next ih => exact ih h
    | read site kind next ih =>
      cases ws with
      | nil => exact absurd h not_consumes_read_nil
      | cons w ws =>
        obtain ⟨v, parsed, hnext⟩ := consumes_read_cons_iff.mp h
        obtain ⟨us, vs, a, rfl, hus, hvs⟩ := ih v hnext
        exact ⟨w :: us, vs, a, rfl, hus.read parsed, hvs⟩
  · rintro ⟨us, vs, a, rfl, hus, hvs⟩
    exact hus.bind hvs

theorem consumes_map_iff {g : α → β} {b : β} :
    (g <$> d).Consumes ws b ↔ ∃ a, d.Consumes ws a ∧ g a = b := by
  constructor
  · intro h
    obtain ⟨us, vs, a, rfl, hus, hvs⟩ :=
      (consumes_bind_iff (f := fun a => done (g a))).mp h
    obtain ⟨rfl, hb⟩ := consumes_done_iff.mp hvs
    exact ⟨a, by rwa [List.append_nil], hb⟩
  · rintro ⟨a, ha, rfl⟩
    exact ha.map g

theorem consumes_token_iff {v : kind.Value} :
    (token kind).Consumes ws v ↔ ∃ w, ws = [w] ∧ kind.parse? w = some v := by
  constructor
  · intro h
    cases ws with
    | nil => exact absurd h not_consumes_read_nil
    | cons w ws =>
      obtain ⟨v', parsed, hdone⟩ := consumes_read_cons_iff.mp h
      obtain ⟨rfl, rfl⟩ := consumes_done_iff.mp hdone
      exact ⟨w, rfl, parsed⟩
  · rintro ⟨w, rfl, parsed⟩
    exact consumes_token kind parsed

theorem consumes_inRecord_iff {index : Nat} {a : α} :
    (d.inRecord index).Consumes ws a ↔ d.Consumes ws a := by
  refine ⟨fun h => ?_, fun h => h.inRecord index⟩
  induction d generalizing ws with
  | done b => exact h
  | look next ih => exact ih h
  | read site kind next ih =>
    cases ws with
    | nil => exact absurd h not_consumes_read_nil
    | cons w ws =>
      obtain ⟨v, parsed, hnext⟩ := consumes_read_cons_iff.mp h
      exact (ih v hnext).read parsed

/-- The tokens of a list are those of its entries. -/
theorem consumes_collect_iff {f : Nat → Decoder α} {n : Nat} {as : List α} :
    (collect f n).Consumes ws as ↔ as.length = n ∧ Listed (fun i => (f i).Consumes) 0 ws as := by
  constructor
  · -- The entries found so far are kept in reverse, and have had their tokens before.
    have loop (n i : Nat) (found : List α) (ws : List (List Char))
        (h : (collectFrom f i n found).Consumes ws as) : ∃ rest, as = found.reverse ++ rest ∧
          rest.length = n ∧ Listed (fun i => (f i).Consumes) i ws rest := by
      induction n generalizing i found ws with
      | zero =>
        obtain ⟨rfl, has⟩ := consumes_done_iff.mp h
        exact ⟨[], by rw [← has, List.append_nil], rfl, .nil i⟩
      | succ n ih =>
        obtain ⟨us, vs, a, rfl, hus, hvs⟩ := consumes_bind_iff.mp h
        obtain ⟨rest, has, hlen, hlisted⟩ := ih (i + 1) (a :: found) vs hvs
        refine ⟨a :: rest, ?_, by rw [List.length_cons, hlen], .cons hus hlisted⟩
        rw [has, List.reverse_cons, List.append_assoc, List.singleton_append]
    intro h
    obtain ⟨rest, rfl, hlen, hlisted⟩ := loop n 0 [] ws h
    exact ⟨hlen, hlisted⟩
  · rintro ⟨rfl, hlisted⟩
    exact hlisted.consumes fun _ _ _ h => h

end Consumes

section Awaits

theorem awaits_token_iff {asked : TokenForm} :
    (token asked).Awaits ws site kind ↔ ws = [] ∧ site = .field ∧ kind = asked := by
  cases ws with
  | nil => simp [token, Awaits, eq_comm]
  | cons w ws => simp [token, Awaits]

theorem awaits_bind_iff : (d >>= f).Awaits ws site kind ↔ d.Awaits ws site kind ∨
    ∃ us vs a, ws = us ++ vs ∧ d.Consumes us a ∧ (f a).Awaits vs site kind := by
  change (d.bind f).Awaits ws site kind ↔ _
  induction d generalizing ws with
  | done a =>
    constructor
    · exact fun h => Or.inr ⟨[], ws, a, rfl, consumes_done a, h⟩
    · rintro (h | ⟨us, vs, a', rfl, hus, hvs⟩)
      · exact h.elim
      · obtain ⟨rfl, rfl⟩ := consumes_done_iff.mp hus
        exact hvs
  | look next ih => exact ih
  | read asked form next ih =>
    cases ws with
    | nil =>
      refine ⟨Or.inl, ?_⟩
      rintro (h | ⟨us, vs, a, hnil, hus, -⟩)
      · exact h
      · obtain ⟨rfl, -⟩ := List.append_eq_nil_iff.mp hnil.symm
        exact absurd hus not_consumes_read_nil
    | cons w ws =>
      constructor
      · rintro ⟨v, parsed, h⟩
        rcases (ih v).mp h with h | ⟨us, vs, a, rfl, hus, hvs⟩
        · exact Or.inl ⟨v, parsed, h⟩
        · exact Or.inr ⟨w :: us, vs, a, rfl, hus.read parsed, hvs⟩
      · rintro (⟨v, parsed, h⟩ | ⟨us, vs, a, hws, hus, hvs⟩)
        · exact ⟨v, parsed, (ih v).mpr (Or.inl h)⟩
        · cases us with
          | nil => exact absurd hus not_consumes_read_nil
          | cons u us =>
            obtain ⟨rfl, rfl⟩ := List.cons.inj hws
            obtain ⟨v, parsed, hnext⟩ := consumes_read_cons_iff.mp hus
            exact ⟨v, parsed, (ih v).mpr (Or.inr ⟨us, vs, a, rfl, hnext, hvs⟩)⟩

theorem awaits_map_iff {g : α → β} : (g <$> d).Awaits ws site kind ↔ d.Awaits ws site kind := by
  refine (awaits_bind_iff (f := fun a => done (g a))).trans ⟨?_, Or.inl⟩
  rintro (h | ⟨us, vs, a, -, -, hvs⟩)
  · exact h
  · exact hvs.elim

theorem awaits_inRecord_iff {index : Nat} : (d.inRecord index).Awaits ws site kind ↔
    site = .record index ∧ ∃ site', d.Awaits ws site' kind := by
  induction d generalizing ws with
  | done a => simp [inRecord, Awaits]
  | look next ih => exact ih
  | read asked form next ih =>
    cases ws with
    | nil =>
      simp only [inRecord, Awaits]
      constructor
      · rintro ⟨rfl, rfl⟩
        exact ⟨rfl, asked, rfl, rfl⟩
      · rintro ⟨rfl, -, -, rfl⟩
        exact ⟨rfl, rfl⟩
    | cons w ws =>
      constructor
      · rintro ⟨v, parsed, h⟩
        obtain ⟨rfl, site', h⟩ := (ih v).mp h
        exact ⟨rfl, site', v, parsed, h⟩
      · rintro ⟨rfl, site', v, parsed, h⟩
        exact ⟨v, parsed, (ih v).mpr ⟨rfl, site', h⟩⟩

/-- A list is read entry by entry, so a read of it comes after the tokens of some entries and is a
read of the next one. -/
theorem awaits_collect_iff {f : Nat → Decoder α} {n : Nat} :
    (collect f n).Awaits ws site kind ↔ ∃ us part as, ws = us ++ part ∧
      Listed (fun i => (f i).Consumes) 0 us as ∧ as.length < n ∧
        (f as.length).Awaits part site kind := by
  have loop (n i : Nat) (found : List α) (ws : List (List Char)) :
      (collectFrom f i n found).Awaits ws site kind ↔ ∃ us part as, ws = us ++ part ∧
        Listed (fun i => (f i).Consumes) i us as ∧ as.length < n ∧
          (f (i + as.length)).Awaits part site kind := by
    induction n generalizing i found ws with
    | zero =>
      refine ⟨fun h => h.elim, ?_⟩
      rintro ⟨us, part, as, -, -, hlen, -⟩
      omega
    | succ n ih =>
      refine awaits_bind_iff.trans ⟨?_, ?_⟩
      · rintro (h | ⟨us, vs, a, rfl, hus, hvs⟩)
        · exact ⟨[], ws, [], rfl, .nil i, Nat.succ_pos n, h⟩
        · obtain ⟨us', part, as, rfl, hlisted, hlen, h⟩ := (ih (i + 1) _ vs).mp hvs
          refine ⟨us ++ us', part, a :: as, (List.append_assoc _ _ _).symm, .cons hus hlisted,
            Nat.succ_lt_succ hlen, ?_⟩
          rwa [List.length_cons, ← Nat.add_assoc, Nat.add_right_comm]
      · rintro ⟨us, part, as, rfl, hlisted, hlen, h⟩
        cases hlisted with
        | nil i => exact Or.inl h
        | @cons i us rest a as head tail =>
          refine Or.inr ⟨us, rest ++ part, a, List.append_assoc _ _ _, head, ?_⟩
          refine (ih (i + 1) _ _).mpr ⟨rest, part, as, rfl, tail, Nat.lt_of_succ_lt_succ hlen, ?_⟩
          rwa [List.length_cons, ← Nat.add_assoc, Nat.add_right_comm] at h
  have h := loop n 0 [] ws
  simp only [Nat.zero_add] at h
  exact h

end Awaits

section Exclusion

/-- A decoder takes what it needs from the front of the tokens, or comes to a read that they refuse.
-/
theorem consumes_or_awaits (d : Decoder α) (tokens : List (List Char)) :
    (∃ ws a, ws <+: tokens ∧ d.Consumes ws a) ∨
      ∃ ws site kind, d.Awaits ws site kind ∧ Refused tokens ws kind := by
  induction d generalizing tokens with
  | done a => exact Or.inl ⟨[], a, List.nil_prefix, consumes_done a⟩
  | look next ih => exact ih tokens
  | read site kind next ih =>
    cases tokens with
    | nil => exact Or.inr ⟨[], site, kind, ⟨rfl, rfl⟩, Or.inl rfl⟩
    | cons w tokens =>
      cases parsed : kind.parse? w with
      | none => exact Or.inr ⟨[], site, kind, ⟨rfl, rfl⟩, Or.inr ⟨w, tokens, rfl, parsed⟩⟩
      | some v =>
        rcases ih v tokens with ⟨ws, a, hfront, h⟩ | ⟨ws, site', kind', h, hrefused⟩
        · exact Or.inl ⟨w :: ws, a, List.cons_prefix_cons.mpr ⟨rfl, hfront⟩, h.read parsed⟩
        · refine Or.inr ⟨w :: ws, site', kind', ⟨v, parsed, h⟩, ?_⟩
          rcases hrefused with rfl | ⟨w', rest, rfl, rejected⟩
          · exact Or.inl rfl
          · exact Or.inr ⟨w', rest, rfl, rejected⟩

/-- It does not do both. -/
theorem Awaits.not_consumes {tokens : List (List Char)} (h : d.Awaits ws site kind)
    (hrefused : Refused tokens ws kind) {us : List (List Char)} (hfront : us <+: tokens) {a : α} :
    ¬d.Consumes us a := by
  intro hconsumes
  induction d generalizing ws us tokens with
  | done b => exact h
  | look next ih => exact ih h hrefused hfront hconsumes
  | read asked form next ih =>
    cases us with
    | nil => exact not_consumes_read_nil hconsumes
    | cons u us =>
      obtain ⟨v, parsed, hnext⟩ := consumes_read_cons_iff.mp hconsumes
      obtain ⟨more, rfl⟩ := hfront
      cases ws with
      | nil =>
        obtain ⟨-, rfl⟩ := h
        rcases hrefused with hnil | ⟨w, rest, hcons, rejected⟩
        · cases hnil
        · obtain ⟨rfl, -⟩ := List.cons.inj hcons
          cases rejected.symm.trans parsed
      | cons w ws =>
        obtain ⟨v', parsed', hawaits⟩ := h
        have hrefused' : u = w ∧ Refused (us ++ more) ws kind := by
          rcases hrefused with hsame | ⟨w', rest, hsame, rejected⟩
          · obtain ⟨rfl, htail⟩ := List.cons.inj hsame
            exact ⟨rfl, Or.inl htail⟩
          · obtain ⟨rfl, htail⟩ := List.cons.inj hsame
            exact ⟨rfl, Or.inr ⟨w', rest, htail, rejected⟩⟩
        obtain ⟨rfl, hrefused'⟩ := hrefused'
        obtain rfl := Option.some.inj (parsed.symm.trans parsed')
        exact ih v hawaits hrefused' (List.prefix_append us more) hnext

end Exclusion

section Run

variable {s s' t : Source} {looks : Nat}

/-- A run that nobody stops fails by a read that it awaits. -/
theorem exists_awaits_of_run {e : DecodeFailure} (h : d.run .never looks s = (.error e, s')) :
    ∃ ws t site kind cause, s.Gives ws t ∧ d.Awaits ws site kind ∧
      t.read kind = (.error cause, s') ∧ e = site.error cause := by
  induction d generalizing looks s with
  | done a => cases h
  | look next ih => exact ih h
  | read site kind next ih =>
    unfold run at h
    rcases hread : s.read kind with ⟨cause | v, u⟩
    · rw [hread] at h
      obtain ⟨he, rfl⟩ := Prod.mk.inj h
      exact ⟨[], s, site, kind, cause, .nil s, ⟨rfl, rfl⟩, hread, (Except.error.inj he).symm⟩
    · rw [hread] at h
      obtain ⟨ws, t, site', kind', cause, hgives, hawaits, hfailed, rfl⟩ := ih v h
      have step := Source.readStep_read kind s
      rw [hread] at step
      cases step with
      | @value w _ _ took isWord parsed step =>
        exact ⟨w :: ws, t, site', kind', cause, .cons took hgives, ⟨v, parsed, hawaits⟩, hfailed,
          rfl⟩

/-- A failure of the read that is awaited is that of the run. -/
theorem run_of_awaits {cause : ReadFailure} (hgives : s.Gives ws t) (h : d.Awaits ws site kind)
    (hread : t.read kind = (.error cause, s')) :
    d.run .never looks s = (.error (site.error cause), s') := by
  induction d generalizing looks s ws with
  | done a => exact h.elim
  | look next ih => exact ih hgives h
  | read asked form next ih =>
    cases hgives with
    | nil s =>
      obtain ⟨rfl, rfl⟩ := h
      simp only [run, hread]
    | cons took rest =>
      obtain ⟨v, parsed, h⟩ := h
      simp only [run, Source.read_of_takeWord took parsed]
      exact ih v rest h

theorem scan_of_awaits {cause : ReadFailure} (hgives : s.Gives ws t) (h : d.Awaits ws site kind)
    (hread : t.read kind = (.error cause, s')) : d.scan s = (.error cause, s') := by
  induction d generalizing s ws with
  | done a => exact h.elim
  | look next ih => exact ih hgives h
  | read asked form next ih =>
    cases hgives with
    | nil s =>
      obtain ⟨rfl, rfl⟩ := h
      simp only [scan, hread]
    | cons took rest =>
      obtain ⟨v, parsed, h⟩ := h
      simp only [scan, Source.read_of_takeWord took parsed]
      exact ih v rest h

/-- Where all lines decode, the failure tells what the read met. -/
theorem tells_of_run (hs : s.Clean) {e : DecodeFailure}
    (h : d.run .never looks s = (.error e, s')) :
    ∃ ws site kind cause, d.Awaits ws site kind ∧ cause.Tells s.tokens ws kind s' ∧
      e = site.error cause := by
  obtain ⟨ws, t, site, kind, cause, hgives, hawaits, hread, rfl⟩ := exists_awaits_of_run h
  have htokens := hgives.tokens_eq
  refine ⟨ws, site, kind, cause, hawaits, ?_, rfl⟩
  rcases Source.read_eq_error hread with ⟨w, hw, rejected, rfl⟩ |
    ⟨-, ⟨-, hunclean⟩ | ⟨rfl, hnil, hleft⟩⟩
  · rw [hw] at htokens
    exact .malformed htokens rejected
  · exact absurd (hgives.clean hs) hunclean
  · rw [hnil, List.append_nil] at htokens
    exact .ended htokens hleft

/-- Where all lines decode, a run that comes to a read which the tokens refuse fails by it. -/
theorem run_of_refused (hs : s.Clean) (h : d.Awaits ws site kind)
    (hrefused : Refused s.tokens ws kind) :
    ∃ cause s', d.run .never looks s = (.error (site.error cause), s') := by
  obtain ⟨rest, hrest⟩ : ws <+: s.tokens := hrefused.isPrefix
  obtain ⟨t, hgives⟩ := Source.exists_gives hs hrest.symm
  obtain ⟨cause, s', hread⟩ := Source.read_of_refused hgives hrefused
  exact ⟨cause, s', run_of_awaits hgives h hread⟩

end Run

end Decoder

end ModuleSource
