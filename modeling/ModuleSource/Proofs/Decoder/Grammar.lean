import ModuleSource.Proofs.Decoder.Logic
import ModuleSource.Proofs.Decoder.Tokens
import ModuleSource.Proofs.Number.Numerals

/-!
Decoders as grammars. `Reads` says that a value comes from its words only; `Consumes` is the other
direction, that a decoder takes exactly the words of a value whatever comes after them. A relation
for which both are known says which token lists are accepted, what is made of them and where the
decoder stops.
-/

namespace ModuleSource

open Text

namespace Decoder

variable {α β : Type} {ws ws' : List (List Char)} {a : α} {b : β}

/-- In front of any other tokens the decoder takes these and comes to the value. -/
def Consumes (d : Decoder α) (ws : List (List Char)) (a : α) : Prop :=
  ∀ rest, d.judge false (ws ++ rest) = (.value a, rest)

theorem consumes_done (a : α) : (done a).Consumes [] a := fun _ => rfl

theorem Consumes.look {d : Decoder α} (h : d.Consumes ws a) : (look d).Consumes ws a := h

theorem Consumes.read {site : Site} {kind : TokenForm} {next : kind.Value → Decoder α}
    {w : List Char} {v : kind.Value} (parsed : kind.parse? w = some v)
    (h : (next v).Consumes ws a) :
    (read site kind next).Consumes (w :: ws) a := by
  intro rest
  rw [List.cons_append, judge_read_some parsed]
  exact h rest

theorem consumes_token (kind : TokenForm) {w : List Char} {v : kind.Value}
    (parsed : kind.parse? w = some v) : (token kind).Consumes [w] v :=
  .read parsed (consumes_done v)

theorem consumes_word (s : String) : word.Consumes [s.toList] s :=
  consumes_token .word (congrArg some String.ofList_toList)

/-- What a decoder does first is what it does alone. -/
theorem judge_bind {d : Decoder α} {f : α → Decoder β} {tokens rest : List (List Char)}
    (h : d.judge false tokens = (.value a, rest)) :
    (d >>= f).judge false tokens = (f a).judge false rest := by
  change (d.bind f).judge false tokens = _
  induction d generalizing tokens with
  | done a' =>
    obtain ⟨hvalue, rfl⟩ := Prod.mk.inj h
    obtain rfl := Verdict.value.inj hvalue
    rfl
  | look next ih => exact ih h
  | read site kind next ih =>
    cases tokens with
    | nil => cases h
    | cons token tokens =>
      cases hp : kind.parse? token with
      | some v =>
        rw [judge_read_some hp] at h
        rw [bind, judge_read_some hp]
        exact ih v h
      | none =>
        rw [judge_read_none hp] at h
        cases h

theorem Consumes.bind {d : Decoder α} {f : α → Decoder β} (h : d.Consumes ws a)
    (hf : (f a).Consumes ws' b) : (d >>= f).Consumes (ws ++ ws') b := by
  intro rest
  rw [List.append_assoc, judge_bind (h (ws' ++ rest))]
  exact hf rest

theorem Consumes.map {d : Decoder α} (h : d.Consumes ws a) (f : α → β) :
    (f <$> d).Consumes ws (f a) := by
  have hmap := h.bind (f := fun a => done (f a)) (consumes_done (f a))
  rwa [List.append_nil] at hmap

theorem Consumes.inRecord {d : Decoder α} (h : d.Consumes ws a) (index : Nat) :
    (d.inRecord index).Consumes ws a := by
  -- The site of a read is seen only in its failure.
  have judged (d : Decoder α) (tokens rest : List (List Char))
      (h : d.judge false tokens = (.value a, rest)) :
      (d.inRecord index).judge false tokens = (.value a, rest) := by
    induction d generalizing tokens with
    | done a' => exact h
    | look next ih => exact ih tokens h
    | read site kind next ih =>
      cases tokens with
      | nil => cases h
      | cons token tokens =>
        cases hp : kind.parse? token with
        | some v =>
          rw [judge_read_some hp] at h
          rw [Decoder.inRecord, judge_read_some hp]
          exact ih v tokens h
        | none =>
          rw [judge_read_none hp] at h
          cases h
  exact fun rest => judged d (ws ++ rest) rest (h rest)

theorem Listed.consumes {R : Nat → List (List Char) → α → Prop} {f : Nat → Decoder α}
    (hf : ∀ i ws a, R i ws a → (f i).Consumes ws a) {as : List α} (h : Listed R 0 ws as) :
    (collect f as.length).Consumes ws as := by
  have loop (i : Nat) (ws : List (List Char)) (as found : List α) (h : Listed R i ws as) :
      (collectFrom f i as.length found).Consumes ws (found.reverse ++ as) := by
    induction h generalizing found with
    | nil i =>
      rw [List.append_nil]
      exact consumes_done found.reverse
    | @cons i ws rest a as head tail ih =>
      have hrest := ih (a :: found)
      rw [List.reverse_cons, List.append_assoc, List.singleton_append] at hrest
      exact (hf i ws a head).bind hrest
  exact loop 0 ws as [] h

theorem consumes_count {w : List Char} {n : Int} (parsed : Number.int? w = some n) :
    count.Consumes [w] n.toNat :=
  (consumes_token .int parsed).map Int.toNat

theorem Counted.consumes {R : Nat → List (List Char) → α → Prop} {f : Nat → Decoder α}
    (hf : ∀ i ws a, R i ws a → (f i).Consumes ws a) {as : List α} (h : Counted R ws as) :
    (count >>= fun n => collect f n).Consumes ws as := by
  obtain ⟨w, n, rest, rfl, parsed, hlength, hlisted⟩ := h
  refine (consumes_count parsed).bind ?_
  rw [hlength]
  exact hlisted.consumes hf

theorem Counted.consumes_listOf {R : List (List Char) → α → Prop} {d : Decoder α}
    (hd : ∀ ws a, R ws a → d.Consumes ws a) {as : List α} (h : Counted (fun _ => R) ws as) :
    (listOf d).Consumes ws as :=
  h.consumes fun _ => hd

/-- The runs of a decoder whose values come from their words only, and which takes the words of each
value, are told by the words. -/
theorem run_eq_ok_iff {R : List (List Char) → α → Prop} {d : Decoder α} (hreads : d.Reads R)
    (hconsumes : ∀ ws a, R ws a → d.Consumes ws a) {s : Source} (hs : s.Clean) (looks : Nat)
    (a : α) (rest : List (List Char)) :
    (∃ s', d.run .never looks s = (.ok a, s') ∧ s'.tokens = rest) ↔
      ∃ ws, s.tokens = ws ++ rest ∧ R ws a := by
  constructor
  · rintro ⟨s', hrun, rfl⟩
    exact hreads.of_run hrun
  · rintro ⟨ws, htokens, hR⟩
    have hjudge := hconsumes ws a hR rest
    rw [← htokens] at hjudge
    obtain ⟨s', hrun, hrest, -⟩ := run_of_judge hs hjudge looks
    exact ⟨s', hrun, hrest⟩

section Groups

/-- Where each entry of one list is made from an entry of another, so is the list. -/
theorem listed_iff_exists_map {R : Nat → List (List Char) → α → Prop}
    {S : Nat → List (List Char) → β → Prop} {f : α → β}
    (h : ∀ i ws b, S i ws b ↔ ∃ a, R i ws a ∧ f a = b) {i : Nat} {bs : List β} :
    Listed S i ws bs ↔ ∃ as : List α, Listed R i ws as ∧ as.map f = bs := by
  constructor
  · intro hlisted
    induction hlisted with
    | nil i => exact ⟨[], .nil i, rfl⟩
    | @cons i ws rest b bs head tail ih =>
      obtain ⟨a, ha, rfl⟩ := (h i ws b).mp head
      obtain ⟨as, has, rfl⟩ := ih
      exact ⟨a :: as, .cons ha has, rfl⟩
  · rintro ⟨as, hlisted, rfl⟩
    induction hlisted with
    | nil i => exact .nil i
    | @cons i ws rest a as head tail ih => exact .cons ((h i ws (f a)).mpr ⟨a, head, rfl⟩) ih

theorem listed_singleton {R : Nat → List (List Char) → α → Prop} {i : Nat} (h : R i ws a) :
    Listed R i ws [a] := by
  have hlisted : Listed R i (ws ++ []) [a] := .cons h (.nil (i + 1))
  rwa [List.append_nil] at hlisted

/-- The entries of a list have their words one group after the other. -/
theorem listed_iff_forall₂ {R : List (List Char) → α → Prop} {i : Nat} {as : List α} :
    Listed (fun _ => R) i ws as ↔ ∃ groups, ws = groups.flatten ∧ List.Forall₂ R groups as := by
  constructor
  · intro h
    induction h with
    | nil i => exact ⟨[], rfl, .nil⟩
    | @cons i ws rest a as head tail ih =>
      obtain ⟨groups, rfl, hgroups⟩ := ih
      exact ⟨ws :: groups, rfl, .cons head hgroups⟩
  · rintro ⟨groups, rfl, hgroups⟩
    induction hgroups generalizing i with
    | nil => exact .nil i
    | cons head tail ih => exact .cons head ih

/-- Where every entry is one word, the words of a list are told slot by slot. -/
theorem listed_iff_getElem? {S : Nat → List Char → α → Prop} {i : Nat} {as : List α} :
    Listed (fun i ws a => ∃ w, ws = [w] ∧ S i w a) i ws as ↔ ws.length = as.length ∧
      ∀ slot w a, ws[slot]? = some w → as[slot]? = some a → S (i + slot) w a := by
  induction as generalizing i ws with
  | nil =>
    constructor
    · intro h
      cases h
      exact ⟨rfl, fun slot w a hw _ => by simp at hw⟩
    · rintro ⟨hlength, -⟩
      rw [List.eq_nil_of_length_eq_zero hlength]
      exact .nil i
  | cons a as ih =>
    constructor
    · intro h
      obtain _ | @⟨_, _, rest, _, _, ⟨w, rfl, hw⟩, tail⟩ := h
      obtain ⟨hlength, hslots⟩ := ih.mp tail
      refine ⟨by simpa using hlength, fun slot => ?_⟩
      cases slot with
      | zero => rintro w' a' ⟨⟩ ⟨⟩; exact hw
      | succ slot =>
        intro w' a' hw' ha'
        rw [← Nat.add_assoc, Nat.add_right_comm]
        exact hslots slot w' a' hw' ha'
    · rintro ⟨hlength, hslots⟩
      cases ws with
      | nil => cases hlength
      | cons w ws =>
        rw [← List.singleton_append]
        refine .cons ⟨w, rfl, hslots 0 w a rfl rfl⟩ (ih.mpr ⟨by simpa using hlength, ?_⟩)
        intro slot w' a' hw' ha'
        have hslot := hslots (slot + 1) w' a' hw' ha'
        rwa [← Nat.add_assoc, Nat.add_right_comm] at hslot

theorem forall₂_map_self {R : α → β → Prop} {f : α → β} (h : ∀ a, R a (f a)) (as : List α) :
    List.Forall₂ R as (as.map f) :=
  List.forall₂_map_right_iff.mpr (List.forall₂_same.mpr fun a _ => h a)

theorem listed_flatMap {R : List (List Char) → α → Prop} {encode : α → List (List Char)}
    {as : List α} (h : ∀ a ∈ as, R (encode a) a) (i : Nat) :
    Listed (fun _ => R) i (as.flatMap encode) as := by
  induction as generalizing i with
  | nil => exact .nil i
  | cons a as ih =>
    rw [List.flatMap_cons]
    exact .cons (h a List.mem_cons_self) (ih (fun b hb => h b (List.mem_cons_of_mem a hb)) (i + 1))

/-- A list is compiled to its length and to what its entries are compiled to. -/
theorem counted_flatMap {R : List (List Char) → α → Prop} {encode : α → List (List Char)}
    {as : List α} (h : ∀ a ∈ as, R (encode a) a) (hlength : (as.length : Int) ≤ Number.maxInt) :
    Counted (fun _ => R) ((toString as.length).toList :: as.flatMap encode) as := by
  have parsed : Number.int? (toString (as.length : Int)).toList = some (as.length : Int) :=
    Number.int?_toString ⟨Int.le_trans (by decide) (Int.natCast_nonneg _), hlength⟩
  exact ⟨_, _, _, rfl, parsed, Int.toNat_natCast _, listed_flatMap h 0⟩

end Groups

end Decoder

end ModuleSource
