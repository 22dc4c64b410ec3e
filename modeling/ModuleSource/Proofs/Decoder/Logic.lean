import Mathlib.Data.List.Forall2
import ModuleSource.Decoder
import ModuleSource.Proofs.Source.Tokens

/-!
What can be said of a decoder from its parts. `Reads` ties the values of one decoder to the words it
takes them from; `InStep` keeps two decoders at the same place, so that they stop together where
both accept, and the second accepts what the first accepts if its kinds of tokens are the wider
ones. Both go through sequencing and counted lists, whatever the counts are.
-/

namespace ModuleSource

open Text

/-- Every token of the first kind is one of the second. -/
def TokenForm.Within (kind other : TokenForm) : Prop :=
  ∀ w v, kind.parse? w = some v → ∃ v', other.parse? w = some v'

namespace TokenForm

theorem Within.refl (kind : TokenForm) : kind.Within kind := fun _ v parsed => ⟨v, parsed⟩

theorem within_word (kind : TokenForm) : kind.Within .word := fun w _ _ => ⟨String.ofList w, rfl⟩

end TokenForm

namespace Decoder

variable {α β γ δ : Type}

/-- Every value that a decoder can come to is related to the words it was read from. -/
def Reads (R : List (List Char) → α → Prop) : Decoder α → Prop
  | done a => R [] a
  | look next => next.Reads R
  | read _ kind next => ∀ w v, IsWord w → kind.parse? w = some v →
      (next v).Reads fun ws a => R (w :: ws) a

/-- Two decoders that read a token at the same places, of kinds that `K` relates. Where both take
the token they go on in step, and their values are related. Looks are passed over. -/
inductive InStep (K : TokenForm → TokenForm → Prop) (R : α → β → Prop) :
    Decoder α → Decoder β → Prop
  | done {a : α} {b : β} (related : R a b) : InStep K R (done a) (done b)
  | lookLeft {d : Decoder α} {e : Decoder β} (next : InStep K R d e) : InStep K R (look d) e
  | lookRight {d : Decoder α} {e : Decoder β} (next : InStep K R d e) : InStep K R d (look e)
  | read {site site' : Site} {kind kind' : TokenForm} {d : kind.Value → Decoder α}
    {e : kind'.Value → Decoder β} (kinds : K kind kind')
    (next : ∀ w v v', kind.parse? w = some v → kind'.parse? w = some v' →
      InStep K R (d v) (e v')) : InStep K R (read site kind d) (read site' kind' e)

/-- The words of a list are those of its entries, one after the other, where the words of an entry
may depend on its index. -/
inductive Listed (R : Nat → List (List Char) → α → Prop) : Nat → List (List Char) → List α → Prop
  | nil (i : Nat) : Listed R i [] []
  | cons {i : Nat} {ws rest : List (List Char)} {a : α} {as : List α} (head : R i ws a)
    (tail : Listed R (i + 1) rest as) : Listed R i (ws ++ rest) (a :: as)

theorem Listed.of_getElem? {R : Nat → List (List Char) → α → Prop} {i : Nat}
    {ws : List (List Char)} {as : List α} (h : Listed R i ws as) {j : Nat} {a : α}
    (ha : as[j]? = some a) : ∃ ws, R (i + j) ws a := by
  induction h generalizing j with
  | nil i => simp at ha
  | @cons i ws rest b as head tail ih =>
    cases j with
    | zero =>
      obtain rfl : b = a := by simpa using ha
      exact ⟨ws, head⟩
    | succ j =>
      obtain ⟨ws, hws⟩ := ih (by simpa using ha)
      exact ⟨ws, by rwa [Nat.add_right_comm] at hws⟩

/-- The words of a list with its length in front; a negative length stands for none. -/
def Counted (R : Nat → List (List Char) → α → Prop) (ws : List (List Char)) (as : List α) : Prop :=
  ∃ w n rest, ws = w :: rest ∧ Number.int? w = some n ∧ n.toNat = as.length ∧ Listed R 0 rest as

theorem Counted.of_mem {R : List (List Char) → α → Prop} {ws : List (List Char)} {as : List α}
    (h : Counted (fun _ => R) ws as) {a : α} (ha : a ∈ as) : ∃ ws, R ws a := by
  obtain ⟨w, n, rest, -, -, -, hlisted⟩ := h
  obtain ⟨i, hi⟩ := List.getElem?_of_mem ha
  exact hlisted.of_getElem? hi

section Reads

variable {R : List (List Char) → α → Prop} {S : List (List Char) → β → Prop}

theorem Reads.of_run {d : Decoder α} (h : d.Reads R) {signal : StopSignal} {looks : Nat}
    {s s' : Source} {a : α} (hrun : d.run signal looks s = (.ok a, s')) :
    ∃ ws, s.tokens = ws ++ s'.tokens ∧ R ws a := by
  induction d generalizing R looks s with
  | done b =>
    obtain ⟨hb, hs⟩ := Prod.mk.inj hrun
    exact ⟨[], by rw [hs, List.nil_append], Except.ok.inj hb ▸ h⟩
  | look next ih =>
    unfold run at hrun
    split at hrun
    · cases hrun
    · exact ih h hrun
  | read site kind next ih =>
    have step := Source.readStep_read kind s
    unfold run at hrun
    generalize s.read kind = found at step hrun
    obtain ⟨result, t⟩ := found
    dsimp only at step
    cases step with
    | @value w v t took isWord parsed step =>
      obtain ⟨ws, htokens, hR⟩ := ih v (h w v isWord parsed) hrun
      exact ⟨w :: ws, by rw [step.tokens_eq, htokens]; rfl, hR⟩
    | malformed took isWord rejected step => cases hrun
    | undecodable took step => cases hrun
    | ended took step => cases hrun

theorem Reads.bind {d : Decoder α} {f : α → Decoder β} (h : d.Reads R)
    (hf : ∀ ws a, R ws a → (f a).Reads fun rest b => S (ws ++ rest) b) : (d >>= f).Reads S := by
  change (d.bind f).Reads S
  induction d generalizing R S with
  | done a => exact hf [] a h
  | look next ih => exact ih h hf
  | read site kind next ih =>
    exact fun w v isWord parsed => ih v (h w v isWord parsed) fun ws a ha => hf (w :: ws) a ha

theorem Reads.mono {R' : List (List Char) → α → Prop} {d : Decoder α} (h : d.Reads R)
    (hR : ∀ ws a, R ws a → R' ws a) : d.Reads R' := by
  induction d generalizing R R' with
  | done a => exact hR [] a h
  | look next ih => exact ih h hR
  | read site kind next ih =>
    exact fun w v isWord parsed => ih v (h w v isWord parsed) fun ws a ha => hR (w :: ws) a ha

theorem Reads.inRecord {d : Decoder α} (h : d.Reads R) (index : Nat) :
    (d.inRecord index).Reads R := by
  induction d generalizing R with
  | done a => exact h
  | look next ih => exact ih h
  | read site kind next ih => exact fun w v isWord parsed => ih v (h w v isWord parsed)

theorem Reads.map {d : Decoder α} {f : α → β} (h : d.Reads fun ws a => S ws (f a)) :
    (f <$> d).Reads S := by
  refine Reads.bind h fun ws a ha => ?_
  change S (ws ++ []) (f a)
  rwa [List.append_nil]

theorem reads_token (kind : TokenForm) :
    (token kind).Reads fun ws v => ∃ w, ws = [w] ∧ IsWord w ∧ kind.parse? w = some v :=
  fun w _ isWord parsed => ⟨w, rfl, isWord, parsed⟩

theorem Reads.collect {R : Nat → List (List Char) → α → Prop} {f : Nat → Decoder α}
    (hf : ∀ i, (f i).Reads (R i)) (n : Nat) :
    (collect f n).Reads fun ws as => as.length = n ∧ Listed R 0 ws as := by
  -- The entries found so far are kept in reverse; only those still to come have words here.
  have loop (n i : Nat) (found : List α) : (collectFrom f i n found).Reads
      fun ws as => ∃ rest, as = found.reverse ++ rest ∧ rest.length = n ∧ Listed R i ws rest := by
    induction n generalizing i found with
    | zero => exact ⟨[], (List.append_nil _).symm, rfl, .nil i⟩
    | succ n ih =>
      refine (hf i).bind fun ws a ha => (ih (i + 1) (a :: found)).mono ?_
      rintro ws' as ⟨rest, rfl, hlen, hlisted⟩
      refine ⟨a :: rest, ?_, by rw [List.length_cons, hlen], .cons ha hlisted⟩
      rw [List.reverse_cons, List.append_assoc, List.singleton_append]
  refine (loop n 0 []).mono ?_
  rintro ws as ⟨rest, rfl, hlen, hlisted⟩
  exact ⟨hlen, hlisted⟩

theorem reads_count :
    count.Reads fun ws n => ∃ w v, ws = [w] ∧ Number.int? w = some v ∧ n = v.toNat := by
  refine (reads_token .int).bind ?_
  rintro ws v ⟨w, rfl, -, parsed⟩
  exact ⟨w, v, rfl, parsed, rfl⟩

theorem Reads.counted {R : Nat → List (List Char) → α → Prop} {f : Nat → Decoder α}
    (hf : ∀ i, (f i).Reads (R i)) : (count >>= fun n => Decoder.collect f n).Reads (Counted R) := by
  refine reads_count.bind ?_
  rintro ws n ⟨w, v, rfl, parsed, rfl⟩
  refine (Reads.collect hf v.toNat).mono ?_
  rintro rest as ⟨hlen, hlisted⟩
  exact ⟨w, v, rest, rfl, parsed, hlen.symm, hlisted⟩

theorem Reads.listOf {d : Decoder α} (h : d.Reads R) : (listOf d).Reads (Counted fun _ => R) :=
  Reads.counted fun _ => h

end Reads

section InStep

variable {K : TokenForm → TokenForm → Prop} {R : α → β → Prop} {S : γ → δ → Prop}

/-- A read that gives a value took a word that has it. -/
theorem run_read_eq_ok {signal : StopSignal} {site : Site} {kind : TokenForm}
    {next : kind.Value → Decoder α} {looks : Nat} {s s' : Source} {a : α}
    (h : (read site kind next).run signal looks s = (.ok a, s')) :
    ∃ w v t, s.takeWord = (.ok w, t) ∧ kind.parse? w = some v ∧
      (next v).run signal looks t = (.ok a, s') := by
  have step := Source.readStep_read kind s
  unfold run at h
  generalize s.read kind = found at step h
  obtain ⟨result, t⟩ := found
  dsimp only at step
  cases step with
  | @value w v t took isWord parsed step => exact ⟨w, v, t, took, parsed, h⟩
  | malformed took isWord rejected step => cases h
  | undecodable took step => cases h
  | ended took step => cases h

theorem run_look_eq_ok {signal : StopSignal} {next : Decoder α} {looks : Nat} {s s' : Source}
    {a : α} (h : (look next).run signal looks s = (.ok a, s')) :
    next.run signal (looks + 1) s = (.ok a, s') := by
  unfold run at h
  split at h
  · cases h
  · exact h

/-- Where both decoders accept, they stop at the same place. -/
theorem InStep.run_eq {d : Decoder α} {e : Decoder β} (h : d.InStep K R e)
    {signal signal' : StopSignal} {looks looks' : Nat} {s t t' : Source} {a : α} {b : β}
    (hrun : d.run signal looks s = (.ok a, t)) (hrun' : e.run signal' looks' s = (.ok b, t')) :
    t = t' ∧ R a b := by
  induction h generalizing looks looks' s with
  | done related =>
    obtain ⟨ha, rfl⟩ := Prod.mk.inj hrun
    obtain ⟨hb, rfl⟩ := Prod.mk.inj hrun'
    obtain rfl := Except.ok.inj ha
    obtain rfl := Except.ok.inj hb
    exact ⟨rfl, related⟩
  | lookLeft next ih => exact ih (run_look_eq_ok hrun) hrun'
  | lookRight next ih => exact ih hrun (run_look_eq_ok hrun')
  | read kinds next ih =>
    obtain ⟨w, v, u, took, parsed, hnext⟩ := run_read_eq_ok hrun
    obtain ⟨w', v', u', took', parsed', hnext'⟩ := run_read_eq_ok hrun'
    obtain ⟨hword, rfl⟩ := Prod.mk.inj (took.symm.trans took')
    obtain rfl := Except.ok.inj hword
    exact ih w v v' parsed parsed' hnext hnext'

/-- What a run accepts is accepted by a scan of a decoder with wider kinds, up to the same place. -/
theorem InStep.scan {d : Decoder α} {e : Decoder β} (h : d.InStep TokenForm.Within R e)
    {signal : StopSignal} {looks : Nat} {s t : Source} {a : α}
    (hrun : d.run signal looks s = (.ok a, t)) : ∃ b, e.scan s = (.ok b, t) ∧ R a b := by
  induction h generalizing looks s with
  | @done a' b related =>
    obtain ⟨ha, rfl⟩ := Prod.mk.inj hrun
    obtain rfl := Except.ok.inj ha
    exact ⟨b, rfl, related⟩
  | lookLeft next ih => exact ih (run_look_eq_ok hrun)
  | lookRight next ih => exact ih hrun
  | read kinds next ih =>
    obtain ⟨w, v, u, took, parsed, hnext⟩ := run_read_eq_ok hrun
    obtain ⟨v', parsed'⟩ := kinds w v parsed
    obtain ⟨b, hscan, hR⟩ := ih w v v' parsed parsed' hnext
    refine ⟨b, ?_, hR⟩
    rw [Decoder.scan, Source.read_of_takeWord took parsed']
    exact hscan

theorem InStep.bind {d : Decoder α} {e : Decoder β} {f : α → Decoder γ} {g : β → Decoder δ}
    (h : d.InStep K R e) (hf : ∀ a b, R a b → (f a).InStep K S (g b)) :
    (d >>= f).InStep K S (e >>= g) := by
  change (d.bind f).InStep K S (e.bind g)
  induction h with
  | done related => exact hf _ _ related
  | lookLeft next ih => exact .lookLeft ih
  | lookRight next ih => exact .lookRight ih
  | read kinds next ih => exact .read kinds ih

theorem bind_done (d : Decoder α) : d.bind done = d := by
  induction d with
  | done a => rfl
  | look next ih => rw [Decoder.bind, ih]
  | read site kind next ih =>
    rw [Decoder.bind]
    exact congrArg (read site kind) (funext ih)

/-- The second decoder may go on to another value. -/
theorem InStep.map_right {d : Decoder α} {e : Decoder β} {g : β → δ} {S : α → δ → Prop}
    (h : d.InStep K R e) (hg : ∀ a b, R a b → S a (g b)) :
    d.InStep K S (e >>= fun b => pure (g b)) := by
  rw [← bind_done d]
  exact h.bind fun a b hab => .done (hg a b hab)

theorem InStep.mono {R' : α → β → Prop} {d : Decoder α} {e : Decoder β} (h : d.InStep K R e)
    (hR : ∀ a b, R a b → R' a b) : d.InStep K R' e := by
  induction h with
  | done related => exact .done (hR _ _ related)
  | lookLeft next ih => exact .lookLeft ih
  | lookRight next ih => exact .lookRight ih
  | read kinds next ih => exact .read kinds ih

theorem InStep.inRecord_left {d : Decoder α} {e : Decoder β} (h : d.InStep K R e) (index : Nat) :
    (d.inRecord index).InStep K R e := by
  induction h with
  | done related => exact .done related
  | lookLeft next ih => exact .lookLeft ih
  | lookRight next ih => exact .lookRight ih
  | read kinds next ih => exact .read kinds ih

theorem InStep.inRecord_right {d : Decoder α} {e : Decoder β} (h : d.InStep K R e) (index : Nat) :
    d.InStep K R (e.inRecord index) := by
  induction h with
  | done related => exact .done related
  | lookLeft next ih => exact .lookLeft ih
  | lookRight next ih => exact .lookRight ih
  | read kinds next ih => exact .read kinds ih

theorem InStep.refl (hK : ∀ kind, K kind kind) (d : Decoder α) : d.InStep K Eq d := by
  induction d with
  | done a => exact .done rfl
  | look next ih => exact .lookLeft (.lookRight ih)
  | read site kind next ih =>
    refine .read (hK kind) fun w v v' parsed parsed' => ?_
    obtain rfl := Option.some.inj (parsed.symm.trans parsed')
    exact ih v

/-- Whatever both decoders read first, they read alike. -/
theorem InStep.bind_refl (hK : ∀ kind, K kind kind) (d : Decoder α) {f : α → Decoder γ}
    {g : α → Decoder δ} (hf : ∀ a, (f a).InStep K S (g a)) : (d >>= f).InStep K S (d >>= g) := by
  refine (InStep.refl hK d).bind fun a b hab => ?_
  subst hab
  exact hf a

theorem InStep.collect {f : Nat → Decoder α} {g : Nat → Decoder β}
    (h : ∀ i, (f i).InStep K R (g i)) (n : Nat) :
    (collect f n).InStep K (List.Forall₂ R) (collect g n) := by
  have loop (n i : Nat) (found : List α) (found' : List β) (hfound : List.Forall₂ R found found') :
      (collectFrom f i n found).InStep K (List.Forall₂ R) (collectFrom g i n found') := by
    induction n generalizing i found found' with
    | zero => exact .done (List.rel_reverse hfound)
    | succ n ih => exact (h i).bind fun a b hab => ih (i + 1) _ _ (.cons hab hfound)
  exact loop n 0 [] [] .nil

/-- Lists with their lengths in front are as long as each other. -/
theorem InStep.counted (hK : ∀ kind, K kind kind) {f : Nat → Decoder α} {g : Nat → Decoder β}
    (h : ∀ i, (f i).InStep K R (g i)) :
    (count >>= fun n => Decoder.collect f n).InStep K (List.Forall₂ R)
      (count >>= fun n => Decoder.collect g n) :=
  InStep.bind_refl hK count fun n => InStep.collect h n

theorem InStep.listOf (hK : ∀ kind, K kind kind) {d : Decoder α} {e : Decoder β}
    (h : d.InStep K R e) : (listOf d).InStep K (List.Forall₂ R) (listOf e) :=
  InStep.counted hK fun _ => h

end InStep

end Decoder

end ModuleSource
