import ModuleSource.Proofs.Decoder.LineIndependence
import ModuleSource.Proofs.Name.ScriptNames
import ModuleSource.Proofs.Statement.Faults

/-!
Passing over a block and decoding it. The walk that only passes asks for the same tokens as the
decoder, except that it takes any word for an operand. So the two fail together, with the same
failure and in the same place, unless the decoder refuses an operand.
-/

namespace ModuleSource

open Decoder

/-- Operands of which nothing is known: any word will do. -/
def wordForms : OperandForms := fun _ _ => .word

namespace Statement

variable {forms : OperandForms} {ws : List (List Char)} {place : Place} {kind : TokenForm}

theorem WellFormed.words (h : WellFormed forms ws) : WellFormed wordForms ws := by
  obtain ⟨parsed, counted, length, -⟩ := h
  exact .mk parsed counted length fun _ v _ => ⟨String.ofList v, rfl⟩

/-- What is asked for if operands may be any words. -/
theorem Awaits.words (h : Awaits forms ws place kind) :
    Awaits wordForms ws place (if place = .operand then .word else kind) := by
  cases h with
  | opcode => exact .opcode
  | count parsed => exact .count parsed
  | operand parsed counted more operands =>
    exact .operand parsed counted more fun _ v _ => ⟨String.ofList v, rfl⟩

end Statement

namespace Block

variable {forms : OperandForms} {table : OperatorSet} {ws : List (List Char)} {place : Place}
  {kind : TokenForm}

/-- Whether a token of a block is an operand. -/
def Place.isOperand : Place → Bool
  | inRecord _ .operand => true
  | _ => false

theorem Place.isOperand_iff : place.isOperand = true ↔ ∃ r, place = .inRecord r .operand := by
  rcases place with _ | ⟨r, _ | _ | _⟩ <;> simp [isOperand]

theorem Awaits.words (h : Awaits forms ws place kind) :
    Awaits wordForms ws place (if place.isOperand then .word else kind) := by
  cases h with
  | count => exact .count
  | @inRecord w n records part place _ parsed complete more awaits =>
    have hwords := Awaits.inRecord parsed (fun record hrecord => (complete record hrecord).words)
      more awaits.words
    cases place with
    | opcode => exact hwords
    | count => exact hwords
    | operand => exact hwords

theorem pass_awaits (h : Awaits wordForms ws place kind) : ∃ site, pass.Awaits ws site kind := by
  have hforms : OfForms wordForms fun _ _ => Decoder.word := fun _ _ => ⟨id, rfl⟩
  have hpass : pass = (fun _ => ()) <$> (count >>= fun n =>
      collect (fun _ => recordOf (fun _ _ => Decoder.word) fun _ _ => ()) n) := rfl
  rw [hpass]
  refine ⟨place.site fun _ => .field, awaits_map_iff.mpr ?_⟩
  refine (awaits_records_iff (fun _ _ => ?_) fun _ _ _ _ => ?_).mpr ⟨place, h, rfl⟩
  · exact hforms.exists_consumes_recordOf_iff
  · exact hforms.awaits_recordOf_iff

/-- The walk fails as the decoder does, if the decoder does not refuse an operand. -/
theorem scan_pass_of_awaits {s s' t : Source} {cause : ReadFailure} (hgives : s.Gives ws t)
    (h : Awaits forms ws place kind) (hread : t.read kind = (.error cause, s'))
    (hsame : place.isOperand = false ∨ ∀ other : TokenForm, t.read other = (.error cause, s')) :
    pass.scan s = (.error cause, s') := by
  obtain ⟨site, hpass⟩ := pass_awaits h.words
  refine scan_of_awaits hgives hpass ?_
  rcases hsame with hplace | hany
  · rw [hplace]
    exact hread
  · exact hany _

/-- The last token that was taken on the way from one position to another stands at a place of the
block that starts there, and is not of the kind that is asked for. -/
def RefusedAt (forms : OperandForms) (s s' : Source) (token : String) (place : Place) : Prop :=
  ∃ ws kind, Awaits forms ws place kind ∧ s.tokens = ws ++ token.toList :: s'.tokens ∧
    kind.parse? token.toList = none

/-- Passing over a block and decoding it, if no stop is asked for at its start. What the decoder
accepts is passed over, up to the same position. Where the decoder fails for the end, for a line
that does not decode, or for a count or an opcode, the walk fails in the same way and in the same
position. What is passed over is decoded, unless an operand is not of its kind. -/
theorem pass_agrees_with_decoder (table : OperatorSet) (signal : StopSignal) (looks : Nat)
    (s : Source) (h : signal looks s.fetched = false) :
    (∀ block s', (decoder table).run signal looks s = (.ok block, s') →
      pass.scan s = (.ok (), s')) ∧
    (∀ site cause s', (decoder table).run signal looks s = (.error (Site.error site cause), s') →
      ((∃ line, cause = .endOfStream line) ∨ (∃ access, cause = .access access) ∨
        ∃ line token expected place, cause = .malformed line token expected ∧
          RefusedAt table.operandForms s s' token place ∧ place.isOperand = false) →
      pass.scan s = (.error cause, s')) ∧
    ∀ s', pass.scan s = (.ok (), s') →
      (∃ block, (decoder table).run signal looks s = (.ok block, s')) ∨
        ∃ r line token expected s'', (decoder table).run signal looks s =
            (.error (.malformedStatement r (.malformed line token expected)), s'') ∧
          RefusedAt table.operandForms s s'' token (.inRecord r .operand) := by
  have hok (block : Block) (s' : Source)
      (hrun : (decoder table).run signal looks s = (.ok block, s')) :
      pass.scan s = (.ok (), s') := by
    obtain ⟨⟨⟩, hscan, -⟩ := (decoder_inStep_pass table).scan hrun
    exact hscan
  refine ⟨hok, ?_, ?_⟩
  · intro site cause s' hrun hcause
    rw [run_decoder, h] at hrun
    obtain ⟨ws, t, site', kind, cause', hgives, hawaits, hread, he⟩ := exists_awaits_of_run hrun
    obtain rfl := Site.error_inj he
    obtain ⟨place, hplace, -⟩ := decoder_awaits_iff.mp hawaits
    rcases Source.read_eq_error hread with ⟨w, hw, -, rfl⟩ | ⟨hany, -⟩
    · obtain ⟨line, hline⟩ | ⟨access, haccess⟩ | ⟨line, token, expected, place', hmalformed,
        ⟨ws', kind', hplace', htokens, -⟩, hcounts⟩ := hcause
      · cases hline
      · cases haccess
      · -- Both places are found after the same tokens, so the same kind is asked for.
        rw [hgives.tokens_eq, hw] at htokens
        obtain ⟨rfl, -⟩ := List.append_inj' htokens rfl
        obtain ⟨-, rfl⟩ := hawaits.unique (decoder_awaits_iff.mpr ⟨place', hplace', rfl⟩)
        exact scan_pass_of_awaits hgives hplace' hread (Or.inl hcounts)
    · exact scan_pass_of_awaits hgives hplace hread (Or.inr hany)
  · intro s' hpass
    rcases hrun : (decoder table).run signal looks s with ⟨e | block, s''⟩
    · right
      rw [run_decoder, h] at hrun
      obtain ⟨ws, t, site, kind, cause, hgives, hawaits, hread, rfl⟩ := exists_awaits_of_run hrun
      obtain ⟨place, hplace, rfl⟩ := decoder_awaits_iff.mp hawaits
      rcases Source.read_eq_error hread with ⟨w, hw, rejected, rfl⟩ | ⟨hany, -⟩
      · have hoperand : place.isOperand = true := by
          by_contra hcounts
          rw [Bool.not_eq_true] at hcounts
          cases hpass.symm.trans (scan_pass_of_awaits hgives hplace hread (Or.inl hcounts))
        obtain ⟨r, rfl⟩ := Place.isOperand_iff.mp hoperand
        refine ⟨r, _, _, _, s'', rfl, ws, kind, hplace, ?_, ?_⟩
        · rw [hgives.tokens_eq, hw, String.toList_ofList]
        · rwa [String.toList_ofList]
      · cases hpass.symm.trans (scan_pass_of_awaits hgives hplace hread (Or.inr hany))
    · left
      obtain ⟨-, rfl⟩ := Prod.mk.inj (hpass.symm.trans (hok block s'' hrun))
      exact ⟨block, rfl⟩

/-- A statement with a word for an operand, which is passed over and not decoded. The stop that is
asked for on its second line comes too late. -/
theorem pass_agrees_with_decoder_word :
    let table : OperatorSet := ⟨.vanilla, []⟩
    let signal := StopSignal.atLine 2
    let s := Source.ofBytes "1 4\n1 x".toUTF8
    signal 0 s.fetched = false ∧ (pass.scan s).1 = .ok () ∧
      ∃ r line token expected s', (decoder table).run signal 0 s =
          (.error (.malformedStatement r (.malformed line token expected)), s') ∧
        RefusedAt table.operandForms s s' token (.inRecord r .operand) := by
  intro table signal s
  have hgo : signal 0 s.fetched = false := by decide +kernel
  have hpass : (pass.scan s).1 = .ok () := by decide +kernel
  have hrefused : ((decoder table).run signal 0 s).1 =
      .error (.malformedStatement 0 (.malformed 2 "x" .int)) := by decide +kernel
  refine ⟨hgo, hpass, ?_⟩
  rcases (pass_agrees_with_decoder table signal 0 s hgo).2.2 _ (Prod.ext hpass rfl) with
    ⟨block, hrun⟩ | hoperand
  · rw [hrun] at hrefused
    cases hrefused
  · exact hoperand

end Block

end ModuleSource
