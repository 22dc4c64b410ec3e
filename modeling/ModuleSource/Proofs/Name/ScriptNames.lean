import ModuleSource.Proofs.Decoder.Logic
import ModuleSource.Proofs.Decoder.SelfDelimiting
import ModuleSource.Proofs.Statement.Legible

/-!
The names taken from a script file and the module generated from it number the scripts alike. The
walk that only collects names follows the decoder of scripts token by token, under every set of
operators, so it ends in the same place and finds the name of each script in its turn.
-/

namespace ModuleSource

open Layout

theorem Operand.decoder_inStep_word (role : Role) :
    (decoder role).InStep TokenForm.Within (fun _ _ => True) Decoder.word := by
  cases role with
  | int => exact .read (TokenForm.within_word .int) fun _ _ _ _ _ => .done trivial
  | float => exact .read (TokenForm.within_word .float) fun _ _ _ _ _ => .done trivial
  | entity kind => exact .read (TokenForm.within_word .int) fun _ _ _ _ _ => .done trivial

/-- Passing over a block keeps in step with decoding it: the counts are read alike, and the words
passed over are the operands, whatever kind the operator asks for. -/
theorem Block.decoder_inStep_pass (table : OperatorSet) :
    (decoder table).InStep TokenForm.Within (fun _ _ => True) pass := by
  refine .lookLeft (.bind_refl .refl Decoder.count fun n => ?_)
  refine Decoder.InStep.map_right (Decoder.InStep.collect (R := fun _ _ => True) (fun r => ?_) n)
    fun _ _ _ => trivial
  refine Decoder.InStep.inRecord_left ?_ r
  refine .bind_refl .refl Decoder.int fun opcode => ?_
  refine .bind_refl .refl Decoder.count fun m => ?_
  exact (Decoder.InStep.collect (fun slot => Operand.decoder_inStep_word _) m).bind
    fun _ _ _ => .done trivial

end ModuleSource
