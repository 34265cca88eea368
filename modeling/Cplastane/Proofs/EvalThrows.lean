import Cplastane.Proofs.Evaluation
import Cplastane.Proofs.Refusals

/-! Which exceptions an evaluation can end with, over every text and every kernel. -/

namespace Cplastane
open Parsec Text Assembly Jit Exceptions

section Parsing

def Escapes (error : Throw) : Prop := error = .indexWithoutScale ∨ error = .scaleLiteral

private theorem scaleOfLiteral_raises (n : i64) : Raises Escapes (scaleOfLiteral n) := by
  intro error thrown
  unfold scaleOfLiteral at thrown
  split at thrown
  · cases thrown
  split at thrown
  · cases thrown
  split at thrown
  · cases thrown
  split at thrown
  · cases thrown
  split at thrown
  · cases thrown
  · cases thrown
    exact .inr rfl

private theorem mem_raises (base index : Reg) (scale : Scale) (disp : Disp) :
    Raises Escapes (Arg.mem base index scale disp) := by
  intro error thrown
  unfold Arg.mem at thrown
  split at thrown
  · cases thrown
    exact .inl rfl
  · cases thrown

private theorem readIndex_raises (text : List Char) : Raises Escapes (readIndex text) := by
  intro error thrown
  have reading := readIndex_reading text
  rw [thrown] at reading
  cases reading with
  | improper known number stops refused split => exact scaleOfLiteral_raises _ _ refused

private theorem readMemory_raises (text : List Char) : Raises Escapes (readMemory text) := by
  unfold readMemory
  split
  · exact Raises.ok _
  · apply Raises.bind (readIndex_raises _)
    rintro ⟨⟨index, scale⟩, rest⟩ _
    dsimp only
    split
    · exact Raises.pure _
    · apply Raises.bind (mem_raises _ _ _ _)
      intro arg _
      exact Raises.pure _

private theorem readArg_raises (text : List Char) : Raises Escapes (readArg text) := by
  unfold readArg
  split
  · exact Raises.ok _
  split
  · exact Raises.ok _
  split
  · exact Raises.ok _
  · exact readMemory_raises _

private theorem readOperands_raises (text : List Char) : Raises Escapes (readOperands text) := by
  unfold readOperands
  apply Raises.bind (readArg_raises text)
  intro first _
  cases first with
  | error failure => exact Raises.pure _
  | ok result =>
    dsimp only
    split
    · exact Raises.pure _
    · apply Raises.bind (readArg_raises _)
      intro second _
      cases second <;> exact Raises.pure _

private theorem readLine_raises (text : List Char) : Raises Escapes (readLine text) := by
  unfold readLine
  split
  · exact Raises.ok _
  · apply Raises.bind (readOperands_raises _)
    intro operands _
    cases operands with
    | error failure => exact Raises.pure _
    | ok result =>
      dsimp only
      split <;> exact Raises.pure _

private theorem parse_escapes {text : List Char} {fault : Fault Throw} (failed : parse (.ofText text) = .error fault) :
    ∃ error, fault = .thrown error ∧ Escapes error := by
  obtain ⟨mnemos, bad, outcome, lines, stopped⟩ := lines_stop text
  rw [parse_stopped lines stopped] at failed
  cases stopped with
  | finished | refused => cases failed
  | thrown read =>
    cases failed
    exact ⟨_, rfl, readLine_raises bad _ read⟩

end Parsing

/-- The exceptions a caller of the evaluator can see. The list is by constructors, not by a run:
that each of them is seen and no other one is what has to be shown. -/
def EvalThrow.Seen : EvalThrow → Prop
  | parsing (.thrown error) => Escapes error
  | parsing _ => False
  | unwrap => True
  | assembling error => error.Seen ∧ error.internal = false
  | running _ => True

def Ends (error : EvalThrow) : Prop :=
  ∃ kernel func text effects, (eval kernel func (.ofText text)).onto [] = (.error error, effects)

def answering (mapped : Option Nat) (freed : Bool) : Kernel := ⟨fun _ => mapped, fun _ _ => ∅, fun _ => fun _ => freed, fun _ _ => ∅⟩

private theorem ends_parsing {text : List Char} {error : Throw} (read : readLine text = .error error) :
    Ends (.parsing (.thrown error)) := by
  refine ⟨answering none false, fun _ => 0, text, [], ?_⟩
  simp only [eval, bind_onto, escaping_onto, parse_stopped (.here text) (.thrown read), finish, Except.mapError]

private theorem ends_assembling {text : List Char} {mnemo : Mnemo} {error : Throw}
    (read : readLine text = .ok (.ok (mnemo, [])))
    (refused : assembleMnemo [] mnemo = .error error) : Ends (.assembling error) := by
  refine ⟨answering none false, fun _ => 0, text, [], ?_⟩
  have thrown : assemble [mnemo] = .error error := (assemble_singleton mnemo).trans refused
  simp only [eval, bind_onto, escaping_onto, parse_stopped (.next read (.here [])) .finished, finish, Except.mapError,
    Result.value, thrown]

private theorem ends_running {mapped : Option Nat} {freed : Bool} {error : JitThrow}
    (fails : ∀ outcome effects, Ran (answering mapped freed) (fun _ => 0) (data [0xc3]) 1 outcome effects → outcome = .error error) :
    Ends (.running error) := by
  have read : readLine "ret\n".toList = .ok (.ok (⟨.ret, .notSet, .undef, .undef⟩, [])) := rfl
  have assembled : assemble [⟨.ret, .notSet, .undef, .undef⟩] = .ok [0xc3] := rfl
  obtain ⟨outcome, effects, same, ran⟩ := evalMc_ran (answering mapped freed) (fun _ => 0) (data [0xc3]) 1
  refine ⟨answering mapped freed, fun _ => 0, "ret\n".toList, effects, ?_⟩
  rw [eval_assembled (parse_stopped (.next read (.here [])) .finished) assembled]
  cases fails outcome effects ran
  exact congrArg (fun run : Except JitThrow i64 × List Effect => (run.1.mapError EvalThrow.running, run.2)) same

/-- Behind the parser, what the assembler refuses is refused with an error of the program. -/
private theorem assembling_seen {text : List Char} {result : ParserResult (List Mnemo)} {error : Throw}
    (parsed : parse (.ofText text) = .ok (.ok result)) (refused : assemble result.data = .error error) :
    error.Seen ∧ error.internal = false := by
  have formed := (parse_ok_iff.mp parsed).1.formed
  have opened : Open (assemble result.data) := Raises.foldlM [] fun mnemo _ out => assembleMnemo_open out mnemo
  have calm : Calm (assemble result.data) := Raises.foldlM [] fun mnemo member out => assembleMnemo_calm out (formed mnemo member)
  exact ⟨opened error refused, calm error refused⟩

private theorem assembling_ends {error : Throw} (seen : error.Seen) (external : error.internal = false) :
    Ends (.assembling error) := by
  cases error with
  | arg1Width => exact @ends_assembling "push DWORD al\n".toList _ _ rfl rfl
  | arg2Width => exact @ends_assembling "mov DWORD eax, al\n".toList _ _ rfl rfl
  | addressWidths => exact @ends_assembling "push QWORD [rax + ecx * 1]\n".toList _ _ rfl rfl
  | unsupportedOperation => exact @ends_assembling "push QWORD [rax + esp * 1]\n".toList _ _ rfl rfl
  | operandWidth => exact @ends_assembling "push 0\n".toList _ _ rfl rfl
  | movShape => exact @ends_assembling "mov\n".toList _ _ rfl rfl
  | addShape => exact @ends_assembling "add\n".toList _ _ rfl rfl
  | pushPopShape isPush => cases isPush with
    | true => exact @ends_assembling "push\n".toList _ _ rfl rfl
    | false => exact @ends_assembling "pop\n".toList _ _ rfl rfl
  | pushPopRegister isPush => cases isPush with
    | true => exact @ends_assembling "push DWORD eax\n".toList _ _ rfl rfl
    | false => exact @ends_assembling "pop DWORD eax\n".toList _ _ rfl rfl
  | pushPopMemory isPush => cases isPush with
    | true => exact @ends_assembling "push DWORD [rax]\n".toList _ _ rfl rfl
    | false => exact @ends_assembling "pop DWORD [rax]\n".toList _ _ rfl rfl
  | popImmediate => exact @ends_assembling "pop QWORD 0\n".toList _ _ rfl rfl
  | pushWidth => exact @ends_assembling "push QWORD 0\n".toList _ _ rfl rfl
  | immTooLarge msg =>
    rcases seen with rfl | rfl
    · exact @ends_assembling "mov QWORD [rax], 4294967296\n".toList _ _ rfl rfl
    · exact @ends_assembling "add QWORD [rax], 4294967296\n".toList _ _ rfl rfl
  | registerWidth | regToNumber | scaleIsS0 | scaleIsUndef | appendImmWidth | unexpectedShape | movWrongMnemo
  | addWrongMnemo | unimplementedTag | undefTag | undefWidth => cases external
  | pushPopWrongMnemo isPush => cases external
  | indexWithoutScale | scaleLiteral => cases seen

private theorem ends_unwrap : Ends .unwrap := by
  have read : readLine "?".toList = .ok (.error ⟨"expected mnemo name", "?".toList⟩) := rfl
  have refused := parse_stopped (.here _) (.refused (by decide) read)
  refine ⟨answering none false, fun _ => 0, "?".toList, [], ?_⟩
  simp only [eval, bind_onto, escaping_onto, refused, finish, Except.mapError, Result.value, id]

private theorem running_ends (error : JitThrow) : Ends (.running error) := by
  cases error with
  | allocationFailed =>
    refine @ends_running none false _ fun outcome effects ran => ?_
    cases ran with
    | refused => rfl
    | null mapped | kept mapped | returned mapped => cases mapped
  | mmapFailed =>
    refine @ends_running (some 0) false _ fun outcome effects ran => ?_
    cases ran with
    | refused unmapped => cases unmapped
    | null => rfl
    | kept mapped nonnull | returned mapped nonnull =>
      cases mapped
      exact absurd rfl nonnull
  | deallocationFailed =>
    refine @ends_running (some 65536) false _ fun outcome effects ran => ?_
    cases ran with
    | refused unmapped => cases unmapped
    | null mapped => cases mapped
    | kept => rfl
    | returned mapped nonnull freed => cases freed

theorem Ends.seen {error : EvalThrow} (ends : Ends error) : error.Seen := by
  obtain ⟨kernel, func, text, effects, failed⟩ := ends
  obtain ⟨outcome, _, same, evaluated⟩ := eval_evaluated kernel func (.ofText text)
  have thrown : outcome = .error error := congrArg Prod.fst (same.symm.trans failed)
  cases evaluated with
  | parsing escaped =>
    cases thrown
    obtain ⟨error, rfl, escapes⟩ := parse_escapes escaped
    exact escapes
  | unwrap refused =>
    cases thrown
    exact trivial
  | assembling parsed refused =>
    cases thrown
    exact assembling_seen parsed refused
  | @ran _ _ outcome _ parsed assembled ran => cases outcome with
    | error error =>
      cases thrown
      exact trivial
    | ok value => cases thrown

/-- An exception is what some evaluation ends with exactly if it is one of these. -/
theorem eval_throws_iff (error : EvalThrow) : Ends error ↔ error.Seen := by
  constructor
  · exact Ends.seen
  · intro seen
    cases error with
    | parsing fault => cases fault with
      | thrown error =>
        rcases seen with rfl | rfl
        · exact @ends_parsing "pop [eax + ebx]\n".toList _ rfl
        · exact @ends_parsing "pop [eax + ebx * 3]\n".toList _ rfl
      | outOfBounds | diverges => cases seen
    | unwrap => exact ends_unwrap
    | assembling error => exact assembling_ends seen.1 seen.2
    | running error => exact running_ends error

end Cplastane
