import Cplastane.Assembly.Log
import Cplastane.Proofs.ErrorPlace
import Cplastane.Proofs.ErrorTexts

/-! What is logged of a failed parse: the error's text, and the text of the program from the
place of the error on. The loop that prints it stays inside. -/

namespace Cplastane.Assembly
open Parsec Text Exceptions

section Stages

variable {α β : Type} {printed : List Char}

private theorem logging_bind (first : Logging α) (next : α → Logging β) :
    (first >>= next).onto printed =
      match first.onto printed with
      | (.ok value, later) => (next value).onto later
      | (.error error, later) => (.error error, later) := by
  unfold Logging.onto
  rw [ExceptT.run_bind, StateT.run_bind]
  rcases first.run.run printed with ⟨_ | _, later⟩ <;> rfl

private theorem output_onto (text : List Char) : (output text).onto printed = (.ok (), printed ++ text) := rfl

private theorem throw_onto (fault : Fault LogThrow) :
    (throw fault : Logging α).onto printed = (.error fault, printed) := rfl

private theorem reading_onto (result : Except (Fault LogThrow) α) :
    (reading result).onto printed = (result, printed) := rfl

/-- The loop prints what is left of the cursor. -/
private theorem outputFrom_onto {text rest : List Char} (suffix : rest <:+ text) (i : Nat) :
    (outputFrom (cursor text rest) i).onto printed = (.ok (), printed ++ rest.drop i) := by
  induction left : rest.length - i generalizing i printed with
  | zero =>
    rw [outputFrom, if_neg (by rw [cursor_size]; omega), List.drop_eq_nil_of_le (by omega), List.append_nil]
    rfl
  | succ left ih =>
    have inside : i < rest.length := by omega
    have read : (cursor text rest).get i = (.ok rest[i] : Except (Fault LogThrow) Char) :=
      cursor_get suffix (List.getElem?_eq_getElem inside)
    rw [outputFrom, if_pos (by rwa [cursor_size]), read]
    simp only [logging_bind, reading_onto, output_onto]
    rw [ih (i + 1) (by omega), List.append_assoc, List.singleton_append, ← List.drop_eq_getElem_cons inside]

end Stages

/-- A failed parse is logged by the error's text and all that follows its place, which is in
the first line that is refused; behind the complete log is the exception. -/
theorem failed_parse_logged {text : List Char} {error : ParserError}
    (failed : parse (.ofText text) = .ok (.error error)) (printed : List Char) :
    ∃ lines consumed rest, text = lines ++ (consumed ++ rest) ∧ AcceptedLines text text (consumed ++ rest) ∧
      parseLine (cursor text (consumed ++ rest)) = .ok (.error error) ∧ '\n' ∉ consumed ∧ error.place = cursor text rest ∧
      (unwrapOrLogError (.error error : ParserResultResult (List Mnemo))).onto printed = (.error (.thrown .parsingError),
        printed ++ ("Parsing error:\n".toList ++ (error.what.toList ++ ("\nSomewhere in:\n".toList ++ (rest ++ ['\n']))))) := by
  obtain ⟨mnemos, bad, failure, lines, read, rfl⟩ := parse_failure failed
  obtain ⟨front, split⟩ := lines.suffix
  obtain ⟨consumed, rfl, plain⟩ := readLine_failure read
  have suffix : failure.rest <:+ text := (List.suffix_append consumed failure.rest).trans lines.suffix
  refine ⟨front, consumed, failure.rest, split.symm, lines.accepted List.suffix_rfl, ?_, plain, rfl, ?_⟩
  · rw [parseLine_cursor lines.suffix, read]
    rfl
  · simp only [unwrapOrLogError, logging_bind, output_onto, outputFrom_onto suffix, throw_onto, List.drop_zero]
    simp

theorem failed_parse_logged_name : ∃ lines consumed rest, "ret\n?\n".toList = lines ++ (consumed ++ rest) ∧
    AcceptedLines "ret\n?\n".toList "ret\n?\n".toList (consumed ++ rest) ∧
    parseLine (cursor "ret\n?\n".toList (consumed ++ rest)) =
      .ok (.error ⟨"expected mnemo name", cursor "ret\n?\n".toList "?\n".toList⟩) ∧
    '\n' ∉ consumed ∧ cursor "ret\n?\n".toList "?\n".toList = cursor "ret\n?\n".toList rest ∧
    (unwrapOrLogError (.error ⟨"expected mnemo name", cursor "ret\n?\n".toList "?\n".toList⟩ :
      ParserResultResult (List Mnemo))).onto [] = (.error (.thrown .parsingError),
        [] ++ ("Parsing error:\n".toList ++ ("expected mnemo name".toList ++ ("\nSomewhere in:\n".toList ++ (rest ++ ['\n']))))) := by
  have first : readLine "ret\n?\n".toList = .ok (.ok (⟨.ret, .notSet, .undef, .undef⟩, "?\n".toList)) := rfl
  have second : readLine "?\n".toList = .ok (.error ⟨"expected mnemo name", "?\n".toList⟩) := rfl
  exact failed_parse_logged (parse_stopped (.next first (.here _)) (.refused (by decide) second)) []

end Cplastane.Assembly
