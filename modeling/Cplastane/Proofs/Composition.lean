import Cplastane.Proofs.ErrorPlace
import Cplastane.Proofs.Program

/-! Texts are processed line by line: behind an accepted text, a second one is parsed
and assembled as it is alone. -/

namespace Cplastane.Assembly
open Parsec Text Exceptions

def behind (before : List Char) (place : Strive) : Strive := ⟨before ++ place.s, before.length + place.start, place.size⟩

private theorem behind_cursor {text rest : List Char} (before : List Char) (suffix : rest <:+ text) :
    behind before (cursor text rest) = cursor (before ++ text) rest := by
  have bound := suffix.length_le
  simp only [behind, cursor, List.length_append, Strive.mk.injEq, true_and, and_true]
  omega

variable {text : List Char}

private theorem finish_behind {before rest : List Char} {mnemos others : List Mnemo}
    {outcome : Except Throw (Option Failure)}
    (lines : Lines text others rest) (stopped : Stopped rest outcome) (program : ProgramText wrapped before mnemos) :
    parse (.ofText (before ++ text)) = finish (before ++ text) (mnemos ++ others) outcome :=
  parse_stopped ((program.lines text).trans lines) stopped

private theorem throws_iff {α : Type} {result : Except Throw α} :
    (∃ error, result = .error error) ↔ ¬∃ value, result = .ok value := by
  cases result <;> simp

theorem assemble_append_throws_iff (first second : List Mnemo) :
    (∃ error, assemble (first ++ second) = .error error) ↔
      (∃ error, assemble first = .error error) ∨ ∃ error, assemble second = .error error := by
  simp only [throws_iff, assemble_append_ok_iff]
  constructor
  · intro never
    by_contra both
    push Not at both
    obtain ⟨⟨left, start⟩, right, rest⟩ := both
    exact never ⟨left ++ right, left, right, start, rest, rfl⟩
  · intro either found
    obtain ⟨bytes, left, right, start, rest, -⟩ := found
    rcases either with first | second
    · exact first ⟨left, start⟩
    · exact second ⟨right, rest⟩

/-- Line-wise compositionality of parsing and assembling. -/
theorem pipeline_composes (first second : List Char) {end1 : Strive} {m1 : List Mnemo}
    (parsed : parse (.ofText first) = .ok (.ok ⟨end1, m1⟩)) :
    (∀ end2 m2, parse (.ofText second) = .ok (.ok ⟨end2, m2⟩) →
      parse (.ofText (first ++ second)) = .ok (.ok ⟨behind first end2, m1 ++ m2⟩) ∧
      ((∃ error, assemble (m1 ++ m2) = .error error) ↔
        (∃ error, assemble m1 = .error error) ∨ ∃ error, assemble m2 = .error error) ∧
      ∀ left right, assemble m1 = .ok left → assemble m2 = .ok right → assemble (m1 ++ m2) = .ok (left ++ right)) ∧
    (∀ what place, parse (.ofText second) = .ok (.error ⟨what, place⟩) →
      parse (.ofText (first ++ second)) = .ok (.error ⟨what, behind first place⟩)) ∧
    (∀ error, parse (.ofText second) = .error (.thrown error) →
      parse (.ofText (first ++ second)) = .error (.thrown error)) := by
  have program := (parse_ok_iff.mp parsed).1
  obtain ⟨m2, stop, outcome, lines, stopped⟩ := lines_stop second
  have alone := parse_stopped lines stopped
  have joined := finish_behind lines stopped program
  refine ⟨?_, ?_, ?_⟩
  · intro end2 others accepted
    rw [alone] at accepted
    cases stopped with
    | refused | thrown => cases accepted
    | finished =>
      cases accepted
      refine ⟨?_, assemble_append_throws_iff m1 m2, ?_⟩
      · rw [joined, finish, behind_cursor first (List.nil_suffix)]
      · intro left right start rest
        exact (assemble_append_ok_iff m1 m2 _).mpr ⟨left, right, start, rest, rfl⟩
  · intro what place refused
    rw [alone] at refused
    cases stopped with
    | finished | thrown => cases refused
    | refused nonempty read =>
      cases refused
      rw [joined, finish, behind_cursor first ((readLine_failure read).suffix.trans lines.suffix)]
  · intro error threw
    rw [alone] at threw
    cases stopped with
    | finished | refused => cases threw
    | thrown read =>
      cases threw
      exact joined

theorem pipeline_composes_ret :
    ∃ tail, parse (.ofString "ret\nret\n") =
      .ok (.ok ⟨tail, [⟨.ret, .notSet, .undef, .undef⟩, ⟨.ret, .notSet, .undef, .undef⟩]⟩) := by
  have known : ("ret", Tag.ret) ∈ mnemoNames := by simp [mnemoNames]
  have program : ProgramText wrapped "ret\n".toList [⟨.ret, .notSet, .undef, .undef⟩] :=
    .line (.line known (.absent 0) .none) .done
  have parsed := parse_ok_iff.mpr ⟨program, rfl⟩
  exact ⟨_, ((pipeline_composes "ret\n".toList "ret\n".toList parsed).1 _ _ parsed).1⟩

end Cplastane.Assembly
