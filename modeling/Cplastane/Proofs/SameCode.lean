import Cplastane.Proofs.Preservation

/-! Encoding loses nothing of what programs mean. Executable programs with the same code do
the same, and the code of one is never cut off in the middle of a command of the other. -/

namespace Cplastane.Assembly
open X86 Straight

private theorem machineAt_not_constant (store : Store) (machine : Machine) :
    ∃ next, machineAt next (.next store) ≠ machine := by
  by_cases met : machineAt 0 (.next store) = machine
  · refine ⟨1, fun again => ?_⟩
    have same : (0 : BitVec 64) = 1 := congrArg Machine.ip (met.trans again.symm)
    exact absurd same (by decide)
  · exact ⟨0, met⟩

private theorem machineAt_injective {first second : Outcome Store Machine}
    (same : ∀ next, machineAt next first = machineAt next second) : first = second := by
  cases first with
  | next store => cases second with
    | next other => exact congrArg Outcome.next (show store = other from congrArg Machine.store (same 0))
    | exit machine =>
      obtain ⟨next, differs⟩ := machineAt_not_constant store machine
      exact absurd (same next) differs
  | exit machine => cases second with
    | next store =>
      obtain ⟨next, differs⟩ := machineAt_not_constant store machine
      exact absurd (same next).symm differs
    | exit other => exact congrArg Outcome.exit (show machine = other from same 0)

/-- Code that starts with the code of two mnemos is the same instruction for both. -/
private theorem effect_unique {first second : Mnemo} {own other rest tail : List u8} (executable : Executable first)
    (also : Executable second) (accepted : assemble [first] = .ok own) (compiled : assemble [second] = .ok other)
    (same : own ++ rest = other ++ tail) : rest = tail ∧ first.effect ⟨0, 0⟩ = second.effect ⟨0, 0⟩ := by
  obtain ⟨_, known, instruction, decoded, does⟩ := executable.realizes
  obtain ⟨_, found, twin, read, acts⟩ := also.realizes
  cases accepted.symm.trans known
  cases compiled.symm.trans found
  obtain ⟨rfl, rfl⟩ := Prod.mk.inj (Option.some.inj ((decoded rest).symm.trans ((congrArg decode same).trans (read tail))))
  refine ⟨rfl, funext fun store => ?_⟩
  obtain ⟨outcome, acted⟩ := executable.total store
  obtain ⟨reached, taken⟩ := also.total store
  rw [acted, taken, machineAt_injective fun next => (does _ _ _ acted next).symm.trans (acts _ _ _ taken next)]

/-- Executable code that starts with the code of an executable program starts with commands
that do the same, one for each of its commands. -/
theorem same_code_same_meaning {first second : List Mnemo} {bytes tail : List u8}
    (executable : ∀ mnemo ∈ first, Executable mnemo) (also : ∀ mnemo ∈ second, Executable mnemo)
    (assembled : assemble first = .ok bytes) (extended : assemble second = .ok (bytes ++ tail)) :
    ∃ front back, second = front ++ back ∧ front.length = first.length ∧ assemble front = .ok bytes ∧
      assemble back = .ok tail ∧ run (Mnemo.effect ⟨0, 0⟩) front = run (Mnemo.effect ⟨0, 0⟩) first := by
  induction first generalizing second bytes with
  | nil =>
    cases assembled
    exact ⟨[], second, rfl, rfl, rfl, extended, rfl⟩
  | cons mnemo first ih =>
    obtain ⟨own, rest, accepted, remaining, rfl⟩ := (assemble_cons_ok_iff mnemo first bytes).mp assembled
    rw [← assemble_singleton] at accepted
    cases second with
    | nil =>
      have shape : own ++ rest ++ tail = [] := (Except.ok.inj extended).symm
      have positive := (accepted_length accepted).1
      simp only [List.append_eq_nil_iff] at shape
      rw [shape.1.1] at positive
      cases positive
    | cons other second =>
      obtain ⟨code, more, compiled, later, same⟩ := (assemble_cons_ok_iff other second _).mp extended
      rw [← assemble_singleton] at compiled
      rw [List.append_assoc] at same
      obtain ⟨rfl, does⟩ := effect_unique (also other List.mem_cons_self) (executable mnemo List.mem_cons_self)
        compiled accepted same
      obtain rfl : code = own := List.append_cancel_right same
      obtain ⟨front, back, rfl, counted, piece, others, agrees⟩ :=
        ih (fun mnemo member => executable mnemo (List.mem_cons_of_mem _ member))
          (fun mnemo member => also mnemo (List.mem_cons_of_mem _ member)) remaining later
      refine ⟨other :: front, back, rfl, congrArg (· + 1) counted, ?_, others, ?_⟩
      · exact (assemble_cons_ok_iff other front _).mpr ⟨code, rest, by rwa [← assemble_singleton], piece, rfl⟩
      · funext store
        simp only [run, does, agrees]

theorem same_code_same_meaning_mov : ∃ front back,
    [Mnemo.mk .mov .byte (.register .al) (.immediate (-1)), ⟨.ret, .notSet, .undef, .undef⟩] = front ++ back ∧
      front.length = 1 ∧ assemble front = .ok [0xb0, 0xff] ∧ assemble back = .ok [0xc3] ∧
      run (Mnemo.effect ⟨0, 0⟩) front =
        run (Mnemo.effect ⟨0, 0⟩) [⟨.mov, .byte, .register .al, .immediate 255⟩] := by
  apply @same_code_same_meaning [⟨.mov, .byte, .register .al, .immediate 255⟩]
  · simp only [List.forall_mem_cons, List.not_mem_nil, false_implies, implies_true, and_true]
    exact .supported (.movRegImm rfl) trivial
  · simp only [List.forall_mem_cons, List.not_mem_nil, false_implies, implies_true, and_true]
    exact ⟨.supported (.movRegImm rfl) trivial, .supported .ret trivial⟩
  · rfl
  · rfl

end Cplastane.Assembly
