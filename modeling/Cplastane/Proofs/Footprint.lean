import Cplastane.Proofs.Preservation

/-! The footprint of programs: on the processor, too, no byte of memory is changed that no
command stores to. -/

namespace Cplastane.Assembly
open X86 Straight Simulation

def storeOf : Config Mnemo Store Machine → Store
  | .running _ store => store
  | .left machine => machine.store

def Touches (address : BitVec 64) : Config Mnemo Store Machine → Prop
  | .running (mnemo :: _) store => ∃ window, mnemo.stored store = some window ∧ window.Covers address
  | .running [] _ => False
  | .left _ => False

section Commands

variable {code : Window} {store after : Store} {mnemo : Mnemo} {address : BitVec 64}

private theorem saveOutside_frame {place : BitVec 64} {bytes : List u8}
    (saved : saveOutside code store place bytes = some after)
    (outside : ¬Window.Covers ⟨place, bytes.length⟩ address) : after.memory address = store.memory address := by
  unfold saveOutside at saved
  split at saved
  · cases saved
    exact Store.save_memory outside
  · cases saved

private theorem Arg.write_frame {arg : Arg} {size : Size} {value : Int}
    (written : arg.write code size value store = some after)
    (outside : ∀ window, arg.stored size store = some window → ¬window.Covers address) :
    after.memory address = store.memory address := by
  cases arg with
  | undef | immediate => cases written
  | register reg =>
    simp only [Arg.write, Option.bind_eq_bind, Option.bind_eq_some_iff] at written
    obtain ⟨register, -, same⟩ := written
    cases same
    rfl
  | memory place =>
    simp only [Arg.write, Option.bind_eq_bind, Option.bind_eq_some_iff] at written
    obtain ⟨target, addressed, saved⟩ := written
    apply saveOutside_frame saved
    rw [littleEndian_length]
    exact outside ⟨target, size.bytes⟩ (by simp [Arg.stored, addressed])

theorem effect_frame {outcome : Outcome Store Machine} (acted : mnemo.effect code store = some outcome)
    (outside : ∀ window, mnemo.stored store = some window → ¬window.Covers address) (rest : List Mnemo) :
    (storeOf (outcome.before rest)).memory address = store.memory address := by
  have updated {operation : Operation} (binary : mnemo.tag = .mov ∨ mnemo.tag = .add)
      (acted : mnemo.update code operation store = some outcome) :
      (storeOf (outcome.before rest)).memory address = store.memory address := by
    simp only [Mnemo.update, Option.bind_eq_bind, Option.bind_eq_some_iff] at acted
    obtain ⟨size, sized, old, -, value, -, after, written, same⟩ := acted
    cases same
    refine Arg.write_frame written fun window stored => outside window ?_
    rcases binary with tagged | tagged <;> simp [Mnemo.stored, tagged, sized, stored]
  unfold Mnemo.effect at acted
  split at acted
  next tagged => exact updated (.inl tagged) acted
  next tagged => exact updated (.inr tagged) acted
  next tagged =>
    simp only [Option.bind_eq_bind, Option.bind_eq_some_iff] at acted
    obtain ⟨size, slotted, value, -, after, saved, same⟩ := acted
    cases same
    have missed : ¬Window.Covers ⟨(store.lower size).top, size.bytes⟩ address :=
      outside _ (by simp [Mnemo.stored, tagged, slotted])
    rw [← littleEndian_length size.bytes value] at missed
    exact (saveOutside_frame saved missed).trans (congrFun (store.memory_lower size) address)
  next tagged =>
    simp only [Option.bind_eq_bind, Option.bind_eq_some_iff] at acted
    obtain ⟨size, slotted, after, written, same⟩ := acted
    cases same
    have missed (window : Window) (stored : mnemo.a1.stored size (store.raise size) = some window) : ¬window.Covers address :=
      outside window (by simp [Mnemo.stored, tagged, slotted, stored])
    exact (Arg.write_frame written missed).trans (congrFun (store.memory_raise size) address)
  next =>
    cases acted
    rfl
  next => cases acted

end Commands

section Runs

variable {mnemos : List Mnemo} {place : BitVec 64} {bytes : List u8}

theorem step_frame {code : Window} {address : BitVec 64} {config next : Config Mnemo Store Machine}
    (taken : Straight.step (Mnemo.effect code) config = some next) (untouched : ¬Touches address config) :
    (storeOf next).memory address = (storeOf config).memory address := by
  cases config with
  | left machine => cases taken
  | running commands store =>
    cases commands with
    | nil => cases taken
    | cons mnemo rest =>
      obtain ⟨outcome, acted, rfl⟩ := Option.map_eq_some_iff.mp taken
      exact effect_frame acted (fun window stored covers => untouched ⟨window, stored, covers⟩) rest

theorem Follows.store {config : Config Mnemo Store Machine} {machine : Machine}
    (follows : Follows mnemos place bytes config machine) : machine.store = storeOf config := by
  cases follows <;> rfl

/-- The processor changes only the bytes that the commands behind it store to. -/
theorem processor_footprint {store : Store} (executable : ∀ mnemo ∈ mnemos, Executable mnemo)
    (assembled : assemble mnemos = .ok bytes) (loaded : store.Holds place (bytes ++ trap)) {n : Nat}
    {config : Config Mnemo Store Machine}
    (ran : steps (Straight.step (Mnemo.effect (codeWindow place bytes))) n (.running mnemos store) = some config) :
    ∃ machine, steps Machine.step n ⟨place, store⟩ = some machine ∧ ∀ address,
      (∀ k < n, ∀ middle, steps (Straight.step (Mnemo.effect (codeWindow place bytes))) k (.running mnemos store) = some middle →
        ¬Touches address middle) →
      machine.store.memory address = store.memory address := by
  obtain ⟨machine, followed, follows⟩ := follows_steps executable assembled loaded ran
  refine ⟨machine, followed, fun address untouched => ?_⟩
  rw [follows.store]
  exact @steps_frame _ _ _ (fun config => (storeOf config).memory address) (Touches address)
    (fun _ _ => step_frame) _ _ _ ran untouched

/-- `push BYTE 7` stores to the eight bytes below the top. -/
theorem processor_footprint_push : ∃ machine,
    steps Machine.step 1 ⟨65536, onlyCode 65536 [0x6a, 7]⟩ = some machine ∧ ∀ address,
      (∀ k < 1, ∀ middle, steps (Straight.step (Mnemo.effect (codeWindow 65536 [0x6a, 7]))) k
          (.running [⟨.push, .byte, .immediate 7, .undef⟩] (onlyCode 65536 [0x6a, 7])) = some middle → ¬Touches address middle) →
        machine.store.memory address = (onlyCode 65536 [0x6a, 7]).memory address := by
  have executable : ∀ mnemo ∈ [Mnemo.mk .push .byte (.immediate 7) .undef], Executable mnemo := by
    simp only [List.forall_mem_cons, List.not_mem_nil, false_implies, implies_true, and_true]
    exact .supported (.pushImm (.inl rfl)) ⟨by decide, by decide⟩
  have apart : (codeWindow 65536 [0x6a, 7]).Misses
      ⟨((onlyCode 65536 [0x6a, 7]).lower .qword).top, (littleEndian Size.qword.bytes (7 : i64).toInt).length⟩ := by decide
  have pushed : Mnemo.effect (codeWindow 65536 [0x6a, 7]) ⟨.push, .byte, .immediate 7, .undef⟩ (onlyCode 65536 [0x6a, 7]) =
      some (.next ((onlyCode 65536 [0x6a, 7]).push .qword (7 : i64).toInt)) := by
    simp only [Mnemo.effect, Width.slot, Arg.read, saveOutside, Option.bind_eq_bind, Option.bind_some, if_pos apart]
    rfl
  apply processor_footprint executable (by decide) (onlyCode_holds _ (by decide))
  exact congrArg (Option.map (Outcome.before [])) pushed

end Runs

end Cplastane.Assembly
