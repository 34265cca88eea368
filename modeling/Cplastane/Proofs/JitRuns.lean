import Cplastane.Eval
import Cplastane.Proofs.Preservation
import Cplastane.Proofs.Trap

/-! Runs of the jit and of the evaluator, with all the ways to fail, and what is in memory
when the code is called. -/

namespace Cplastane.Jit
open X86 Simulation

section Runs

variable {kernel : Kernel} {func : Nat → i64} {mc : Nat → u8} {len : SizeT}

/-- What has been done to memory when the code is called: a mapping of the code's own length, the
code, and its trap behind it. -/
def prepared (place : Nat) (mc : Nat → u8) (len : SizeT) : List Effect :=
  .mapped place len :: ((List.range len.toNat).map (fun i => .written (place + i) (mc i)) ++
    [.written (place + (len + 2 - 2).toNat) 0x0f, .written (place + (len + 2 - 1).toNat) 0x0b])

theorem trace_prepared (place : Nat) (mc : Nat → u8) (len : SizeT) :
    trace place mc len = prepared place mc len ++ [.called place, .unmapped place (len + 2)] := by
  simp [trace, prepared]

inductive Ran (kernel : Kernel) (func : Nat → i64) (mc : Nat → u8) (len : SizeT) :
    Except JitThrow i64 → List Effect → Prop where
  | refused (unmapped : kernel.mmap len = none) : Ran kernel func mc len (.error .allocationFailed) []
  | null (mapped : kernel.mmap len = some 0) : Ran kernel func mc len (.error .mmapFailed) [.mapped 0 len]
  | kept {place} (mapped : kernel.mmap len = some place) (nonnull : place ≠ 0)
      (failed : kernel.munmap place (len + 2) = false) :
      Ran kernel func mc len (.error .deallocationFailed) (prepared place mc len ++ [.called place])
  | returned {place} (mapped : kernel.mmap len = some place) (nonnull : place ≠ 0)
      (freed : kernel.munmap place (len + 2) = true) :
      Ran kernel func mc len (.ok (func place)) (trace place mc len)

private theorem onto_throw {α : Type} (error : JitThrow) (effects : List Effect) :
    (throw error : Action α).onto effects = (.error error, effects) := rfl

theorem evalMc_ran (kernel : Kernel) (func : Nat → i64) (mc : Nat → u8) (len : SizeT) :
    ∃ outcome effects, (evalMc kernel func mc len).onto [] = (outcome, effects) ∧ Ran kernel func mc len outcome effects := by
  cases mapped : kernel.mmap len with
  | none =>
    refine ⟨_, _, ?_, .refused mapped⟩
    simp only [evalMc, allocExecutable, mapped, onto_bind, onto_throw]
  | some place =>
    by_cases null : place = 0
    · subst null
      refine ⟨_, _, ?_, .null mapped⟩
      simp only [evalMc, allocExecutable, mapped, onto_bind, onto_record, onto_pure, if_true, onto_throw, List.nil_append]
    cases freed : kernel.munmap place (len + 2) with
    | true => exact ⟨_, _, evalMc_returns mapped null freed, .returned mapped null freed⟩
    | false =>
      refine ⟨_, _, ?_, .kept mapped null freed⟩
      simp only [evalMc, allocExecutable, mapped, null, dealloc, freed, Bool.false_eq_true, if_false, onto_bind,
        onto_record, onto_pure, memcpy_onto, flushInstructionCache, onto_throw, prepared]
      simp

end Runs

section Memory

def applyWrites (writes : List (Nat × u8)) (store : Store) : Store :=
  writes.foldl (fun store write => store.save (BitVec.ofNat 64 write.1) [write.2]) store

def spelled (place : Nat) (bytes : List u8) : List (Nat × u8) := bytes.mapIdx fun i byte => (place + i, byte)

theorem applyWrites_memory {writes : List (Nat × u8)} {address : BitVec 64}
    (apart : ∀ write ∈ writes, BitVec.ofNat 64 write.1 ≠ address) (store : Store) :
    (applyWrites writes store).memory address = store.memory address := by
  unfold applyWrites
  induction writes generalizing store with
  | nil => rfl
  | cons write writes ih =>
    obtain ⟨elsewhere, others⟩ := List.forall_mem_cons.mp apart
    refine (ih others (store.save (BitVec.ofNat 64 write.1) [write.2])).trans (Store.save_memory fun covers => elsewhere ?_)
    have distance : (address - BitVec.ofNat 64 write.1).toNat < 1 := covers
    have zero : address - BitVec.ofNat 64 write.1 = 0 := BitVec.eq_of_toNat_eq (Nat.lt_one_iff.mp distance)
    exact ((BitVec.sub_eq_iff_eq_add.mp zero).trans (BitVec.zero_add _)).symm

theorem applyWrites_spelled {place : Nat} {bytes : List u8} (short : bytes.length ≤ 2 ^ 64) (store : Store) :
    (applyWrites (spelled place bytes) store).Holds (BitVec.ofNat 64 place) bytes := by
  induction bytes using List.reverseRecOn with
  | nil => rfl
  | append_singleton bytes byte ih =>
    rw [List.length_append, List.length_singleton] at short
    have earlier := ih (by omega)
    have split : applyWrites (spelled place (bytes ++ [byte])) store =
        (applyWrites (spelled place bytes) store).save (BitVec.ofNat 64 (place + bytes.length)) [byte] := by
      simp [applyWrites, spelled, List.mapIdx_concat, List.foldl_append]
    rw [split, BitVec.ofNat_add, Store.holds_append]
    constructor
    · apply (@Store.load_save _ _ ⟨BitVec.ofNat 64 place, bytes.length⟩ _ _).trans earlier
      intro i inside covered
      have before : i < bytes.length := inside
      simp only [Window.Covers, BitVec.toNat_sub, BitVec.toNat_add, BitVec.toNat_ofNat, List.length_singleton] at covered
      omega
    · exact Store.save_holds _ _ (by simp)

private theorem range_spelled (place : Nat) (bytes : List u8) :
    (List.range bytes.length).map (fun i => (place + i, data bytes i)) = spelled place bytes := by
  apply List.ext_getElem
  · simp [spelled]
  · intro i inside bound
    have within : i < bytes.length := by simpa using inside
    simp [spelled, data, within]

/-- When the code is called, it has been written with its trap. -/
theorem writes_prepared {bytes : List u8} (short : bytes.length + 2 < 2 ^ 64) (place : Nat) :
    writes (prepared place (data bytes) (UInt64.ofNat bytes.length)) = spelled place (bytes ++ Assembly.trap) := by
  have length : (UInt64.ofNat bytes.length).toNat = bytes.length :=
    UInt64.toNat_ofNat_of_lt' (show bytes.length < 2 ^ 64 by omega)
  have same : writes (prepared place (data bytes) (UInt64.ofNat bytes.length)) =
      writes (trace place (data bytes) (UInt64.ofNat bytes.length)) := by
    rw [trace_prepared, writes, writes, List.filterMap_append]
    simp
  rw [same, writes_trace, (bufLen_toNat (by rw [length]; exact short)).1, length, range_spelled]
  simp [spelled, List.mapIdx_append, Assembly.trap, Nat.add_comm 1]

end Memory

end Cplastane.Jit
