import Cplastane.Proofs.Preservation

/-! Programs by the table: their code is what the table has for each mnemo, one entry after
another, and so is its length. -/

namespace Cplastane.Assembly
open X86

def Mnemo.Code (mnemo : Mnemo) (code : List u8) : Prop :=
  mnemo.Valid ∧ ∃ found opcode body, Encodes mnemo found opcode body ∧ encodingBytes found opcode body = code

theorem code_iff {mnemo : Mnemo} {code : List u8} : mnemo.Code code ↔ assembleMnemo [] mnemo = .ok code := by
  rw [← assemble_singleton]
  exact (assemble_singleton_ok_iff mnemo code).symm

private theorem codes_assemble {mnemos : List Mnemo} {codes : List (List u8)}
    (entries : List.Forall₂ Mnemo.Code mnemos codes) :
    assemble mnemos = .ok codes.flatten := by
  induction entries with
  | nil => rfl
  | cons entry _ ih => exact (assemble_cons_ok_iff _ _ _).mpr ⟨_, _, code_iff.mp entry, ih, rfl⟩

private theorem assemble_codes {mnemos : List Mnemo} {bytes : List u8} (assembled : assemble mnemos = .ok bytes) :
    ∃ codes, List.Forall₂ Mnemo.Code mnemos codes ∧ codes.flatten = bytes := by
  induction mnemos generalizing bytes with
  | nil =>
    cases assembled
    exact ⟨[], .nil, rfl⟩
  | cons mnemo mnemos ih =>
    obtain ⟨code, rest, accepted, others, rfl⟩ := (assemble_cons_ok_iff mnemo mnemos bytes).mp assembled
    obtain ⟨codes, entries, rfl⟩ := ih others
    exact ⟨code :: codes, .cons (code_iff.mpr accepted) entries, rfl⟩

/-- The assembler accepts exactly the programs of the table, with its code. -/
theorem assemble_by_table (mnemos : List Mnemo) (bytes : List u8) :
    assemble mnemos = .ok bytes ↔ ∃ codes, List.Forall₂ Mnemo.Code mnemos codes ∧ codes.flatten = bytes := by
  constructor
  · exact assemble_codes
  · intro table
    obtain ⟨codes, entries, rfl⟩ := table
    exact codes_assemble entries

section Lengths

variable {mnemo : Mnemo} {code : List u8}

private theorem codes_length {mnemos : List Mnemo} {codes : List (List u8)}
    (entries : List.Forall₂ Mnemo.Code mnemos codes) :
    mnemos.length ≤ codes.flatten.length ∧ codes.flatten.length ≤ 13 * mnemos.length := by
  induction entries with
  | nil => exact ⟨Nat.le_refl 0, Nat.le_refl 0⟩
  | @cons mnemo code _ _ entry _ ih =>
    have own := accepted_length ((assemble_singleton mnemo).trans (code_iff.mp entry))
    simp only [List.flatten_cons, List.length_append, List.length_cons]
    omega

private theorem repeated_length (entry : mnemo.Code code) (count : Nat) :
    ∃ mnemos bytes, mnemos.length = count ∧ assemble mnemos = .ok bytes ∧ bytes.length = code.length * count := by
  have entries : List.Forall₂ Mnemo.Code (List.replicate count mnemo) (List.replicate count code) := by
    induction count with
    | zero => exact .nil
    | succ count ih => exact .cons entry ih
  refine ⟨_, _, List.length_replicate, codes_assemble entries, ?_⟩
  rw [List.length_flatten, List.map_replicate, List.sum_replicate_nat, Nat.mul_comm]

/-- The code of so many mnemos has from one to 13 bytes for each of them, and both bounds are
met whatever their number is. -/
theorem code_length_bounds (count : Nat) :
    (∀ mnemos bytes, mnemos.length = count → assemble mnemos = .ok bytes → count ≤ bytes.length ∧ bytes.length ≤ 13 * count) ∧
      (∃ mnemos bytes, mnemos.length = count ∧ assemble mnemos = .ok bytes ∧ bytes.length = count) ∧
      ∃ mnemos bytes, mnemos.length = count ∧ assemble mnemos = .ok bytes ∧ bytes.length = 13 * count := by
  refine ⟨?_, ?_, ?_⟩
  · rintro mnemos bytes rfl assembled
    obtain ⟨codes, entries, rfl⟩ := assemble_codes assembled
    exact codes_length entries
  · have shortest : Mnemo.Code ⟨.ret, .notSet, .undef, .undef⟩ [0xc3] := code_iff.mpr rfl
    simpa using repeated_length shortest count
  · -- mov QWORD [eax + ecx * 1 + 1000], 5
    have longest : Mnemo.Code ⟨.mov, .qword, .memory ⟨.eax, .ecx, .s1, 1000, by decide⟩, .immediate 5⟩
        [0x67, 0x48, 0xc7, 0x84, 0x08, 0xe8, 0x03, 0, 0, 5, 0, 0, 0] := code_iff.mpr rfl
    exact repeated_length longest count

end Lengths

end Cplastane.Assembly
