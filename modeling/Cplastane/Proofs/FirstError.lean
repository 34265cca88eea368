import Cplastane.Appending
import Cplastane.Proofs.Program

/-! No encoder looks at what was emitted before it, also when it throws. A program is refused
with the exception of its first mnemo that is refused alone. -/

namespace Cplastane.Assembly
open Exceptions Appending

private theorem appendImmUpto64_appends (width : Width) (imm : Imm) :
    Appends fun out => appendImmUpto64 out width imm := by
  intro out
  simp only [appendImmUpto64_eq]
  split <;> simp [Except.map]

private theorem pushOpcode_appends (width : Width) (opcode1 opcode2 : u8) :
    Appends fun out => pushOperandWidthPrefixesAndOpcode out width opcode1 opcode2 := by
  intro out
  simp only [pushOperandWidthPrefixesAndOpcode_eq]
  split <;> simp [Except.map]

private theorem pushOSORIfWord_append (width : Width) (out : List u8) :
    pushOSORIfWord out width = out ++ pushOSORIfWord [] width := by
  simp only [pushOSORIfWord]
  split <;> simp

private theorem pushMemoryForm_append (result : AssembleMemoryMnemoResult) (reg : u8) (disp : Disp) (out : List u8) :
    pushMemoryForm out result reg disp = out ++ pushMemoryForm [] result reg disp := by
  simp only [pushMemoryForm]
  split <;> simp [appendDisp_eq]

private theorem pushASORIfDword_appends (memory : Memory) : Appends fun out => pushASORIfDword out memory := by
  have last : Appends fun (out : List u8) => (do
      if (← registerWidth memory.base) = .dword then
        return out ++ [0x67]
      return out) := by
    apply Appends.beside
    intro width
    exact Appends.ite (Appends.push fun out => rfl) Appends.nothing
  unfold pushASORIfDword
  by_cases indexed : memory.index ≠ .undef
  · simp only [if_pos indexed]
    apply Appends.beside
    intro index
    apply Appends.beside
    intro base
    exact Appends.guard last
  · simp only [if_neg indexed]
    exact last

private theorem memoryForm_appends {memory : Memory}
    {rest : AssembleMemoryMnemoResult → List u8 → Except Throw (List u8)} (later : ∀ result, Appends (rest result)) :
    Appends fun out => (do
      let result ← assembleMemoryMnemo memory
      let out ← pushASORIfDword out memory
      rest result out) := by
  apply Appends.beside
  intro result
  exact Appends.bind (pushASORIfDword_appends memory) (later result)

private theorem narrowImm_appends (width : Width) (opcode1 opcode2 : u8) {form : List u8 → List u8} (imm : Imm)
    (msg : String) (grows : ∀ out, form out = out ++ form []) :
    Appends fun out => (do
      let out ← pushOperandWidthPrefixesAndOpcode out width opcode1 opcode2
      let width ← assertImmNotLargerThan32Bits width imm msg
      appendImmUpto64 (form out) width imm) := by
  apply Appends.bind (pushOpcode_appends width opcode1 opcode2)
  apply Appends.beside
  intro width
  exact (appendImmUpto64_appends width imm).after grows

private theorem assembleMemoryRegister_appends (mnemo : Mnemo) (opcode1 opcode2 : u8) :
    Appends fun out => assembleMemoryRegisterMnemosTemplate out mnemo opcode1 opcode2 := by
  unfold assembleMemoryRegisterMnemosTemplate
  have body (memory : Memory) (reg : Reg) : Appends fun out => (do
      let reg ← regToNumber reg
      let result ← assembleMemoryMnemo memory
      let out ← pushASORIfDword out memory
      let out ← pushOperandWidthPrefixesAndOpcode out mnemo.width opcode1 opcode2
      return pushMemoryForm out result reg memory.disp) := by
    apply Appends.beside
    intro number
    apply memoryForm_appends
    intro result
    apply Appends.bind (pushOpcode_appends mnemo.width opcode1 opcode2)
    exact Appends.push (pushMemoryForm_append result number memory.disp)
  dsimp only
  split
  · exact body _ _
  · exact body _ _
  · exact Appends.error _

private theorem registers_appends (width : Width) (dest source : Reg) (opcode1 opcode2 : u8) :
    Appends fun out => (do
      let rm ← regToNumber dest
      let reg ← regToNumber source
      let out ← pushOperandWidthPrefixesAndOpcode out width opcode1 opcode2
      return out ++ [modAndRegAndRmToModrm 0b11 reg rm]) := by
  apply Appends.beside
  intro rm
  apply Appends.beside
  intro reg
  apply Appends.bind (pushOpcode_appends width opcode1 opcode2)
  exact Appends.push fun out => rfl

private theorem assembleMnemoMov_appends (mnemo : Mnemo) : Appends fun out => assembleMnemoMov out mnemo := by
  obtain ⟨tag, width, a1, a2⟩ := mnemo
  unfold assembleMnemoMov
  apply Appends.guard
  dsimp only
  split
  next dest source => exact registers_appends width dest source _ _
  next dest imm =>
    apply Appends.beside
    intro opcodeShift
    exact Appends.bind (pushOpcode_appends width _ _) (appendImmUpto64_appends width imm)
  next => exact assembleMemoryRegister_appends _ _ _
  next => exact assembleMemoryRegister_appends _ _ _
  next dest imm =>
    apply memoryForm_appends
    intro result
    exact narrowImm_appends width _ _ imm _ (pushMemoryForm_append result 0 dest.disp)
  next => exact Appends.error _

private theorem assembleMnemoAdd_appends (mnemo : Mnemo) : Appends fun out => assembleMnemoAdd out mnemo := by
  obtain ⟨tag, width, a1, a2⟩ := mnemo
  unfold assembleMnemoAdd
  apply Appends.guard
  dsimp only
  split
  next dest source => exact registers_appends width dest source _ _
  next dest imm =>
    apply Appends.ite
    · apply Appends.beside
      intro rm
      apply Appends.bind (pushOpcode_appends width _ _)
      exact (appendImmUpto64_appends .byte imm).after fun out => rfl
    · apply Appends.ite
      · exact narrowImm_appends width _ _ imm _ fun out => out.append_nil.symm
      · apply Appends.beside
        intro rm
        exact narrowImm_appends width _ _ imm _ fun out => rfl
  next => exact assembleMemoryRegister_appends _ _ _
  next => exact assembleMemoryRegister_appends _ _ _
  next dest imm =>
    apply memoryForm_appends
    intro result
    have written (opcode1 opcode2 : u8) := narrowImm_appends width opcode1 opcode2 imm addImmTooLarge
      (pushMemoryForm_append result 0 dest.disp)
    exact Appends.ite (written _ _) (written _ _)
  next => exact Appends.error _

private theorem assembleMnemoPushPop_appends (isPush : Bool) (mnemo : Mnemo) :
    Appends fun out => assembleMnemoPushPopTemplate isPush out mnemo := by
  obtain ⟨tag, width, a1, a2⟩ := mnemo
  unfold assembleMnemoPushPopTemplate
  apply Appends.guard
  cases a1 with
  | register reg =>
    apply Appends.guard
    apply Appends.beside
    intro number
    exact Appends.push fun out => by simp [pushOSORIfWord_append width out]
  | memory memory =>
    apply Appends.guard
    apply memoryForm_appends
    intro result
    apply Appends.push
    intro out
    rw [pushMemoryForm_append, pushOSORIfWord_append, pushMemoryForm_append result _ _ (pushOSORIfWord [] width ++ _)]
    simp
  | immediate imm =>
    apply Appends.guard
    apply Appends.guard
    exact Appends.bind (pushOpcode_appends width _ _) (appendImmUpto64_appends width imm)
  | undef => exact Appends.error _

private theorem assembleMnemo_appends (mnemo : Mnemo) : Appends fun out => assembleMnemo out mnemo := by
  unfold assembleMnemo
  apply Appends.beside
  intro _
  cases mnemo.tag with
  | mov => exact assembleMnemoMov_appends mnemo
  | add => exact assembleMnemoAdd_appends mnemo
  | push => exact assembleMnemoPushPop_appends true mnemo
  | pop => exact assembleMnemoPushPop_appends false mnemo
  | ret => exact Appends.push fun out => rfl
  | undef => exact Appends.error _

/-- A program is refused with the exception that its first refused mnemo is refused with alone. -/
theorem assemble_error_iff (mnemos : List Mnemo) (thrown : Throw) :
    assemble mnemos = .error thrown ↔ ∃ before mnemo after, mnemos = before ++ mnemo :: after ∧
      (∃ bytes, assemble before = .ok bytes) ∧ assemble [mnemo] = .error thrown := by
  unfold assemble
  rw [foldlM_error_iff fun mnemo _ => assembleMnemo_appends mnemo]
  simp only [List.foldlM_cons, List.foldlM_nil, bind_pure]
  constructor
  · rintro ⟨before, mnemo, after, bytes, split, accepted, refused⟩
    exact ⟨before, mnemo, after, split, ⟨bytes, accepted⟩, refused⟩
  · rintro ⟨before, mnemo, after, split, ⟨bytes, accepted⟩, refused⟩
    exact ⟨before, mnemo, after, bytes, split, accepted, refused⟩

end Cplastane.Assembly
