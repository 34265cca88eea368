import Cplastane.Proofs.Reading

/-! Which memory operands the processor reads back as they were written: the
displacement and the base on one side, the index and the address size on the other. -/

namespace Cplastane.Assembly
open X86

def Memory.WideBase (memory : Memory) : Prop :=
  registerWidth memory.base = .ok .dword ∨ registerWidth memory.base = .ok .qword

instance (memory : Memory) : Decidable memory.WideBase := inferInstanceAs (Decidable (_ ∨ _))

/-- The displacement bytes behind the selected form are those emitted for the operand, and the base
it selects is the operand's. The form is what the processor selects, by the decoder, in front of
anything. -/
def DisplacementAgrees (memory : Memory) (code : List u8) : Prop :=
  ∀ rest, ∃ form tail base, addressForm (code ++ rest) = some (form, tail) ∧
    form.dispSize = (appendDisp [] memory.disp).length ∧ memory.base.register = some base ∧ form.base = .reg base

/-- The selected form has the operand's own index and scale, and the address size of its base. -/
def AddressingAgrees (memory : Memory) (code : List u8) : Prop :=
  ∀ rest, ∃ form tail base, addressForm (code ++ rest) = some (form, tail) ∧
    memory.base.register = some base ∧ form.addressSize = base.size ∧ some form.index = memory.scaledIndex

theorem Memory.wideBase_iff {memory : Memory} {base : Register} (based : memory.base.register = some base) :
    memory.WideBase ↔ Wide base := by
  unfold Memory.WideBase Wide
  rw [registerWidth_eq, based]
  simp only [Except.ok.injEq]
  exact or_congr (Width.ofSize_inj _ .dword) (Width.ofSize_inj _ .qword)

private theorem wide_of_form {base : Register} {bytes tail : List u8} {found : Form}
    (read : form (addressSize base) bytes = some (found, tail))
    (same : found.base = .reg base ∨ found.addressSize = base.size) : Wide base := by
  rw [wide_iff]
  obtain ⟨size, register⟩ := form_addressSize read
  rcases same with same | same
  · exact (register base same).symm
  · exact size.symm.trans same

theorem Memory.escapes_iff {memory : Memory} {base : Register} (based : memory.base.register = some base)
    (wide : Wide base) : memory.Escapes base ↔ memory.disp = 0 ∧ (memory.base = .ebp ∨ memory.base = .rbp) := by
  rw [Memory.Escapes, Reg.wide_five based wide]

/-- Displacement and base are read back exactly for bases of 32 and 64 bits,
except that ebp and rbp need a displacement. -/
theorem displacement_agrees_iff (memory : Memory) (mnemo : Mnemo) (code : List u8)
    (accepted : assemble [mnemo] = .ok code) (carries : Carries memory mnemo) :
    DisplacementAgrees memory code ↔
      memory.WideBase ∧ ¬(memory.disp = 0 ∧ (memory.base = .ebp ∨ memory.base = .rbp)) := by
  obtain ⟨base, _, _, _, ⟨based, _, _⟩, read⟩ := addressForm_code accepted carries
  rw [Memory.wideBase_iff based]
  constructor
  · intro agrees
    obtain ⟨found, tail, other, decoded, _, named, kept⟩ := agrees []
    cases based.symm.trans named
    have wide : Wide base := by
      rw [read] at decoded
      exact wide_of_form decoded (.inl kept)
    refine ⟨wide, fun escapes => ?_⟩
    obtain ⟨sib, reg, rest, place, selected⟩ := addressForm_wide accepted carries based wide
    rw [selected] at decoded
    cases decoded
    exact Memory.selected_base_escapes place.chosen _ _ ((Memory.escapes_iff based wide).mpr escapes) base kept
  · intro accepted rest
    obtain ⟨wide, kept⟩ := accepted
    rw [← Memory.escapes_iff based wide] at kept
    obtain ⟨sib, reg, tail, place, selected⟩ := addressForm_wide accepted carries based wide
    refine ⟨_, _, base, selected rest, ?_, based, ?_⟩
    · rw [Memory.selected_dispSize place.chosen, appendDisp_length, dispSize_mode _ _ kept]
    · rw [Memory.selected_base place.chosen _ _ kept, wide.gp]

theorem displacement_agrees_rbx :
    DisplacementAgrees ⟨.rbx, .undef, .s0, 0, fun _ => rfl⟩ [0x8b, 0x03] ↔
      Memory.WideBase ⟨.rbx, .undef, .s0, 0, fun _ => rfl⟩ ∧
        ¬((0 : Disp) = 0 ∧ (Reg.rbx = .ebp ∨ Reg.rbx = .rbp)) :=
  displacement_agrees_iff _ ⟨.mov, .dword, .register .eax, _⟩ _ (by decide) (.second (.inl rfl))

/-- `mov DWORD eax, [rbp]` is emitted without the displacement its SIB byte calls for. -/
theorem rbp_base_lost :
    assemble [⟨.mov, .dword, .register .eax, .memory ⟨.rbp, .undef, .s0, 0, fun _ => rfl⟩⟩] = .ok [0x8b, 0x04, 0x25] ∧
      ¬DisplacementAgrees ⟨.rbp, .undef, .s0, 0, fun _ => rfl⟩ [0x8b, 0x04, 0x25] := by
  refine ⟨by decide, fun agrees => ?_⟩
  obtain ⟨form, tail, base, read, sized, -⟩ := agrees []
  cases read
  revert sized
  decide

/-- Index and address size are read back exactly for bases of 32 and 64 bits and
any index but rsp. -/
theorem addressing_agrees_iff (memory : Memory) (mnemo : Mnemo) (code : List u8)
    (accepted : assemble [mnemo] = .ok code) (carries : Carries memory mnemo) :
    AddressingAgrees memory code ↔ memory.WideBase ∧ memory.index ≠ .rsp := by
  obtain ⟨base, _, _, _, ⟨based, _, _⟩, read⟩ := addressForm_code accepted carries
  rw [Memory.wideBase_iff based]
  constructor
  · intro agrees
    obtain ⟨found, tail, other, decoded, named, sized, kept⟩ := agrees []
    cases based.symm.trans named
    have wide : Wide base := by
      rw [read] at decoded
      exact wide_of_form decoded (.inr sized)
    refine ⟨wide, fun rsp => ?_⟩
    obtain ⟨sib, reg, rest, place, selected⟩ := addressForm_wide accepted carries based wide
    rw [selected] at decoded
    cases decoded
    rw [Memory.selected_index place wide, if_pos rsp] at kept
    rcases place.chosen.scaledIndex with ⟨unindexed, _⟩ | ⟨index, factor, _, scaled⟩
    · exact nomatch rsp.symm.trans unindexed
    · cases kept.trans scaled
  · intro accepted rest
    obtain ⟨wide, other⟩ := accepted
    obtain ⟨sib, reg, tail, place, selected⟩ := addressForm_wide accepted carries based wide
    refine ⟨_, _, base, selected rest, based, ?_, ?_⟩
    · exact Memory.selected_addressSize ..
    · rw [Memory.selected_index place wide, if_neg other]
      rcases place.chosen.scaledIndex with ⟨_, scaled⟩ | ⟨_, _, _, scaled⟩ <;> rw [scaled] <;> rfl

theorem addressing_agrees_rcx :
    AddressingAgrees ⟨.rax, .rcx, .s2, 0, nofun⟩ [0x48, 0x8b, 0x04, 0x48] ↔
      Memory.WideBase ⟨.rax, .rcx, .s2, 0, nofun⟩ ∧ Reg.rcx ≠ .rsp :=
  addressing_agrees_iff _ ⟨.mov, .qword, .register .rax, _⟩ _ (by decide) (.second (.inl rfl))

/-- `mov QWORD rax, [rax + rsp * 2]` is read back without its index. -/
theorem rsp_index_dropped :
    assemble [⟨.mov, .qword, .register .rax, .memory ⟨.rax, .rsp, .s2, 0, nofun⟩⟩] = .ok [0x48, 0x8b, 0x04, 0x60] ∧
      ¬AddressingAgrees ⟨.rax, .rsp, .s2, 0, nofun⟩ [0x48, 0x8b, 0x04, 0x60] := by
  refine ⟨by decide, fun agrees => ?_⟩
  obtain ⟨form, tail, base, read, -, -, index⟩ := agrees []
  cases read
  revert index
  decide

end Cplastane.Assembly
