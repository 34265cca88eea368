import Cplastane.Proofs.Immediates

/-! Which immediates are refused. Only the QWORD forms with a field of 32 bits test theirs; at
the other sizes no immediate is refused for its value, and the low bytes are emitted. -/

namespace Cplastane.Assembly
open X86

/-- Representable at the size, as a signed or an unsigned number: the code does not know which of
the two is meant. -/
def Representable (size : Size) (imm : Imm) : Prop :=
  -2 ^ (8 * size.bytes - 1) ≤ imm.toInt ∧ imm.toInt ≤ 2 ^ (8 * size.bytes) - 1

def ImmediateUse.Imm32 : ImmediateUse → Prop
  | mov (.memory _) | add _ => True
  | _ => False

private theorem Short.representable {size : Size} {imm : Imm} (short : Short size imm) : Representable size imm := by
  obtain ⟨low, high⟩ := (canBeEncodedIn8Bits_iff imm).mp short.1
  have wide := short.2
  unfold Representable
  cases size with
  | byte => exact absurd rfl wide
  | word | dword | qword => simp only [Size.bytes]; omega

private theorem emitted_full (use : ImmediateUse) {size : Size} {imm : Imm} (narrow : size ≠ .qword)
    (outside : ¬Representable size imm) : use.emitted size imm = size.bytes := by
  have full : size.immediate = size.bytes := by
    cases size <;> first | rfl | exact absurd rfl narrow
  have long : ¬Short size imm := fun short => outside short.representable
  unfold ImmediateUse.emitted
  split <;> simp [full, long]

private theorem fits_of_narrow (use : ImmediateUse) {size : Size} (narrow : size ≠ .qword) (imm : Imm) :
    use.Fits size imm := by
  unfold ImmediateUse.Fits
  split
  · trivial
  · exact narrow
  · exact fun qword => absurd qword narrow

private theorem valid_immediate {use : ImmediateUse} {width : Width} {imm : Imm} (valid : (use.mnemo width imm).Valid)
    (other : Imm) : (use.mnemo width other).Valid := by
  cases use <;> exact ⟨valid.tagged, valid.sized, valid.first, valid.second⟩

/-- At 8, 16 and 32 bits every immediate is accepted if one is, and an unrepresentable
one is emitted as its low bytes; only the 64-bit forms with a 32-bit field test theirs. -/
theorem immediate_wraps_or_fits (use : ImmediateUse) (width : Width) (imm : Imm) (code : List u8)
    (accepted : assemble [use.mnemo width imm] = .ok code) :
    ∃ size, width.size = some size ∧
      (size ≠ .qword → (∀ other, ∃ code, assemble [use.mnemo width other] = .ok code) ∧
        (¬Representable size imm → ∃ found layout,
          ImmediateField (use.mnemo width imm).a1 code found layout (littleEndian size.bytes imm.toInt))) ∧
      (size = .qword → use.Imm32 → -2 ^ 31 ≤ imm.toInt ∧ imm.toInt ≤ 2 ^ 32 - 1) := by
  obtain ⟨size, found, layout, sized, emitted, -⟩ := immediate_field use accepted
  obtain ⟨valid, writable, other, otherSized, fits⟩ := (immediate_accepted_iff use width imm).mp ⟨code, accepted⟩
  cases sized.symm.trans otherSized
  refine ⟨size, sized, fun narrow => ⟨fun other => ?_, fun outside => ?_⟩, fun qword restricted => ?_⟩
  · rw [immediate_accepted_iff]
    exact ⟨valid_immediate valid other, writable, size, sized, fits_of_narrow use narrow other⟩
  · exact ⟨found, layout, emitted_full use narrow outside ▸ emitted⟩
  · have fits : FitsImm32 size imm := by
      cases use with
      | mov target => cases target <;> first | exact fits | exact restricted.elim
      | add target => exact fits
      | push a2 => exact restricted.elim
    exact (canBeEncodedIn32Bits_iff imm).mp (fits qword)

/-- The mnemos with an immediate operand: it is encoded, or it is the second operand of a stack
operation, which is not looked at. -/
inductive ImmediateOperand where
  | encoded (use : ImmediateUse)
  | ignored (isPush : Bool) (first : Arg)

namespace ImmediateOperand

def mnemo : ImmediateOperand → Width → Imm → Mnemo
  | encoded use, width, imm => use.mnemo width imm
  | ignored isPush first, width, imm => ⟨stackTag isPush, width, first, .immediate imm⟩

def Imm32 : ImmediateOperand → Prop
  | encoded use => use.Imm32
  | ignored _ _ => False

/-- The rest of the mnemo passes all checks, so that whether it is accepted is up to the immediate
alone. -/
def Complete (operand : ImmediateOperand) (width : Width) : Prop :=
  match operand with
  | encoded use => (use.mnemo width 0).Valid ∧ use.Writable
  | ignored isPush first => first.Stackable isPush width

/-- What the immediate's check is there for: outside of what is representable, assemble throws, at
the operand's size, and in 32 bits for the QWORD forms that have no more. -/
structure RangeChecked (operand : ImmediateOperand) (width : Width) (imm : Imm) : Prop where
  narrow : ∀ size, width.size = some size → size ≠ .qword → ¬Representable size imm →
    ∃ thrown, assemble [operand.mnemo width imm] = .error thrown
  qword : width = .qword → operand.Imm32 → ¬(-2 ^ 31 ≤ imm.toInt ∧ imm.toInt ≤ 2 ^ 32 - 1) →
    ∃ thrown, assemble [operand.mnemo width imm] = .error thrown

end ImmediateOperand

private theorem assemble_refused {mnemos : List Mnemo} (refused : ¬∃ code, assemble mnemos = .ok code) :
    ∃ thrown, assemble mnemos = .error thrown := by
  cases assembled : assemble mnemos with
  | error thrown => exact ⟨thrown, rfl⟩
  | ok code => exact absurd ⟨code, assembled⟩ refused

theorem narrow_accepted_iff (operand : ImmediateOperand) {width : Width} {size : Size} (sized : width.size = some size)
    (narrow : size ≠ .qword) (imm : Imm) :
    (∃ code, assemble [operand.mnemo width imm] = .ok code) ↔ operand.Complete width := by
  cases operand with
  | encoded use =>
    simp only [ImmediateOperand.mnemo, ImmediateOperand.Complete, immediate_accepted_iff]
    constructor
    · intro accepted
      obtain ⟨valid, writable, -⟩ := accepted
      exact ⟨valid_immediate valid 0, writable⟩
    · intro complete
      obtain ⟨valid, writable⟩ := complete
      exact ⟨valid_immediate valid imm, writable, size, sized, fits_of_narrow use narrow imm⟩
  | ignored isPush first =>
    simp only [ImmediateOperand.mnemo, ImmediateOperand.Complete, stack_accepted_iff, Arg.HasWidth, and_true]

private theorem qword_accepted {operand : ImmediateOperand} (restricted : operand.Imm32) {imm : Imm} {code : List u8}
    (accepted : assemble [operand.mnemo .qword imm] = .ok code) : -2 ^ 31 ≤ imm.toInt ∧ imm.toInt ≤ 2 ^ 32 - 1 := by
  cases operand with
  | ignored => exact restricted.elim
  | encoded use =>
    obtain ⟨size, sized, -, fits⟩ := immediate_wraps_or_fits use .qword imm code accepted
    cases sized
    exact fits rfl restricted

/-- The range of an immediate is checked for QWORD only: at any other size an immediate out of
range is refused exactly if the mnemo is not complete even without it. -/
theorem range_checked_iff (operand : ImmediateOperand) (width : Width) (imm : Imm) :
    operand.RangeChecked width imm ↔
      width = .qword ∨ ¬operand.Complete width ∨ ∀ size, width.size = some size → Representable size imm := by
  constructor
  · intro checked
    by_contra unchecked
    simp only [not_or, not_not, not_forall] at unchecked
    obtain ⟨notQword, complete, size, sized, outside⟩ := unchecked
    have narrow : size ≠ .qword := by
      rintro rfl
      exact notQword (Width.ofSize_eq sized)
    obtain ⟨code, accepted⟩ := (narrow_accepted_iff operand sized narrow imm).mpr complete
    obtain ⟨thrown, refused⟩ := checked.narrow size sized narrow outside
    cases accepted.symm.trans refused
  · intro condition
    constructor
    · intro size sized narrow outside
      apply assemble_refused
      rw [narrow_accepted_iff operand sized narrow]
      rcases condition with rfl | incomplete | inside
      · cases sized
        exact absurd rfl narrow
      · exact incomplete
      · exact absurd (inside size sized) outside
    · rintro rfl restricted outside
      apply assemble_refused
      rintro ⟨code, accepted⟩
      exact outside (qword_accepted restricted accepted)

/-- `mov DWORD [rax], 4294967296` moves zero, where the QWORD form is refused. -/
theorem dword_immediate_wraps :
    assemble [⟨.mov, .dword, .memory ⟨.rax, .undef, .s0, 0, fun _ => rfl⟩, .immediate 4294967296⟩] =
        .ok [0xc7, 0x00, 0x00, 0x00, 0x00, 0x00] ∧
      (∃ thrown, assemble [⟨.mov, .qword, .memory ⟨.rax, .undef, .s0, 0, fun _ => rfl⟩, .immediate 4294967296⟩] =
        .error thrown) ∧
      ¬(ImmediateOperand.encoded (.mov (.memory ⟨.rax, .undef, .s0, 0, fun _ => rfl⟩))).RangeChecked .dword 4294967296 := by
  refine ⟨by decide, ⟨_, rfl⟩, fun checked => ?_⟩
  have outside : ¬Representable .dword 4294967296 := by
    rintro ⟨-, high⟩
    revert high
    decide
  obtain ⟨thrown, refused⟩ := checked.narrow .dword rfl (by decide) outside
  cases refused

end Cplastane.Assembly
