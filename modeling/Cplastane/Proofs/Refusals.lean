import Cplastane.Proofs.FirstError
import Cplastane.Proofs.InternalErrors

/-! Which exceptions `assemble` can end with at all, over every list of mnemos and not only
over those that the parser returns. The others stand behind checks that come first. -/

namespace Cplastane.Assembly
open Exceptions

def movImmTooLarge : String :=
  "Attempted to move immediate 64 bit value to memory using MOV @ assemble_mnemo_mov"

/-- The exceptions that `assemble` can end with. The others are the parser's, or are thrown behind
checks that leave nothing to throw for. -/
def Throw.Seen : Throw → Prop
  | undefTag | undefWidth | arg1Width | arg2Width | registerWidth => True
  | regToNumber | scaleIsUndef | addressWidths | unsupportedOperation | operandWidth => True
  | movShape | addShape | pushPopShape _ | pushPopRegister _ | pushPopMemory _ | popImmediate | pushWidth => True
  | immTooLarge msg => msg = movImmTooLarge ∨ msg = addImmTooLarge
  | _ => False

abbrev Open {α : Type} (result : Except Throw α) : Prop := Raises Throw.Seen result

private theorem registerWidth_open (reg : Reg) : Open (registerWidth reg) := by
  cases reg with
  | undef => exact Raises.error trivial
  | _ => exact Raises.ok _

private theorem regToNumber_open (reg : Reg) : Open (regToNumber reg) := by
  cases reg with
  | undef => exact Raises.error trivial
  | _ => exact Raises.ok _

private theorem scaleToNum_open {scale : Scale} (nonzero : scale ≠ .s0) : Open (scaleToNum scale) := by
  cases scale with
  | undef => exact Raises.error trivial
  | s0 => exact absurd rfl nonzero
  | _ => exact Raises.ok _

private theorem pushOpcode_open (out : List u8) (width : Width) (opcode1 opcode2 : u8) :
    Open (pushOperandWidthPrefixesAndOpcode out width opcode1 opcode2) := by
  cases width with
  | undef | notSet => exact Raises.error trivial
  | _ => exact Raises.ok _

private theorem appendImm_open (out : List u8) {width : Width} (sized : width ≠ .undef ∧ width ≠ .notSet) (imm : Imm) :
    Open (appendImmUpto64 out width imm) := by
  cases width with
  | undef => exact absurd rfl sized.1
  | notSet => exact absurd rfl sized.2
  | _ => exact Raises.ok _

private theorem pushASORIfDword_open (out : List u8) (memory : Memory) : Open (pushASORIfDword out memory) := by
  have last : Open (do
      if (← registerWidth memory.base) = .dword then
        return out ++ [0x67]
      return out) := by
    apply Raises.bind (registerWidth_open memory.base)
    intro width _
    exact Raises.ite (fun _ => Raises.pure _) (fun _ => Raises.pure _)
  unfold pushASORIfDword
  by_cases indexed : memory.index ≠ .undef
  · rw [if_pos indexed]
    apply Raises.bind (registerWidth_open memory.index)
    intro index _
    apply Raises.bind (registerWidth_open memory.base)
    intro base _
    exact Raises.guard trivial fun _ => last
  · rw [if_neg indexed]
    exact last

private theorem assembleMemoryMnemo_open (memory : Memory) : Open (assembleMemoryMnemo memory) := by
  have based := regToNumber_open memory.base
  unfold assembleMemoryMnemo
  apply Raises.ite
  · intro _
    apply Raises.bind based
    intro rm _
    exact Raises.pure _
  · intro _
    refine Raises.guard trivial fun _ => ?_
    apply Raises.ite
    · intro _
      apply Raises.bind based
      intro base _
      exact Raises.pure _
    · intro scaled
      apply Raises.bind (scaleToNum_open scaled)
      intro scale _
      apply Raises.bind (regToNumber_open memory.index)
      intro index _
      apply Raises.bind based
      intro base _
      exact Raises.pure _

private theorem memoryForm_open {α : Type} (out : List u8) {memory : Memory}
    {rest : AssembleMemoryMnemoResult → List u8 → Except Throw α} (later : ∀ result out, Open (rest result out)) :
    Open (do let result ← assembleMemoryMnemo memory
             let out ← pushASORIfDword out memory
             rest result out) := by
  apply Raises.bind (assembleMemoryMnemo_open memory)
  intro result _
  apply Raises.bind (pushASORIfDword_open out memory)
  intro out _
  exact later result out

private theorem narrowImm_open (out : List u8) (width : Width) (opcode1 opcode2 : u8) (form : List u8 → List u8)
    (imm : Imm) {msg : String} (known : msg = movImmTooLarge ∨ msg = addImmTooLarge) :
    Open (do let out ← pushOperandWidthPrefixesAndOpcode out width opcode1 opcode2
             let width ← assertImmNotLargerThan32Bits width imm msg
             appendImmUpto64 (form out) width imm) := by
  apply Raises.bind (pushOpcode_open out width opcode1 opcode2)
  intro out pushed
  apply Raises.bind
  · unfold assertImmNotLargerThan32Bits
    have refused : Throw.Seen (.immTooLarge msg) := known
    exact Raises.ite (fun _ => Raises.ite (fun _ => Raises.ok _) fun _ => Raises.error refused) fun _ => Raises.ok width
  · intro updated passed
    exact appendImm_open (form out) (assertImm_sized passed (pushOpcode_sized pushed)) imm

private theorem assembleMemoryRegister_open (out : List u8) (mnemo : Mnemo) (opcode1 opcode2 : u8) {memory : Memory}
    {reg : Reg}
    (shape : (mnemo.a1 = .memory memory ∧ mnemo.a2 = .register reg) ∨ (mnemo.a1 = .register reg ∧ mnemo.a2 = .memory memory)) :
    Open (assembleMemoryRegisterMnemosTemplate out mnemo opcode1 opcode2) := by
  unfold assembleMemoryRegisterMnemosTemplate
  have body : Open (do
      let reg ← regToNumber reg
      let result ← assembleMemoryMnemo memory
      let out ← pushASORIfDword out memory
      let out ← pushOperandWidthPrefixesAndOpcode out mnemo.width opcode1 opcode2
      return pushMemoryForm out result reg memory.disp) := by
    apply Raises.bind (regToNumber_open reg)
    intro number _
    apply memoryForm_open out
    intro result out
    apply Raises.bind (pushOpcode_open out mnemo.width opcode1 opcode2)
    intro out _
    exact Raises.pure _
  rcases shape with ⟨first, second⟩ | ⟨first, second⟩
  · rw [first, second]
    exact body
  · rw [first, second]
    exact body

private theorem registers_open (out : List u8) (width : Width) (dest source : Reg) (opcode1 opcode2 : u8) :
    Open (do let rm ← regToNumber dest
             let reg ← regToNumber source
             let out ← pushOperandWidthPrefixesAndOpcode out width opcode1 opcode2
             return out ++ [modAndRegAndRmToModrm 0b11 reg rm]) := by
  apply Raises.bind (regToNumber_open dest)
  intro rm _
  apply Raises.bind (regToNumber_open source)
  intro reg _
  apply Raises.bind (pushOpcode_open out width opcode1 opcode2)
  intro out _
  exact Raises.pure _

private theorem assembleMnemoMov_open (out : List u8) {mnemo : Mnemo} (tagged : mnemo.tag = .mov) :
    Open (assembleMnemoMov out mnemo) := by
  obtain ⟨tag, width, a1, a2⟩ := mnemo
  unfold assembleMnemoMov
  refine Raises.passed (not_not_intro tagged) ?_
  dsimp only
  split
  next dest source => exact registers_open out width dest source _ _
  next dest imm =>
    apply Raises.bind (regToNumber_open dest)
    intro opcodeShift _
    apply Raises.bind (pushOpcode_open out width _ _)
    intro out pushed
    exact appendImm_open out (pushOpcode_sized pushed) imm
  next memory reg => exact assembleMemoryRegister_open out _ _ _ (.inl ⟨rfl, rfl⟩)
  next reg memory => exact assembleMemoryRegister_open out _ _ _ (.inr ⟨rfl, rfl⟩)
  next dest imm =>
    apply memoryForm_open out
    intro result out
    exact narrowImm_open out width _ _ (pushMemoryForm · result 0 dest.disp) imm (.inl rfl)
  next => exact Raises.error trivial

private theorem assembleMnemoAdd_open (out : List u8) {mnemo : Mnemo} (tagged : mnemo.tag = .add) :
    Open (assembleMnemoAdd out mnemo) := by
  obtain ⟨tag, width, a1, a2⟩ := mnemo
  unfold assembleMnemoAdd
  refine Raises.passed (not_not_intro tagged) ?_
  dsimp only
  split
  next dest source => exact registers_open out width dest source _ _
  next dest imm =>
    apply Raises.ite
    · intro _
      apply Raises.bind (regToNumber_open dest)
      intro rm _
      apply Raises.bind (pushOpcode_open out width _ _)
      intro out _
      exact Raises.ok _
    · intro _
      apply Raises.ite
      · intro _
        exact narrowImm_open out width _ _ id imm (.inr rfl)
      · intro _
        apply Raises.bind (regToNumber_open dest)
        intro rm _
        exact narrowImm_open out width _ _ (· ++ [modAndRegAndRmToModrm 0b11 0 rm]) imm (.inr rfl)
  next memory reg => exact assembleMemoryRegister_open out _ _ _ (.inl ⟨rfl, rfl⟩)
  next reg memory => exact assembleMemoryRegister_open out _ _ _ (.inr ⟨rfl, rfl⟩)
  next dest imm =>
    apply memoryForm_open out
    intro result out
    have written (opcode1 opcode2 : u8) := narrowImm_open out width opcode1 opcode2
      (pushMemoryForm · result 0 dest.disp) imm (.inr rfl)
    exact Raises.ite (fun _ => written _ _) (fun _ => written _ _)
  next => exact Raises.error trivial

private theorem assembleMnemoPushPop_open (isPush : Bool) (out : List u8) {mnemo : Mnemo}
    (tagged : mnemo.tag = if isPush then .push else .pop) : Open (assembleMnemoPushPopTemplate isPush out mnemo) := by
  obtain ⟨tag, width, a1, a2⟩ := mnemo
  unfold assembleMnemoPushPopTemplate
  refine Raises.passed (not_not_intro tagged) ?_
  cases a1 with
  | register reg =>
    refine Raises.guard trivial fun _ => ?_
    apply Raises.bind (regToNumber_open reg)
    intro number _
    exact Raises.pure _
  | memory memory =>
    refine Raises.guard trivial fun _ => ?_
    apply memoryForm_open out
    intro result out
    exact Raises.pure _
  | immediate imm =>
    refine Raises.guard trivial fun _ => ?_
    refine Raises.guard trivial fun _ => ?_
    apply Raises.bind (pushOpcode_open out width _ _)
    intro out pushed
    exact appendImm_open out (pushOpcode_sized pushed) imm
  | undef => exact Raises.error trivial

private theorem operandWidth_open (arg : Arg) (width : Width) {error : Throw} (seen : error.Seen)
    {rest : Except Throw Unit} (later : Open rest) :
    Open (do if let .register reg := arg then
               if (← registerWidth reg) ≠ width then
                 throw error
             rest) := by
  cases arg with
  | register reg =>
    apply Raises.bind (registerWidth_open reg)
    intro found _
    exact Raises.guard seen fun _ => later
  | _ => exact later

private theorem checkValidity_open (mnemo : Mnemo) : Open mnemo.checkValidity := by
  unfold Mnemo.checkValidity
  refine Raises.guard trivial fun _ => Raises.guard trivial fun _ => ?_
  have second : Throw.arg2Width.Seen := trivial
  have first : Throw.arg1Width.Seen := trivial
  exact operandWidth_open mnemo.a1 mnemo.width first (operandWidth_open mnemo.a2 mnemo.width second (Raises.pure ()))

theorem assembleMnemo_open (out : List u8) (mnemo : Mnemo) : Open (assembleMnemo out mnemo) := by
  unfold assembleMnemo
  apply Raises.bind (checkValidity_open mnemo)
  intro _ passed
  cases tag : mnemo.tag with
  | mov => exact assembleMnemoMov_open out tag
  | add => exact assembleMnemoAdd_open out tag
  | push => exact assembleMnemoPushPop_open true out tag
  | pop => exact assembleMnemoPushPop_open false out tag
  | ret => exact Raises.pure _
  | undef => exact absurd tag ((checkValidity_ok_iff mnemo).mp passed).tagged

def Memory.direct (base : Reg) : Memory := ⟨base, .undef, .s0, 0, fun _ => rfl⟩

/-- Every one of them is what some single mnemo is refused with. -/
theorem Throw.Seen.refused {thrown : Throw} (seen : thrown.Seen) : ∃ mnemo, assembleMnemo [] mnemo = .error thrown := by
  cases thrown with
  | undefTag => exact ⟨⟨.undef, .byte, .undef, .undef⟩, rfl⟩
  | undefWidth => exact ⟨⟨.ret, .undef, .undef, .undef⟩, rfl⟩
  | arg1Width => exact ⟨⟨.ret, .byte, .register .eax, .undef⟩, rfl⟩
  | arg2Width => exact ⟨⟨.ret, .byte, .undef, .register .eax⟩, rfl⟩
  | registerWidth => exact ⟨⟨.ret, .byte, .register .undef, .undef⟩, rfl⟩
  | regToNumber => exact ⟨⟨.push, .qword, .memory (.direct .undef), .undef⟩, rfl⟩
  | scaleIsUndef => exact ⟨⟨.push, .qword, .memory ⟨.rax, .rcx, .undef, 0, by decide⟩, .undef⟩, rfl⟩
  | addressWidths => exact ⟨⟨.push, .qword, .memory ⟨.rax, .ecx, .s1, 0, by decide⟩, .undef⟩, rfl⟩
  | unsupportedOperation => exact ⟨⟨.push, .qword, .memory ⟨.rax, .esp, .s1, 0, by decide⟩, .undef⟩, rfl⟩
  | operandWidth => exact ⟨⟨.push, .notSet, .immediate 0, .undef⟩, rfl⟩
  | movShape => exact ⟨⟨.mov, .byte, .undef, .undef⟩, rfl⟩
  | addShape => exact ⟨⟨.add, .byte, .undef, .undef⟩, rfl⟩
  | pushPopShape isPush => cases isPush with
    | true => exact ⟨⟨.push, .qword, .undef, .undef⟩, rfl⟩
    | false => exact ⟨⟨.pop, .qword, .undef, .undef⟩, rfl⟩
  | pushPopRegister isPush => cases isPush with
    | true => exact ⟨⟨.push, .dword, .register .eax, .undef⟩, rfl⟩
    | false => exact ⟨⟨.pop, .dword, .register .eax, .undef⟩, rfl⟩
  | pushPopMemory isPush => cases isPush with
    | true => exact ⟨⟨.push, .dword, .memory (.direct .rax), .undef⟩, rfl⟩
    | false => exact ⟨⟨.pop, .dword, .memory (.direct .rax), .undef⟩, rfl⟩
  | popImmediate => exact ⟨⟨.pop, .qword, .immediate 0, .undef⟩, rfl⟩
  | pushWidth => exact ⟨⟨.push, .qword, .immediate 0, .undef⟩, rfl⟩
  | immTooLarge msg =>
    rcases seen with rfl | rfl
    · exact ⟨⟨.mov, .qword, .memory (.direct .rax), .immediate 4294967296⟩, rfl⟩
    · exact ⟨⟨.add, .qword, .memory (.direct .rax), .immediate 4294967296⟩, rfl⟩
  | scaleIsS0 | appendImmWidth | unexpectedShape | movWrongMnemo | addWrongMnemo | unimplementedTag | indexWithoutScale
  | scaleLiteral => cases seen
  | pushPopWrongMnemo isPush => cases seen

/-- An exception is what some program is refused with exactly if it is one of these. -/
theorem assemble_throws_iff (thrown : Throw) : (∃ mnemos, assemble mnemos = .error thrown) ↔ thrown.Seen := by
  constructor
  · intro refused
    obtain ⟨mnemos, refused⟩ := refused
    have opened : Open (assemble mnemos) := Raises.foldlM [] fun mnemo _ out => assembleMnemo_open out mnemo
    exact opened thrown refused
  · intro seen
    obtain ⟨mnemo, refused⟩ := seen.refused
    exact ⟨[mnemo], (assemble_singleton mnemo).trans refused⟩

end Cplastane.Assembly
