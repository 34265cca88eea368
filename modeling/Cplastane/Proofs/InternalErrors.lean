import Cplastane.Assembly.Assemble
import Cplastane.Proofs.ParserRuns

/-! The assembler's internal errors report malformed data structures. What the parser
returns is well formed, and on well-formed mnemos an earlier check always fires. -/

namespace Cplastane.Assembly
open Parsec Exceptions

/-- The branches that no program should reach: they are thrown behind switches over values that an
earlier check has narrowed down. -/
def Throw.internal : Throw → Bool
  | registerWidth | regToNumber | scaleIsS0 | scaleIsUndef | appendImmWidth | unexpectedShape | movWrongMnemo
  | addWrongMnemo | pushPopWrongMnemo _ | unimplementedTag | undefTag | undefWidth => true
  | _ => false

abbrev Calm {α : Type} (result : Except Throw α) : Prop := Raises (fun error => error.internal = false) result

structure Memory.Formed (memory : Memory) : Prop where
  based : memory.base ≠ .undef
  scaled : memory.scale ≠ .undef
  indexed : memory.scale ≠ .s0 → memory.index ≠ .undef

def Arg.Formed : Arg → Prop
  | .register reg => reg ≠ .undef
  | .memory operand => operand.Formed
  | .undef | .immediate _ => True

structure Mnemo.Formed (mnemo : Mnemo) : Prop where
  tagged : mnemo.tag ≠ .undef
  sized : mnemo.width ≠ .undef
  first : mnemo.a1.Formed
  second : mnemo.a2.Formed

private theorem mnemoNames_tagged : ∀ entry ∈ mnemoNames, entry.2 ≠ .undef := by
  decide

private theorem widthNames_sized : ∀ entry ∈ widthNames, entry.2 ≠ .undef := by
  decide

theorem IndexText.formed {text : List Char} {index : Reg} {scale : Scale}
    (indexed : IndexText wrapped text index scale) :
    scale ≠ .undef ∧ (scale ≠ .s0 → index ≠ .undef) := by
  cases indexed with
  | absent => exact ⟨by decide, fun scaled => absurd rfl scaled⟩
  | present known number scaled =>
    refine ⟨?_, fun _ => registerNames_named _ known⟩
    rcases scaled with ⟨-, rfl⟩ | ⟨-, rfl⟩ | ⟨-, rfl⟩ | ⟨-, rfl⟩ <;> exact nofun

theorem ArgText.formed {text : List Char} {arg : Arg} (derived : ArgText wrapped text arg) : arg.Formed := by
  cases derived with
  | int number read => trivial
  | reg known => exact registerNames_named _ known
  | mem known indexed displaced => exact ⟨registerNames_named _ known, indexed.formed.1, indexed.formed.2⟩

theorem WidthText.sized {text : List Char} {width : Width} (sized : WidthText text width) : width ≠ .undef := by
  cases sized with
  | absent => decide
  | present _ _ known => exact widthNames_sized _ known

theorem LineText.formed {text : List Char} {mnemo : Mnemo} (derived : LineText wrapped text mnemo) : mnemo.Formed := by
  cases derived with
  | line known sized read =>
    have tagged := mnemoNames_tagged _ known
    cases read with
    | none => exact ⟨tagged, sized.sized, trivial, trivial⟩
    | one read => exact ⟨tagged, sized.sized, read.formed, trivial⟩
    | two read also => exact ⟨tagged, sized.sized, read.formed, also.formed⟩

theorem ProgramText.formed {text : List Char} {mnemos : List Mnemo} (derived : ProgramText wrapped text mnemos) :
    ∀ mnemo ∈ mnemos, mnemo.Formed := by
  induction derived with
  | done => simp
  | line read _ ih =>
    intro mnemo member
    rcases List.mem_cons.mp member with rfl | later
    · exact read.formed
    · exact ih mnemo later

private theorem registerWidth_calm {reg : Reg} (defined : reg ≠ .undef) : Calm (registerWidth reg) := by
  cases reg with
  | undef => exact absurd rfl defined
  | _ => exact Raises.ok _

private theorem regToNumber_calm {reg : Reg} (defined : reg ≠ .undef) : Calm (regToNumber reg) := by
  cases reg with
  | undef => exact absurd rfl defined
  | _ => exact Raises.ok _

private theorem scaleToNum_calm {scale : Scale} (scaled : scale ≠ .undef) (nonzero : scale ≠ .s0) :
    Calm (scaleToNum scale) := by
  cases scale with
  | undef => exact absurd rfl scaled
  | s0 => exact absurd rfl nonzero
  | _ => exact Raises.ok _

private theorem assertImm_calm (width : Width) (imm : Imm) (msg : String) :
    Calm (assertImmNotLargerThan32Bits width imm msg) := by
  unfold assertImmNotLargerThan32Bits
  split
  · split
    · exact Raises.ok _
    · exact Raises.error rfl
  · exact Raises.ok _

private theorem pushASORIfDword_calm (out : List u8) {memory : Memory} (formed : memory.Formed) :
    Calm (pushASORIfDword out memory) := by
  have based := registerWidth_calm formed.based
  have last : Calm (do
      if (← registerWidth memory.base) = .dword then
        return out ++ [0x67]
      return out) := by
    apply Raises.bind based
    intro width _
    exact Raises.ite (fun _ => Raises.pure _) (fun _ => Raises.pure _)
  unfold pushASORIfDword
  by_cases indexed : memory.index ≠ .undef
  · rw [if_pos indexed]
    apply Raises.bind (registerWidth_calm indexed)
    intro index _
    apply Raises.bind based
    intro base _
    exact Raises.guard rfl fun _ => last
  · rw [if_neg indexed]
    exact last

theorem pushOpcode_sized {out result : List u8} {width : Width} {opcode1 opcode2 : u8}
    (pushed : pushOperandWidthPrefixesAndOpcode out width opcode1 opcode2 = .ok result) :
    width ≠ .undef ∧ width ≠ .notSet := by
  cases width with
  | undef | notSet => cases pushed
  | _ => exact ⟨nofun, nofun⟩

private theorem pushOpcode_calm (out : List u8) (width : Width) (opcode1 opcode2 : u8) :
    Calm (pushOperandWidthPrefixesAndOpcode out width opcode1 opcode2) := by
  cases width with
  | undef | notSet => exact Raises.error rfl
  | _ => exact Raises.ok _

private theorem appendImm_calm (out : List u8) {width : Width} (sized : width ≠ .undef ∧ width ≠ .notSet) (imm : Imm) :
    Calm (appendImmUpto64 out width imm) := by
  cases width with
  | undef => exact absurd rfl sized.1
  | notSet => exact absurd rfl sized.2
  | _ => exact Raises.ok _

theorem assertImm_sized {width updated : Width} {imm : Imm} {msg : String}
    (passed : assertImmNotLargerThan32Bits width imm msg = .ok updated) (sized : width ≠ .undef ∧ width ≠ .notSet) :
    updated ≠ .undef ∧ updated ≠ .notSet := by
  unfold assertImmNotLargerThan32Bits at passed
  split at passed
  · split at passed
    · cases passed
      exact ⟨nofun, nofun⟩
    · cases passed
  · cases passed
    exact sized

private theorem narrowImm_calm (out : List u8) (width : Width) (opcode1 opcode2 : u8) (form : List u8 → List u8)
    (imm : Imm) (msg : String) :
    Calm (do let out ← pushOperandWidthPrefixesAndOpcode out width opcode1 opcode2
             let width ← assertImmNotLargerThan32Bits width imm msg
             appendImmUpto64 (form out) width imm) := by
  apply Raises.bind (pushOpcode_calm out width opcode1 opcode2)
  intro out pushed
  apply Raises.bind (assertImm_calm width imm msg)
  intro updated passed
  exact appendImm_calm (form out) (assertImm_sized passed (pushOpcode_sized pushed)) imm

private theorem assembleMemoryMnemo_calm {memory : Memory} (formed : memory.Formed) :
    Calm (assembleMemoryMnemo memory) := by
  have based := regToNumber_calm formed.based
  unfold assembleMemoryMnemo
  apply Raises.ite
  · intro _
    apply Raises.bind based
    intro rm _
    exact Raises.pure _
  · intro _
    refine Raises.guard rfl fun _ => ?_
    apply Raises.ite
    · intro _
      apply Raises.bind based
      intro base _
      exact Raises.pure _
    · intro scaled
      apply Raises.bind (scaleToNum_calm formed.scaled scaled)
      intro scale _
      apply Raises.bind (regToNumber_calm (formed.indexed scaled))
      intro index _
      apply Raises.bind based
      intro base _
      exact Raises.pure _

private theorem memoryForm_calm {α : Type} (out : List u8) {memory : Memory} (formed : memory.Formed)
    {rest : AssembleMemoryMnemoResult → List u8 → Except Throw α} (calm : ∀ result out, Calm (rest result out)) :
    Calm (do let result ← assembleMemoryMnemo memory
             let out ← pushASORIfDword out memory
             rest result out) := by
  apply Raises.bind (assembleMemoryMnemo_calm formed)
  intro result _
  apply Raises.bind (pushASORIfDword_calm out formed)
  intro out _
  exact calm result out

private theorem assembleMemoryRegister_calm (out : List u8) (mnemo : Mnemo) (opcode1 opcode2 : u8) {memory : Memory}
    {reg : Reg}
    (shape : (mnemo.a1 = .memory memory ∧ mnemo.a2 = .register reg) ∨ (mnemo.a1 = .register reg ∧ mnemo.a2 = .memory memory))
    (formed : memory.Formed) (defined : reg ≠ .undef) :
    Calm (assembleMemoryRegisterMnemosTemplate out mnemo opcode1 opcode2) := by
  unfold assembleMemoryRegisterMnemosTemplate
  have body : Calm (do
      let reg ← regToNumber reg
      let result ← assembleMemoryMnemo memory
      let out ← pushASORIfDword out memory
      let out ← pushOperandWidthPrefixesAndOpcode out mnemo.width opcode1 opcode2
      return pushMemoryForm out result reg memory.disp) := by
    apply Raises.bind (regToNumber_calm defined)
    intro number _
    apply memoryForm_calm out formed
    intro result out
    apply Raises.bind (pushOpcode_calm out mnemo.width opcode1 opcode2)
    intro out _
    exact Raises.pure _
  rcases shape with ⟨first, second⟩ | ⟨first, second⟩
  · rw [first, second]
    exact body
  · rw [first, second]
    exact body

private theorem registers_calm (out : List u8) (width : Width) {dest source : Reg} (first : dest ≠ .undef)
    (second : source ≠ .undef) (opcode1 opcode2 : u8) :
    Calm (do let rm ← regToNumber dest
             let reg ← regToNumber source
             let out ← pushOperandWidthPrefixesAndOpcode out width opcode1 opcode2
             return out ++ [modAndRegAndRmToModrm 0b11 reg rm]) := by
  apply Raises.bind (regToNumber_calm first)
  intro rm _
  apply Raises.bind (regToNumber_calm second)
  intro reg _
  apply Raises.bind (pushOpcode_calm out width opcode1 opcode2)
  intro out _
  exact Raises.pure _

private theorem assembleMnemoMov_calm (out : List u8) {mnemo : Mnemo} (tagged : mnemo.tag = .mov)
    (formed : mnemo.Formed) :
    Calm (assembleMnemoMov out mnemo) := by
  obtain ⟨tag, width, a1, a2⟩ := mnemo
  obtain ⟨-, -, first, second⟩ := formed
  unfold assembleMnemoMov
  refine Raises.passed (not_not_intro tagged) ?_
  dsimp only
  split
  next dest source => exact registers_calm out width first second _ _
  next dest imm =>
    apply Raises.bind (regToNumber_calm first)
    intro opcodeShift _
    apply Raises.bind (pushOpcode_calm out width _ _)
    intro out pushed
    exact appendImm_calm out (pushOpcode_sized pushed) imm
  next memory reg => exact assembleMemoryRegister_calm out _ _ _ (.inl ⟨rfl, rfl⟩) first second
  next reg memory => exact assembleMemoryRegister_calm out _ _ _ (.inr ⟨rfl, rfl⟩) second first
  next dest imm =>
    apply memoryForm_calm out first
    intro result out
    exact narrowImm_calm out width _ _ (pushMemoryForm · result 0 dest.disp) imm _
  next => exact Raises.error rfl

private theorem assembleMnemoAdd_calm (out : List u8) {mnemo : Mnemo} (tagged : mnemo.tag = .add)
    (formed : mnemo.Formed) :
    Calm (assembleMnemoAdd out mnemo) := by
  obtain ⟨tag, width, a1, a2⟩ := mnemo
  obtain ⟨-, -, first, second⟩ := formed
  unfold assembleMnemoAdd
  refine Raises.passed (not_not_intro tagged) ?_
  dsimp only
  split
  next dest source => exact registers_calm out width first second _ _
  next dest imm =>
    apply Raises.ite
    · intro _
      apply Raises.bind (regToNumber_calm first)
      intro rm _
      apply Raises.bind (pushOpcode_calm out width _ _)
      intro out _
      exact Raises.ok _
    · intro _
      apply Raises.ite
      · intro _
        exact narrowImm_calm out width _ _ id imm _
      · intro _
        apply Raises.bind (regToNumber_calm first)
        intro rm _
        exact narrowImm_calm out width _ _ (· ++ [modAndRegAndRmToModrm 0b11 0 rm]) imm _
  next memory reg => exact assembleMemoryRegister_calm out _ _ _ (.inl ⟨rfl, rfl⟩) first second
  next reg memory => exact assembleMemoryRegister_calm out _ _ _ (.inr ⟨rfl, rfl⟩) second first
  next dest imm =>
    apply memoryForm_calm out first
    intro result out
    have written (opcode1 opcode2 : u8) := narrowImm_calm out width opcode1 opcode2
      (pushMemoryForm · result 0 dest.disp) imm addImmTooLarge
    exact Raises.ite (fun _ => written _ _) (fun _ => written _ _)
  next => exact Raises.error rfl

private theorem assembleMnemoPushPop_calm (isPush : Bool) (out : List u8) {mnemo : Mnemo}
    (tagged : mnemo.tag = if isPush then .push else .pop) (formed : mnemo.Formed) :
    Calm (assembleMnemoPushPopTemplate isPush out mnemo) := by
  obtain ⟨tag, width, a1, a2⟩ := mnemo
  obtain ⟨-, -, first, -⟩ := formed
  unfold assembleMnemoPushPopTemplate
  refine Raises.passed (not_not_intro tagged) ?_
  cases a1 with
  | register reg =>
    refine Raises.guard rfl fun _ => ?_
    apply Raises.bind (regToNumber_calm first)
    intro number _
    exact Raises.pure _
  | memory memory =>
    refine Raises.guard rfl fun _ => ?_
    apply memoryForm_calm out first
    intro result out
    exact Raises.pure _
  | immediate imm =>
    refine Raises.guard rfl fun _ => ?_
    refine Raises.guard rfl fun _ => ?_
    apply Raises.bind (pushOpcode_calm out width _ _)
    intro out pushed
    exact appendImm_calm out (pushOpcode_sized pushed) imm
  | undef => exact Raises.error rfl

private theorem operandWidth_calm {arg : Arg} (formed : arg.Formed) (width : Width) (error : Throw)
    (permitted : error.internal = false) {rest : Except Throw Unit} (calm : Calm rest) :
    Calm (do if let .register reg := arg then
               if (← registerWidth reg) ≠ width then
                 throw error
             rest) := by
  cases arg with
  | register reg =>
    apply Raises.bind (registerWidth_calm formed)
    intro found _
    exact Raises.guard permitted fun _ => calm
  | _ => exact calm

private theorem checkValidity_calm {mnemo : Mnemo} (formed : mnemo.Formed) : Calm mnemo.checkValidity := by
  unfold Mnemo.checkValidity
  refine Raises.passed formed.tagged (Raises.passed formed.sized ?_)
  have last := operandWidth_calm formed.second mnemo.width .arg2Width rfl (Raises.pure ())
  exact operandWidth_calm formed.first mnemo.width .arg1Width rfl last

theorem assembleMnemo_calm (out : List u8) {mnemo : Mnemo} (formed : mnemo.Formed) :
    Calm (assembleMnemo out mnemo) := by
  unfold assembleMnemo
  apply Raises.bind (checkValidity_calm formed)
  intro _ _
  cases tag : mnemo.tag with
  | mov => exact assembleMnemoMov_calm out tag formed
  | add => exact assembleMnemoAdd_calm out tag formed
  | push => exact assembleMnemoPushPop_calm true out tag formed
  | pop => exact assembleMnemoPushPop_calm false out tag formed
  | ret => exact Raises.pure _
  | undef => exact absurd tag formed.tagged

/-- Parsed text never reaches an internal error of the assembler. -/
theorem internal_errors_unreachable {text : List Char} {tail : Strive} {mnemos : List Mnemo}
    (parsed : parse (.ofText text) = .ok (.ok ⟨tail, mnemos⟩)) (error : Throw) (thrown : assemble mnemos = .error error) :
    error.internal = false := by
  have formed := (parse_ok_iff.mp parsed).1.formed
  have calm : Calm (assemble mnemos) := Raises.foldlM [] fun mnemo member out => assembleMnemo_calm out (formed mnemo member)
  exact calm error thrown

theorem pop_byte_not_internal :
    assemble [⟨.pop, .byte, .register .al, .undef⟩] = .error (.pushPopRegister false) ∧
      (Throw.pushPopRegister false).internal = false := by
  have thrown : assemble [⟨.pop, .byte, .register .al, .undef⟩] = .error (.pushPopRegister false) := rfl
  have known : ("al", Reg.al) ∈ registerNames := by simp [registerNames]
  have sized : WidthText " BYTE ".toList .byte := .present 1 1 (show ("BYTE", Width.byte) ∈ widthNames by simp [widthNames])
  have program : ProgramText wrapped "pop BYTE al\n".toList [⟨.pop, .byte, .register .al, .undef⟩] :=
    .line (.line (show ("pop", Tag.pop) ∈ mnemoNames by simp [mnemoNames]) sized (.one (.reg known))) .done
  exact ⟨thrown, internal_errors_unreachable (parse_ok_iff.mpr ⟨program, rfl⟩) _ thrown⟩

end Cplastane.Assembly
