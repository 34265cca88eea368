import Cplastane.Assembly.Semantics
import Cplastane.Proofs.AddImmediate
import Cplastane.Proofs.Supported
import Cplastane.X86.Execution

/-! The code of a mnemo does what the mnemo means. The class of mnemos for which this is
so is the supported subset, less the immediates that a field does not keep, and `add`
with an immediate where its short form is not chosen wrongly. -/

namespace Cplastane.Assembly
open X86 Straight

def machineAt (next : BitVec 64) : Outcome Store Machine → Machine
  | .next store => ⟨next, store⟩
  | .exit machine => machine

/-- The code is one instruction, and whenever the mnemo is not stuck the instruction does the same:
on every store, wherever the code is, and whatever follows it. -/
def Realizes (mnemo : Mnemo) (bytes : List u8) : Prop :=
  ∃ instruction, (∀ rest, decode (bytes ++ rest) = some (instruction, rest)) ∧
    ∀ code store outcome, mnemo.effect code store = some outcome →
      ∀ next, instruction.exec next store = machineAt next outcome

def FitsSigned (bits : Nat) (imm : Imm) : Prop := -2 ^ (bits - 1) ≤ imm.toInt ∧ imm.toInt < 2 ^ (bits - 1)

/-- Fields that are narrower than the operand are sign-extended, and an immediate that needs their
highest bit as a number becomes another one. Nothing in the assembler asks for this. -/
def Mnemo.Exact : Mnemo → Prop
  | ⟨.mov, .qword, .memory _, .immediate imm⟩ => FitsSigned 32 imm
  | ⟨.push, .byte, .immediate imm, _⟩ => FitsSigned 8 imm
  | ⟨.push, .dword, .immediate imm, _⟩ => FitsSigned 32 imm
  | _ => True

inductive Executable : Mnemo → Prop where
  | supported {mnemo} (supported : Supported mnemo) (exact : mnemo.Exact) : Executable mnemo
  | addRegImm {width a1 imm} (first : registerWidth a1 = .ok width)
      (signed : width ≠ .byte → imm.toInt < 128 ∨ 255 < imm.toInt) (narrow : width = .qword → FitsSigned 32 imm) :
      Executable ⟨.add, width, .register a1, .immediate imm⟩
  | addMemImm {width memory imm} (sized : width = .byte ∨ width = .word ∨ width = .dword ∨ width = .qword)
      (place : memory.Supported) (long : width ≠ .byte → imm.toInt < -128 ∨ 255 < imm.toInt)
      (narrow : width = .qword → FitsSigned 32 imm) : Executable ⟨.add, width, .memory memory, .immediate imm⟩

section Operands

variable {size : Size} {store : Store}

private theorem Memory.effective_address {memory : Memory} {address : Address}
    (addressed : memory.address = some address)
    (store : Store) (next : BitVec 64) : memory.effective store = some (store.effective next address) := by
  simp only [Memory.address, Option.bind_eq_bind, Option.bind_eq_some_iff] at addressed
  obtain ⟨base, based, index, indexed, same⟩ := addressed
  cases same
  have offset : memory.offset store = some (store.scaled index) := by
    unfold Memory.scaledIndex at indexed
    unfold Memory.offset
    split at indexed
    next unscaled =>
      cases indexed
      rw [if_pos unscaled]
      rfl
    next scaled =>
      rw [if_neg scaled]
      simp only [Option.bind_eq_bind, Option.bind_eq_some_iff] at indexed
      obtain ⟨register, named, factor, scaledBy, same⟩ := indexed
      cases same
      simp [named, scaledBy, Store.scaled]
  simp [Memory.effective, based, offset, Store.effective, Store.component]

private theorem Arg.read_target {arg : Arg} {operand : Operand} (named : arg.target = some operand) (size : Size)
    (store : Store) (next : BitVec 64) : arg.read size store = some (store.value next size operand) := by
  cases arg with
  | undef | immediate => cases named
  | register reg =>
    obtain ⟨register, known, rfl⟩ := Option.map_eq_some_iff.mp named
    simp [Arg.read, known, Store.value]
  | memory place =>
    obtain ⟨address, addressed, rfl⟩ := Option.map_eq_some_iff.mp named
    simp [Arg.read, Memory.effective_address addressed store next, Store.value]

private theorem Arg.write_target {code : Window} {arg : Arg} {operand : Operand} (named : arg.target = some operand)
    {value : Int} {after : Store} (written : arg.write code size value store = some after) (next : BitVec 64) :
    store.assign next size operand value = after := by
  cases arg with
  | undef | immediate => cases named
  | register reg =>
    obtain ⟨register, known, rfl⟩ := Option.map_eq_some_iff.mp named
    simpa [Arg.write, known, Store.assign] using written
  | memory place =>
    obtain ⟨address, addressed, rfl⟩ := Option.map_eq_some_iff.mp named
    simp only [Arg.write, Memory.effective_address addressed store next, saveOutside, Option.bind_eq_bind, Option.bind_some] at written
    split at written
    · cases written
      rfl
    · cases written

def HasSize (size : Size) : Operand → Prop
  | .reg register => register.size = size
  | _ => True

private theorem assign_congr {operand : Operand} (sized : HasSize size operand) (store : Store) (next : BitVec 64)
    {first second : Int} (same : first % size.modulus = second % size.modulus) :
    store.assign next size operand first = store.assign next size operand second := by
  cases operand with
  | reg register =>
    cases sized
    exact store.write_congr register same
  | mem address =>
    have bytes : littleEndian size.bytes first = littleEndian size.bytes second := by
      apply littleEndian_congr
      exact_mod_cast same
    simp only [Store.assign, bytes]
  | imm => rfl

private theorem result_congr (operation : Operation) (old : Int) {size : Size} {first second : Int}
    (same : first % size.modulus = second % size.modulus) :
    operation.result old first % size.modulus = operation.result old second % size.modulus := by
  cases operation with
  | mov => exact same
  | add => exact Int.add_emod_eq_add_emod_left old same

end Operands

private theorem bmod_of_fitsSigned {n : Nat} (positive : 0 < n) {imm : Imm} (fits : FitsSigned (8 * n) imm) :
    imm.toInt.bmod (256 ^ n) = imm.toInt := by
  obtain ⟨k, rfl⟩ := Nat.exists_eq_add_of_lt positive
  obtain ⟨low, high⟩ := fits
  have half : (2 : Int) ^ (8 * (0 + k + 1) - 1) = 128 * ((256 ^ k : Nat) : Int) := by
    rw [show 8 * (0 + k + 1) - 1 = 8 * k + 7 by omega, pow_add, pow_mul]
    push_cast
    ring
  have whole : 256 ^ (0 + k + 1) = 256 * 256 ^ k := by ring
  rw [half] at low high
  rw [whole]
  apply Int.bmod_eq_of_le <;> omega

private theorem bmod_field {size : Size} {n : Nat} {imm : Imm}
    (kept : n = size.bytes ∨ 0 < n ∧ FitsSigned (8 * n) imm) :
    imm.toInt.bmod (256 ^ n) % size.modulus = imm.toInt % size.modulus := by
  rcases kept with rfl | ⟨positive, fits⟩
  · exact Int.bmod_emod
  · rw [bmod_of_fitsSigned positive fits]

private theorem Arg.source_cases (arg : Arg) (bytes : Nat) :
    (∃ imm, arg = .immediate imm) ∨ arg.source bytes = arg.target := by
  cases arg <;> simp [Arg.source]

private theorem Arg.read_source {arg : Arg} {bytes : Nat} {operand : Operand} {size : Size}
    (named : arg.source bytes = some operand)
    (kept : ∀ imm, arg = .immediate imm → bytes = size.bytes ∨ 0 < bytes ∧ FitsSigned (8 * bytes) imm)
    {store : Store} {value : Int} (taken : arg.read size store = some value) (next : BitVec 64) :
    store.value next size operand % size.modulus = value % size.modulus := by
  rcases arg.source_cases bytes with ⟨imm, rfl⟩ | direct
  · cases named
    cases taken
    exact bmod_field (kept imm rfl)
  · rw [direct] at named
    rw [Arg.read_target named size store next] at taken
    cases taken
    rfl

section Effects

variable {mnemo : Mnemo} {operation : Operation} {size : Size} {target source : Operand}

/-- The two-operand commands, for a source that is read as the same number modulo the size. -/
private theorem binary_exec (sized : mnemo.width.size = some size) (written : mnemo.a1.target = some target)
    (same : HasSize size target)
    (read : ∀ store value next, mnemo.a2.read size store = some value →
      store.value next size source % size.modulus = value % size.modulus)
    {code : Window} {store : Store} {outcome : Outcome Store Machine}
    (acted : mnemo.update code operation store = some outcome) (next : BitVec 64) :
    (Instruction.binary operation size target source).exec next store = machineAt next outcome := by
  simp only [Mnemo.update, Option.bind_eq_bind, Option.bind_eq_some_iff, sized] at acted
  obtain ⟨_, same', old, known, value, taken, after, stored, done⟩ := acted
  cases same'
  cases done
  rw [Arg.read_target written _ _ next] at known
  cases known
  have results := result_congr operation (store.value next size target) (read store value next taken)
  rw [Instruction.exec, assign_congr same store next results, Arg.write_target written stored next]
  rfl

private theorem push_exec (tagged : mnemo.tag = .push) (slotted : mnemo.width.slot = some size)
    (read : ∀ store value next, mnemo.a1.read size store = some value →
      store.value next size source % size.modulus = value % size.modulus)
    {code : Window} {store : Store} {outcome : Outcome Store Machine}
    (acted : mnemo.effect code store = some outcome) (next : BitVec 64) :
    (Instruction.push size source).exec next store = machineAt next outcome := by
  simp only [Mnemo.effect, tagged, slotted, Option.bind_eq_bind, Option.bind_eq_some_iff, saveOutside] at acted
  obtain ⟨_, same', value, taken, after, stored, done⟩ := acted
  cases same'
  cases done
  have bytes : littleEndian size.bytes (store.value next size source) = littleEndian size.bytes value := by
    apply littleEndian_congr
    exact_mod_cast read store value next taken
  split at stored
  · cases stored
    rw [Instruction.exec, Store.push, bytes]
    rfl
  · cases stored

private theorem pop_exec (tagged : mnemo.tag = .pop) (slotted : mnemo.width.slot = some size)
    (written : mnemo.a1.target = some target) {code : Window} {store : Store} {outcome : Outcome Store Machine}
    (acted : mnemo.effect code store = some outcome) (next : BitVec 64) :
    (Instruction.pop size target).exec next store = machineAt next outcome := by
  simp only [Mnemo.effect, tagged, slotted, Option.bind_eq_bind, Option.bind_eq_some_iff] at acted
  obtain ⟨_, same', after, stored, done⟩ := acted
  cases same'
  cases done
  rw [Instruction.exec, Arg.write_target written stored next]
  rfl

end Effects

section Classes

variable {mnemo : Mnemo} {instruction : Instruction} {code : Window} {store : Store} {outcome : Outcome Store Machine}

private theorem effect_binary {operation : Operation} (tagged : mnemo.tag = tagOf operation) (code : Window)
    (store : Store) :
    mnemo.effect code store = mnemo.update code operation store := by
  cases operation <;> simp [Mnemo.effect, tagged, tagOf]

theorem hasSize_target {arg : Arg} {width : Width} {size : Size} {operand : Operand} (fits : arg.HasWidth width)
    (sized : width.size = some size) (named : arg.target = some operand) : HasSize size operand := by
  cases arg with
  | undef | immediate => cases named
  | register reg =>
    obtain ⟨register, known, rfl⟩ := Arg.hasWidth_register.mp fits
    obtain ⟨_, other, rfl⟩ := Option.map_eq_some_iff.mp named
    cases known.symm.trans other
    rw [Width.size_ofSize] at sized
    exact Option.some.inj sized
  | memory place =>
    obtain ⟨address, -, rfl⟩ := Option.map_eq_some_iff.mp named
    trivial

/-- The immediate of a two-operand mnemo has room in its field, or as much of it as the
operand has room for. -/
def Mnemo.Kept (mnemo : Mnemo) : Prop :=
  ∀ size imm, mnemo.width.size = some size → mnemo.a2 = .immediate imm →
    mnemo.a1.immediateSize size = size.bytes ∨
      0 < mnemo.a1.immediateSize size ∧ FitsSigned (8 * mnemo.a1.immediateSize size) imm

private theorem binary_instruction_exec (operation : Operation) (tagged : mnemo.tag = tagOf operation)
    (first : mnemo.a1.HasWidth mnemo.width) (kept : mnemo.Kept) (meant : mnemo.instruction = some instruction)
    (acted : mnemo.effect code store = some outcome) (next : BitVec 64) :
    instruction.exec next store = machineAt next outcome := by
  have own : mnemo.instruction = mnemo.binary operation := by
    cases operation <;> simp [Mnemo.instruction, tagged, tagOf]
  rw [own] at meant
  simp only [Mnemo.binary, Option.bind_eq_bind, Option.bind_eq_some_iff] at meant
  obtain ⟨size, sized, target, written, source, named, same⟩ := meant
  cases same
  rw [effect_binary tagged] at acted
  apply binary_exec sized written (hasSize_target first sized written) _ acted
  intro store value next taken
  exact Arg.read_source named (kept size · sized) taken next

private theorem stack_instruction_exec (isPush : Bool) (tagged : mnemo.tag = stackTag isPush)
    (sized : mnemo.width = .word ∨ mnemo.width = .qword) (direct : ∀ imm, mnemo.a1 ≠ .immediate imm)
    (meant : mnemo.instruction = some instruction) (acted : mnemo.effect code store = some outcome) (next : BitVec 64) :
    instruction.exec next store = machineAt next outcome := by
  obtain ⟨size, known, slotted, slot⟩ : ∃ size, mnemo.width.size = some size ∧ mnemo.width.slot = some size ∧
      (if size = .word then .word else .qword) = size := by
    rcases sized with word | qword
    · exact ⟨.word, by simp [word, Width.size], by simp [word, Width.slot], rfl⟩
    · exact ⟨.qword, by simp [qword, Width.size], by simp [qword, Width.slot], rfl⟩
  cases isPush with
  | true =>
    simp only [Mnemo.instruction, tagged, stackTag, if_true, known, slot, Option.bind_eq_bind, Option.bind_some,
      Option.bind_eq_some_iff] at meant
    obtain ⟨source, named, same⟩ := meant
    cases same
    apply push_exec tagged slotted _ acted
    intro store value next taken
    exact Arg.read_source named (fun imm same => absurd same (direct imm)) taken next
  | false =>
    simp only [Mnemo.instruction, tagged, stackTag, Bool.false_eq_true, if_false, known, Option.bind_eq_bind,
      Option.bind_some, Option.bind_eq_some_iff] at meant
    obtain ⟨target, written, same⟩ := meant
    cases same
    exact pop_exec tagged slotted written acted next

theorem Supported.valid (supported : Supported mnemo) : mnemo.Valid := by
  obtain ⟨bytes, accepted, -⟩ := supported.decodes
  exact ((assemble_singleton_ok_iff mnemo bytes).mp accepted).1

/-- The instruction that a mnemo stands for does what the mnemo means. -/
theorem instruction_exec (supported : Supported mnemo) (exact : mnemo.Exact)
    (meant : mnemo.instruction = some instruction) (acted : mnemo.effect code store = some outcome) (next : BitVec 64) :
    instruction.exec next store = machineAt next outcome := by
  have first := supported.valid.first
  cases supported with
  | regReg binary | memReg binary | regMem binary =>
    obtain ⟨operation, rfl⟩ := tag_binary binary
    refine binary_instruction_exec operation rfl first ?_ meant acted next
    intro size imm sized same
    cases same
  | movRegImm =>
    refine binary_instruction_exec .mov rfl first ?_ meant acted next
    intro size imm sized same
    exact .inl rfl
  | movMemImm widths =>
    refine binary_instruction_exec .mov rfl first ?_ meant acted next
    intro size imm sized same
    cases same
    rcases widths with rfl | rfl | rfl | rfl <;> cases sized
    · exact .inl rfl
    · exact .inl rfl
    · exact .inl rfl
    · exact .inr ⟨Nat.succ_pos 3, exact⟩
  | stackReg stack widths | stackMem stack widths =>
    obtain ⟨isPush, rfl⟩ := tag_stack stack
    refine stack_instruction_exec isPush rfl widths ?_ meant acted next
    intro imm same
    cases same
  | pushImm widths =>
    rcases widths with rfl | rfl | rfl <;> cases meant <;> refine push_exec rfl rfl ?_ acted next <;>
      intro store value next taken <;> cases taken
    · exact bmod_field (.inr ⟨Nat.succ_pos 0, exact⟩)
    · exact bmod_field (.inl rfl)
    · exact bmod_field (.inr ⟨Nat.succ_pos 3, exact⟩)
  | ret =>
    cases meant
    cases acted
    rfl

end Classes

section Additions

variable {width : Width} {size : Size} {imm : Imm}

private theorem addMemImm_decode {memory : Memory} {base : Register} {sib : Option Fields} {address : Address}
    (readable : memory.Readable base sib) (addressed : memory.address = some address) (imm : Imm) (rest : List u8) :
    decode (addMemCode size memory base sib imm ++ rest) =
      some (.binary .add size (.mem address) (immediateOperand size.immediate imm), rest) := by
  obtain ⟨found, other, read⟩ := readable.address
  cases addressed.symm.trans other
  rw [← addressSize_memoryPrefixes readable.wide size] at read
  simp [decode_addMemCode, rmDigit, rm_memory size (read _ _), immediateOperand]

private theorem add_realizes {arg : Arg} {target : Operand} {n : Nat} {bytes : List u8} (sized : width.size = some size)
    (written : arg.target = some target) (first : arg.HasWidth width)
    (kept : n = size.bytes ∨ 0 < n ∧ FitsSigned (8 * n) imm)
    (decoded : ∀ rest, decode (bytes ++ rest) = some (.binary .add size target (immediateOperand n imm), rest)) :
    Realizes ⟨.add, width, arg, .immediate imm⟩ bytes := by
  refine ⟨_, decoded, fun code store outcome acted next => ?_⟩
  refine @binary_exec _ .add size target _ sized written (hasSize_target first sized written) ?_ _ _ _ acted next
  intro store value next taken
  cases taken
  exact bmod_field kept

private theorem immediate_kept (narrow : size = .qword → FitsSigned 32 imm) :
    size.immediate = size.bytes ∨ 0 < size.immediate ∧ FitsSigned (8 * size.immediate) imm := by
  cases size with
  | byte | word | dword => exact .inl rfl
  | qword => exact .inr ⟨Nat.succ_pos 3, narrow rfl⟩

private theorem FitsSigned.fitsImm32 (narrow : size = .qword → FitsSigned 32 imm) : FitsImm32 size imm := by
  intro qword
  obtain ⟨low, high⟩ := narrow qword
  rw [canBeEncodedIn32Bits_iff]
  omega

private theorem width_of_size (sized : width.size = some size) (qword : size = .qword) : width = .qword := by
  rw [Width.ofSize_eq sized, qword]
  rfl

private theorem size_of_width (sized : width.size = some size) (byte : width = .byte) : size = .byte := by
  rw [byte] at sized
  exact (Option.some.inj sized).symm

private theorem addRegImm_realizes {reg : Reg} (first : registerWidth reg = .ok width)
    (signed : width ≠ .byte → imm.toInt < 128 ∨ 255 < imm.toInt) (narrow : width = .qword → FitsSigned 32 imm) :
    ∃ bytes, assemble [⟨.add, width, .register reg, .immediate imm⟩] = .ok bytes ∧
      Realizes ⟨.add, width, .register reg, .immediate imm⟩ bytes := by
  obtain ⟨target, named, sized, known⟩ := size_of_registerWidth first
  have valid : Mnemo.Valid ⟨.add, width, .register reg, .immediate imm⟩ := ⟨by simp, known, first, trivial⟩
  have written : (Arg.register reg).target = some (.reg target) := by simp [Arg.target, named]
  have narrow : target.size = .qword → FitsSigned 32 imm := fun qword => narrow (width_of_size sized qword)
  have kept := immediate_kept narrow
  have fits := FitsSigned.fitsImm32 narrow
  by_cases short : Short target.size imm
  · have wide : width ≠ .byte := fun byte => short.2 (size_of_width sized byte)
    have bounds := (canBeEncodedIn8Bits_iff imm).mp short.1
    have keptShort : FitsSigned (8 * 1) imm := by
      constructor <;> have other := signed wide <;> omega
    refine ⟨_, (assemble_singleton_ok_iff _ _).mpr ⟨valid, _, _, _, .addRegShort sized named short, rfl⟩, ?_⟩
    exact add_realizes sized written first (.inr ⟨Nat.one_pos, keptShort⟩)
      (addRegShort_decode named rfl short.2 imm)
  by_cases accumulator : reg = .al ∨ reg = .ax ∨ reg = .eax ∨ reg = .rax
  · refine ⟨_, (assemble_singleton_ok_iff _ _).mpr ⟨valid, _, _, _, .addAccumulator sized accumulator short fits, rfl⟩, ?_⟩
    exact add_realizes sized written first kept (addAccumulator_decode accumulator named rfl imm)
  · refine ⟨_, (assemble_singleton_ok_iff _ _).mpr ⟨valid, _, _, _, .addRegImm sized named accumulator short fits, rfl⟩, ?_⟩
    exact add_realizes sized written first kept (addRegImm_decode named rfl imm)

private theorem addMemImm_realizes {memory : Memory}
    (widths : width = .byte ∨ width = .word ∨ width = .dword ∨ width = .qword)
    (place : memory.Supported) (long : width ≠ .byte → imm.toInt < -128 ∨ 255 < imm.toInt)
    (narrow : width = .qword → FitsSigned 32 imm) :
    ∃ bytes, assemble [⟨.add, width, .memory memory, .immediate imm⟩] = .ok bytes ∧
      Realizes ⟨.add, width, .memory memory, .immediate imm⟩ bytes := by
  obtain ⟨size, sized⟩ : ∃ size, width.size = some size := by
    rcases widths with rfl | rfl | rfl | rfl <;> exact ⟨_, rfl⟩
  obtain ⟨base, sib, readable⟩ := place.readable
  obtain ⟨address, addressed, -⟩ := readable.address
  have valid : Mnemo.Valid ⟨.add, width, .memory memory, .immediate imm⟩ :=
    ⟨by simp, Width.ne_undef sized, trivial, trivial⟩
  have notShort : ¬Short size imm := by
    intro short
    have bounds := (canBeEncodedIn8Bits_iff imm).mp short.1
    have wide : width ≠ .byte := fun byte => short.2 (size_of_width sized byte)
    have other := long wide
    omega
  have written : (Arg.memory memory).target = some (.mem address) := by simp [Arg.target, addressed]
  have narrow : size = .qword → FitsSigned 32 imm := fun qword => narrow (width_of_size sized qword)
  refine ⟨addMemCode size memory base sib imm, (assemble_singleton_ok_iff _ _).mpr ⟨valid, _, _, _,
    .addMemImm sized readable.place (FitsSigned.fitsImm32 narrow), by rw [if_neg notShort]; rfl⟩, ?_⟩
  exact add_realizes sized written trivial (immediate_kept narrow) (addMemImm_decode readable addressed imm)

end Additions

section Totality

variable {code : Window} {store : Store}

def NoCode (code : Window) : Prop := code.size = 0

private theorem saveOutside_total (empty : NoCode code) (place : BitVec 64) (bytes : List u8) :
    ∃ after, saveOutside code store place bytes = some after := by
  refine ⟨_, if_pos ?_⟩
  intro i inside
  rw [empty] at inside
  exact absurd inside (Nat.not_lt_zero i)

private theorem Arg.write_total (empty : NoCode code) {arg : Arg} {operand : Operand}
    (named : arg.target = some operand) (size : Size)
    (value : Int) : ∃ after, arg.write code size value store = some after := by
  cases arg with
  | undef | immediate => cases named
  | register reg =>
    obtain ⟨register, known, -⟩ := Option.map_eq_some_iff.mp named
    exact ⟨_, by rw [Arg.write, known]; rfl⟩
  | memory place =>
    obtain ⟨address, addressed, -⟩ := Option.map_eq_some_iff.mp named
    obtain ⟨after, saved⟩ := @saveOutside_total code store empty (store.effective 0 address) (littleEndian size.bytes value)
    exact ⟨after, by rw [Arg.write, Memory.effective_address addressed store 0]; exact saved⟩

private theorem Arg.read_total {arg : Arg} {bytes : Nat} {operand : Operand} (named : arg.source bytes = some operand)
    (size : Size) (store : Store) : ∃ value, arg.read size store = some value := by
  rcases arg.source_cases bytes with ⟨imm, rfl⟩ | direct
  · exact ⟨_, rfl⟩
  · rw [direct] at named
    exact ⟨_, Arg.read_target named size store 0⟩

private theorem update_total (empty : NoCode code) {mnemo : Mnemo} {operation : Operation} {instruction : Instruction}
    (meant : mnemo.binary operation = some instruction) (store : Store) :
    ∃ outcome, mnemo.update code operation store = some outcome := by
  simp only [Mnemo.binary, Option.bind_eq_bind, Option.bind_eq_some_iff] at meant
  obtain ⟨size, sized, target, written, source, named, -⟩ := meant
  obtain ⟨value, taken⟩ := Arg.read_total named size store
  obtain ⟨old, known⟩ : ∃ old, mnemo.a1.read size store = some old := ⟨_, Arg.read_target written size store 0⟩
  obtain ⟨after, stored⟩ := @Arg.write_total code store empty _ _ written size (operation.result old value)
  exact ⟨.next after, by simp [Mnemo.update, sized, taken, known, stored]⟩

/-- A mnemo that stands for an instruction is stuck only by storing into code. -/
theorem effect_total (empty : NoCode code) {mnemo : Mnemo} {instruction : Instruction}
    (meant : mnemo.instruction = some instruction) (store : Store) : ∃ outcome, mnemo.effect code store = some outcome := by
  have slotted {width : Width} {size : Size} (sized : width.size = some size) : ∃ slot, width.slot = some slot := by
    cases width <;> cases sized <;> exact ⟨_, rfl⟩
  unfold Mnemo.instruction at meant
  split at meant
  next tagged =>
    simp only [Mnemo.effect, tagged]
    exact update_total empty meant store
  next tagged =>
    simp only [Mnemo.effect, tagged]
    exact update_total empty meant store
  next tagged =>
    simp only [Option.bind_eq_bind, Option.bind_eq_some_iff] at meant
    obtain ⟨size, sized, source, named, -⟩ := meant
    obtain ⟨slot, slotted⟩ := slotted sized
    obtain ⟨value, taken⟩ := Arg.read_total named slot store
    obtain ⟨after, saved⟩ := @saveOutside_total code (store.lower slot) empty (store.lower slot).top (littleEndian slot.bytes value)
    exact ⟨.next after, by simp [Mnemo.effect, tagged, slotted, taken, saved]⟩
  next tagged =>
    simp only [Option.bind_eq_bind, Option.bind_eq_some_iff] at meant
    obtain ⟨size, sized, target, written, -⟩ := meant
    obtain ⟨slot, slotted⟩ := slotted sized
    obtain ⟨after, stored⟩ := @Arg.write_total code (store.raise slot) empty _ _ written slot (store.peek slot)
    exact ⟨.next after, by simp [Mnemo.effect, tagged, slotted, stored]⟩
  next tagged => exact ⟨_, by rw [Mnemo.effect, tagged]⟩
  next => cases meant

end Totality

theorem Executable.instruction {mnemo : Mnemo} (executable : Executable mnemo) :
    ∃ instruction, mnemo.instruction = some instruction := by
  cases executable with
  | supported supported =>
    obtain ⟨-, -, instruction, meant, -⟩ := supported.decodes
    exact ⟨instruction, meant⟩
  | @addRegImm width a1 imm first =>
    obtain ⟨target, named, sized, -⟩ := size_of_registerWidth first
    refine ⟨.binary .add target.size (.reg target) (immediateOperand target.size.bytes imm), ?_⟩
    simp [Mnemo.instruction, Mnemo.binary, sized, Arg.target, named, Arg.source, Arg.immediateSize]
  | @addMemImm width memory imm widths place =>
    obtain ⟨base, sib, readable⟩ := place.readable
    obtain ⟨address, addressed, -⟩ := readable.address
    obtain ⟨size, sized⟩ : ∃ size, width.size = some size := by
      rcases widths with rfl | rfl | rfl | rfl <;> exact ⟨_, rfl⟩
    refine ⟨.binary .add size (.mem address) (immediateOperand size.immediate imm), ?_⟩
    simp [Mnemo.instruction, Mnemo.binary, sized, Arg.target, addressed, Arg.source, Arg.immediateSize]

/-- Executable mnemos are accepted, and their code does what they mean. -/
theorem Executable.realizes {mnemo : Mnemo} (executable : Executable mnemo) :
    ∃ bytes, assemble [mnemo] = .ok bytes ∧ Realizes mnemo bytes := by
  cases executable with
  | supported supported exact =>
    obtain ⟨bytes, accepted, instruction, meant, decoded⟩ := supported.decodes
    exact ⟨bytes, accepted, instruction, decoded, fun _ _ _ acted => instruction_exec supported exact meant acted⟩
  | addRegImm first signed narrow => exact addRegImm_realizes first signed narrow
  | addMemImm widths place long narrow => exact addMemImm_realizes widths place long narrow

theorem Executable.total {mnemo : Mnemo} (executable : Executable mnemo) (store : Store) :
    ∃ outcome, mnemo.effect ⟨0, 0⟩ store = some outcome := by
  obtain ⟨_, meant⟩ := executable.instruction
  have empty : NoCode ⟨0, 0⟩ := rfl
  exact effect_total empty meant store

/-- The code of an executable mnemo is one instruction wherever it stands, and does in every
state what the mnemo means; the mnemo is never stuck. -/
theorem executable_code_correct (mnemo : Mnemo) (executable : Executable mnemo) :
    ∃ bytes instruction, assemble [mnemo] = .ok bytes ∧ (∀ rest, decode (bytes ++ rest) = some (instruction, rest)) ∧
      ∀ store, ∃ outcome, mnemo.effect ⟨0, 0⟩ store = some outcome ∧
        ∀ next, instruction.exec next store = machineAt next outcome := by
  obtain ⟨bytes, accepted, instruction, decoded, does⟩ := executable.realizes
  refine ⟨bytes, instruction, accepted, decoded, fun store => ?_⟩
  obtain ⟨outcome, acted⟩ := executable.total store
  exact ⟨outcome, acted, does _ _ _ acted⟩

theorem executable_code_correct_add : ∃ bytes instruction,
    assemble [⟨.add, .word, .memory ⟨.rbp, .rcx, .s4, -8, nofun⟩, .immediate 1000⟩] = .ok bytes ∧
      (∀ rest, decode (bytes ++ rest) = some (instruction, rest)) ∧
      ∀ store, ∃ outcome,
        Mnemo.effect ⟨0, 0⟩ ⟨.add, .word, .memory ⟨.rbp, .rcx, .s4, -8, nofun⟩, .immediate 1000⟩ store = some outcome ∧
          ∀ next, instruction.exec next store = machineAt next outcome := by
  apply executable_code_correct
  have place : Memory.Supported ⟨.rbp, .rcx, .s4, -8, nofun⟩ := ⟨.inr rfl, .inr ⟨rfl, by simp⟩, by simp⟩
  exact .addMemImm (.inr (.inl rfl)) place (fun _ => .inr (by decide)) nofun

end Cplastane.Assembly
