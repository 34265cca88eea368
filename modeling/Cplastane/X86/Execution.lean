import Cplastane.X86.Machine
import Mathlib.Data.List.Basic

/-! Rules of registers, memory and the stack, and the step of a processor that stands in
front of known code. -/

namespace X86

theorem Register.view_merge (register : Register) {content : Nat} (bound : content < 2 ^ 64) (value : Int) :
    (register.view (BitVec.ofInt 64 (register.merge content value)).toNat : Int) = value % register.size.modulus := by
  rw [BitVec.toNat_ofInt]
  cases register with
  | gp size number =>
    cases size <;> simp [Register.merge, Register.view, Register.size, Register.weight, Size.modulus, Size.bytes] <;> omega
  | high number =>
    simp [Register.merge, Register.view, Register.size, Register.weight, Size.modulus, Size.bytes]
    omega

namespace Store

variable {store : Store} {place : BitVec 64}

section Registers

theorem read_write (store : Store) (register : Register) (value : Int) :
    ((store.write register value).read register : Int) = value % register.size.modulus := by
  simp only [read, write, Function.update_self]
  exact register.view_merge (store.registers register.home).isLt value

private theorem read_write_other {register other : Register} (apart : other.home ≠ register.home) (store : Store)
    (value : Int) :
    (store.write register value).read other = store.read other := by
  simp [read, write, Function.update_of_ne apart]

theorem write_congr (store : Store) (register : Register) {first second : Int}
    (same : first % register.size.modulus = second % register.size.modulus) :
    store.write register first = store.write register second := by
  simp only [write, Register.merge, same]

@[simp] theorem read_save (place : BitVec 64) (bytes : List UInt8) (register : Register) :
    (store.save place bytes).read register = store.read register := rfl

end Registers

section Memory

@[simp] theorem load_length (store : Store) (place : BitVec 64) (n : Nat) : (store.load place n).length = n := by
  simp [load]

@[simp] theorem load_write (register : Register) (value : Int) (place : BitVec 64) (n : Nat) :
    (store.write register value).load place n = store.load place n := rfl

@[simp] theorem memory_lower (store : Store) (size : Size) : (store.lower size).memory = store.memory := rfl

@[simp] theorem memory_raise (store : Store) (size : Size) : (store.raise size).memory = store.memory := rfl

@[simp] theorem load_lower (store : Store) (size : Size) (place : BitVec 64) (n : Nat) :
    (store.lower size).load place n = store.load place n := rfl

@[simp] theorem load_raise (store : Store) (size : Size) (place : BitVec 64) (n : Nat) :
    (store.raise size).load place n = store.load place n := rfl

private theorem load_add (store : Store) (place : BitVec 64) (n k : Nat) :
    store.load place (n + k) = store.load place n ++ store.load (place + BitVec.ofNat 64 n) k := by
  simp [load, List.range_add, Function.comp_def, BitVec.ofNat_add, BitVec.add_assoc]

theorem load_eq_iff {other : Store} {otherPlace : BitVec 64} {n : Nat} :
    store.load place n = other.load otherPlace n ↔
      ∀ i < n, store.memory (place + BitVec.ofNat 64 i) = other.memory (otherPlace + BitVec.ofNat 64 i) := by
  simp [load]

theorem holds_append (first second : List UInt8) : store.Holds place (first ++ second) ↔
    store.Holds place first ∧ store.Holds (place + BitVec.ofNat 64 first.length) second := by
  rw [Holds, List.length_append, load_add]
  constructor
  · intro same
    exact List.append_inj same (load_length store place first.length)
  · intro both
    exact congrArg₂ (· ++ ·) both.1 both.2

theorem save_memory {address : BitVec 64} {bytes : List UInt8}
    (outside : ¬Window.Covers ⟨place, bytes.length⟩ address) :
    (store.save place bytes).memory address = store.memory address := by
  have missing : bytes[(address - place).toNat]? = none := List.getElem?_eq_none (Nat.le_of_not_lt outside)
  simp only [save, missing, Option.getD_none]

theorem load_save {window : Window} {bytes : List UInt8} (misses : window.Misses ⟨place, bytes.length⟩) :
    (store.save place bytes).load window.place window.size = store.load window.place window.size :=
  load_eq_iff.mpr fun i inside => save_memory (misses i inside)

theorem save_holds (store : Store) (place : BitVec 64) {bytes : List UInt8} (short : bytes.length ≤ 2 ^ 64) :
    (store.save place bytes).Holds place bytes := by
  apply List.ext_getElem (load_length _ _ _)
  intro i inside bound
  have offset : (place + BitVec.ofNat 64 i - place).toNat = i := by
    rw [BitVec.add_comm, BitVec.add_sub_cancel, BitVec.toNat_ofNat]
    exact Nat.mod_eq_of_lt (Nat.lt_of_lt_of_le bound short)
  simp only [load, save, List.getElem_map, List.getElem_range, offset, List.getElem?_eq_getElem bound, Option.getD_some]

end Memory

section Stack

variable {size : Size}

theorem top_lower_congr {first second : Store} (same : first.registers = second.registers) (size : Size) :
    (first.lower size).top = (second.lower size).top := by
  simp only [lower, top, write, read, same]

theorem push_holds {bytes : List UInt8} (held : store.Holds place bytes)
    (apart : Window.Misses ⟨place, bytes.length⟩ ⟨(store.lower size).top, size.bytes⟩) (value : Int) :
    (store.push size value).Holds place bytes := by
  rw [← littleEndian_length size.bytes value] at apart
  exact (@load_save (store.lower size) _ ⟨place, bytes.length⟩ _ apart).trans held

theorem peek_write {register : Register} (apart : register.home ≠ 4) (store : Store) (value : Int) (size : Size) :
    (store.write register value).peek size = store.peek size := by
  have same : (store.write register value).top = store.top :=
    congrArg (BitVec.ofNat 64) (read_write_other (fun same => apart same.symm) store value)
  rw [peek, same]
  rfl

theorem peek_push (store : Store) (size : Size) (value : Int) :
    ((store.push size value).peek size : Int) = value % size.modulus := by
  have short : (littleEndian size.bytes value).length ≤ 2 ^ 64 := by
    rw [littleEndian_length]
    cases size <;> decide
  have held := save_holds (store.lower size) (store.lower size).top short
  rw [Holds, littleEndian_length] at held
  change (unsigned (((store.lower size).save (store.lower size).top (littleEndian size.bytes value)).load
    (store.lower size).top size.bytes) : Int) = _
  rw [held, unsigned_littleEndian]
  exact congrArg (value % ·) (Nat.cast_pow 256 size.bytes).symm

end Stack

section Quadwords

variable {number : Fin 8}

theorem read_qword (store : Store) (number : Fin 8) :
    store.read (.gp .qword number) = (store.registers number).toNat := by
  have bound := (store.registers number).isLt
  simp only [read, Register.view, Register.home, Register.weight, Register.size, Size.modulus, Size.bytes]
  omega

theorem write_qword (store : Store) (number : Fin 8) (value : Int) :
    store.write (.gp .qword number) value =
      { store with registers := Function.update store.registers number (BitVec.ofInt 64 value) } := by
  have bound := (store.registers number).isLt
  have merged : BitVec.ofInt 64 ((Register.gp .qword number).merge (store.registers number).toNat value) = BitVec.ofInt 64 value := by
    apply BitVec.eq_of_toNat_eq
    simp only [BitVec.toNat_ofInt, Register.merge, Register.view, Register.weight, Register.size, Size.modulus, Size.bytes,
      reduceCtorEq, if_false]
    omega
  simp only [write, Register.home, merged]

theorem write_write (store : Store) (first second : Int) :
    (store.write (.gp .qword number) first).write (.gp .qword number) second = store.write (.gp .qword number) second := by
  simp only [write_qword, Function.update_idem]

theorem raise_write (apart : number ≠ 4) (store : Store) (value : Int) (size : Size) :
    (store.write (.gp .qword number) value).raise size = (store.raise size).write (.gp .qword number) value := by
  have other : stackPointer.home ≠ (Register.gp .qword number).home := fun same => apart same.symm
  have same : (store.write (.gp .qword number) value).read stackPointer = store.read stackPointer :=
    read_write_other other store value
  simp only [raise, same]
  simp only [stackPointer, write_qword]
  rw [Function.update_comm apart.symm]

theorem raise_push (store : Store) (value : Int) :
    ((store.push .qword value).raise .qword).registers = store.registers := by
  have bound := (store.registers 4).isLt
  have back : BitVec.ofInt 64 ((BitVec.ofInt 64 ((store.registers 4).toNat - 8)).toNat + 8) = store.registers 4 := by
    apply BitVec.eq_of_toNat_eq
    simp only [BitVec.toNat_ofInt]
    omega
  simp only [push, raise, lower, stackPointer, write_qword, read_qword, save, Function.update_self,
    Function.update_idem, Size.bytes, Nat.cast_ofNat, back, Function.update_eq_self]

end Quadwords

end Store

section Steps

variable {machine : Machine}

/-- Code that decodes to one instruction is executed by one step. -/
theorem Machine.step_code {code : List UInt8} {instruction : Instruction}
    (decoded : ∀ rest, decode (code ++ rest) = some (instruction, rest)) (short : code.length ≤ 15)
    (loaded : machine.store.Holds machine.ip code) :
    machine.step = some (instruction.exec (machine.ip + BitVec.ofNat 64 code.length) machine.store) := by
  obtain ⟨more, length⟩ := Nat.exists_eq_add_of_le short
  have fetched : machine.store.load machine.ip 15 =
      code ++ machine.store.load (machine.ip + BitVec.ofNat 64 code.length) more := by
    rw [length, Store.load_add]
    congr 1
  rw [Machine.step, fetched, decoded]
  have taken : 15 - more = code.length := by omega
  simp [taken]

/-- The bytes of `ud2` are no instruction of the fragment. -/
theorem Machine.step_trap (loaded : machine.store.Holds machine.ip [0x0f, 0x0b]) : machine.step = none := by
  have fetched : machine.store.load machine.ip 15 =
      [0x0f, 0x0b] ++ machine.store.load (machine.ip + BitVec.ofNat 64 2) 13 := by
    rw [show 15 = 2 + 13 from rfl, Store.load_add]
    exact congrArg (· ++ _) loaded
  have undefined (rest : List UInt8) : decode ([0x0f, 0x0b] ++ rest) = none := by
    simp [decode, head, prefixes, layout]
  rw [Machine.step, fetched, undefined]
  rfl

end Steps

end X86
