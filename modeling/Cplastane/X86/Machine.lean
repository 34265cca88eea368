import Cplastane.X86.Encoding
import Mathlib.Logic.Function.Basic

/-! What the instructions of the fragment do to registers and memory, in 64-bit mode.
Flags are left out, because nothing in the fragment reads them, and every address can be read
and written. -/

namespace X86

def Size.modulus (size : Size) : Nat := 256 ^ size.bytes

namespace Register

def home : Register → Fin 8
  | gp _ number => number
  | high number => number.castLE (by decide)

def weight : Register → Nat
  | gp _ _ => 1
  | high _ => 256

def view (register : Register) (content : Nat) : Nat := content / register.weight % register.size.modulus

/-- Bits around the part stay, except that writing 32 bits clears the upper half. -/
def merge (register : Register) (content : Nat) (value : Int) : Int :=
  let content := if register.size = .dword then 0 else content
  (content : Int) - register.view content * register.weight + value % register.size.modulus * register.weight

end Register

@[ext]
structure Store where
  registers : Fin 8 → BitVec 64
  memory : BitVec 64 → UInt8

/-- Some bytes in a row. The addresses wrap around, so a window may lie on both ends of memory, and
one of 2 ^ 64 bytes or more is all of it. -/
structure Window where
  place : BitVec 64
  size : Nat
deriving DecidableEq, Repr

namespace Window

def Covers (window : Window) (address : BitVec 64) : Prop := (address - window.place).toNat < window.size

instance (window : Window) (address : BitVec 64) : Decidable (window.Covers address) := inferInstanceAs (Decidable (_ < _))

/-- No byte of the first window is in the second. -/
def Misses (first second : Window) : Prop := ∀ i < first.size, ¬second.Covers (first.place + BitVec.ofNat 64 i)

instance (first second : Window) : Decidable (first.Misses second) := inferInstanceAs (Decidable (∀ i < _, _))

end Window

def stackPointer : Register := .gp .qword 4

namespace Store

def read (store : Store) (register : Register) : Nat := register.view (store.registers register.home).toNat

def write (store : Store) (register : Register) (value : Int) : Store where
  registers := Function.update store.registers register.home
    (BitVec.ofInt 64 (register.merge (store.registers register.home).toNat value))
  memory := store.memory

def load (store : Store) (place : BitVec 64) (n : Nat) : List UInt8 :=
  (List.range n).map fun i => store.memory (place + BitVec.ofNat 64 i)

def save (store : Store) (place : BitVec 64) (bytes : List UInt8) : Store where
  registers := store.registers
  memory address := bytes[(address - place).toNat]?.getD (store.memory address)

def Holds (store : Store) (place : BitVec 64) (bytes : List UInt8) : Prop := store.load place bytes.length = bytes

def component (store : Store) (next : BitVec 64) : Base → Nat
  | .absent => 0
  | .ip => next.toNat
  | .reg register => store.read register

def scaled (store : Store) : Option (Register × Nat) → Nat
  | none => 0
  | some (register, factor) => store.read register * factor

/-- Relative to the instruction pointer means relative to the next instruction. -/
def effective (store : Store) (next : BitVec 64) (address : Address) : BitVec 64 :=
  BitVec.ofInt 64 ((store.component next address.base + store.scaled address.index + address.disp) % address.size.modulus)

def value (store : Store) (next : BitVec 64) (size : Size) : Operand → Int
  | .reg register => store.read register
  | .mem address => unsigned (store.load (store.effective next address) size.bytes)
  | .imm _ value => value

def assign (store : Store) (next : BitVec 64) (size : Size) (target : Operand) (value : Int) : Store :=
  match target with
  | .reg register => store.write register value
  | .mem address => store.save (store.effective next address) (littleEndian size.bytes value)
  | .imm _ _ => store

def top (store : Store) : BitVec 64 := BitVec.ofNat 64 (store.read stackPointer)

def lower (store : Store) (size : Size) : Store := store.write stackPointer (store.read stackPointer - size.bytes)

def raise (store : Store) (size : Size) : Store := store.write stackPointer (store.read stackPointer + size.bytes)

def peek (store : Store) (size : Size) : Nat := unsigned (store.load store.top size.bytes)

/-- The stack pointer is moved before the value is stored. -/
def push (store : Store) (size : Size) (value : Int) : Store :=
  (store.lower size).save (store.lower size).top (littleEndian size.bytes value)

end Store

structure Machine where
  ip : BitVec 64
  store : Store

def Operation.result (operation : Operation) (old value : Int) : Int :=
  match operation with
  | mov => value
  | add => old + value

/-- The address of a popped operand is taken after the stack pointer has been moved,
a pushed one is read before. -/
def Instruction.exec (next : BitVec 64) (store : Store) : Instruction → Machine
  | binary operation size target source =>
    let result := operation.result (store.value next size target) (store.value next size source)
    ⟨next, store.assign next size target result⟩
  | push size source => ⟨next, store.push size (store.value next size source)⟩
  | pop size target => ⟨next, (store.raise size).assign next size target (store.peek size)⟩
  | ret => ⟨BitVec.ofNat 64 (store.peek .qword), store.raise .qword⟩

/-- An instruction has at most 15 bytes. What is outside of the fragment stops the processor, as an
undefined instruction does; the trap is one of those. -/
def Machine.step (machine : Machine) : Option Machine := do
  let (instruction, rest) ← decode (machine.store.load machine.ip 15)
  return instruction.exec (machine.ip + BitVec.ofNat 64 (15 - rest.length)) machine.store

end X86
