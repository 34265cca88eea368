import Cplastane.Assembly.Meaning
import Cplastane.Straight
import Cplastane.X86.Machine

/-! What programs do, in the assembler's own terms: operands are read and written at the
width of the mnemo, immediates are the numbers they were written as, and no address of
code is seen. A program gets stuck when it stores into its own code. -/

namespace Cplastane.Assembly
open X86 Straight

def saveOutside (code : Window) (store : Store) (place : BitVec 64) (bytes : List u8) : Option Store :=
  if code.Misses ⟨place, bytes.length⟩ then some (store.save place bytes) else none

def Memory.offset (memory : Memory) (store : Store) : Option Nat :=
  if memory.scale = .s0 then some 0
  else do
    let index ← memory.index.register
    let factor ← memory.scale.factor
    return store.read index * factor

/-- Addresses are computed at the width of the base register. -/
def Memory.effective (memory : Memory) (store : Store) : Option (BitVec 64) := do
  let base ← memory.base.register
  let offset ← memory.offset store
  return BitVec.ofInt 64 ((store.read base + offset + memory.disp.toInt) % base.size.modulus)

def Arg.read (arg : Arg) (size : Size) (store : Store) : Option Int :=
  match arg with
  | .immediate imm => some imm.toInt
  | .register reg => do return (store.read (← reg.register) : Int)
  | .memory place => do return (unsigned (store.load (← place.effective store) size.bytes) : Int)
  | .undef => none

def Arg.write (code : Window) (arg : Arg) (size : Size) (value : Int) (store : Store) : Option Store :=
  match arg with
  | .register reg => do return store.write (← reg.register) value
  | .memory place => do saveOutside code store (← place.effective store) (littleEndian size.bytes value)
  | .immediate _ | .undef => none

/-- The stack holds words and quadwords. -/
def Width.slot : Width → Option Size
  | .word => some .word
  | .byte | .dword | .qword => some .qword
  | .undef | .notSet => none

def Mnemo.update (code : Window) (mnemo : Mnemo) (operation : Operation) (store : Store) :
    Option (Outcome Store Machine) := do
  let size ← mnemo.width.size
  let old ← mnemo.a1.read size store
  let value ← mnemo.a2.read size store
  let store ← mnemo.a1.write code size (operation.result old value) store
  return .next store

/-- The command a mnemo stands for, for a program whose code is in this window. A program must not
change its code: a store into it is stuck, as is a mnemo without meaning. -/
def Mnemo.effect (code : Window) (mnemo : Mnemo) (store : Store) : Option (Outcome Store Machine) :=
  match mnemo.tag with
  | .mov => mnemo.update code .mov store
  | .add => mnemo.update code .add store
  | .push => do
    let size ← mnemo.width.slot
    let value ← mnemo.a1.read size store
    let store := store.lower size
    let store ← saveOutside code store store.top (littleEndian size.bytes value)
    return .next store
  | .pop => do
    let size ← mnemo.width.slot
    let store ← mnemo.a1.write code size (store.peek size) (store.raise size)
    return .next store
  | .ret => some (.exit ⟨BitVec.ofNat 64 (store.peek .qword), store.raise .qword⟩)
  | .undef => none

def Arg.stored (arg : Arg) (size : Size) (store : Store) : Option Window :=
  match arg with
  | .memory place => do return ⟨← place.effective store, size.bytes⟩
  | .immediate _ | .register _ | .undef => none

def Mnemo.stored (mnemo : Mnemo) (store : Store) : Option Window :=
  match mnemo.tag with
  | .mov | .add => do mnemo.a1.stored (← mnemo.width.size) store
  | .push => do
    let size ← mnemo.width.slot
    return ⟨(store.lower size).top, size.bytes⟩
  | .pop => do
    let size ← mnemo.width.slot
    mnemo.a1.stored size (store.raise size)
  | .ret | .undef => none

end Cplastane.Assembly
