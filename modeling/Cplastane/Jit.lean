import Cplastane.Assembly.Mnemo
import Cplastane.Pages

/-! Running machine code, from `alloc.cxx` (its Unix part) and `jit.cxx`. What happens to
memory is recorded, and the record of a run that throws is kept. -/

namespace Cplastane.Jit

abbrev SizeT := UInt64

/-- The operating system, of which nothing is assumed here: what its calls return, and the pages
that they map and unmap if they succeed, by their first addresses. -/
structure Kernel where
  /-- `none` is `MAP_FAILED`. -/
  mmap : SizeT → Option Nat
  mmapPages : Nat → SizeT → Set Nat
  /-- `false` is -1. -/
  munmap : Nat → SizeT → Bool
  munmapPages : Nat → SizeT → Set Nat

inductive Effect where
  | mapped (place : Nat) (size : SizeT)
  | written (address : Nat) (byte : u8)
  | called (address : Nat)
  | unmapped (place : Nat) (size : SizeT)
deriving DecidableEq, Repr

/-- One constructor for each message of the exceptions. -/
inductive JitThrow where
  | allocationFailed
  | deallocationFailed
  | mmapFailed
deriving DecidableEq, Repr

def JitThrow.what : JitThrow → String
  | allocationFailed => "allocation failed"
  | deallocationFailed => "deallocation failed"
  | mmapFailed => "mmap failed"

abbrev Action := ExceptT JitThrow (StateM (List Effect))

def Action.onto {α : Type} (action : Action α) (effects : List Effect) : Except JitThrow α × List Effect :=
  action.run.run effects

def record (effect : Effect) : Action Unit := modify (· ++ [effect])

def allocExecutable (kernel : Kernel) (size : SizeT) : Action Nat :=
  match kernel.mmap size with
  | none => throw .allocationFailed
  | some mem => do
    record (.mapped mem size)
    return mem

def dealloc (kernel : Kernel) (mem : Nat) (size : SizeT) : Action Unit :=
  if kernel.munmap mem size then record (.unmapped mem size) else throw .deallocationFailed

/-- Nothing to do on Unix. -/
def flushInstructionCache (_mem : Nat) (_size : SizeT) : Action Unit := return

def memcpy (dest : Nat) (source : Nat → u8) (n : SizeT) : Action Unit :=
  (List.range n.toNat).forM fun i => record (.written (dest + i) (source i))

/-- Executes the code at `mc` as a function. `func` is what the code at an address returns if it
comes back; a process that dies in the call, or by a write, has no outcome. The length of the buffer
wraps around. -/
def evalMc (kernel : Kernel) (func : Nat → i64) (mc : Nat → u8) (len : SizeT) : Action i64 := do
  let bufLen := len + 2
  let execMc ← allocExecutable kernel len
  if execMc = 0 then
    throw .mmapFailed
  memcpy execMc mc len
  record (.written (execMc + (bufLen - 2).toNat) 0x0f)
  record (.written (execMc + (bufLen - 1).toNat) 0x0b)
  flushInstructionCache execMc bufLen
  record (.called execMc)
  let executionResult := func execMc
  dealloc kernel execMc bufLen
  return executionResult

end Cplastane.Jit
