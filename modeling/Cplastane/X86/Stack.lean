import Cplastane.X86.Execution

/-! The stack: the bytes below its top, and what is left behind by programs that use some of
them. -/

namespace X86

namespace Window

def below (top : BitVec 64) (depth : Nat) : Window := ⟨top - BitVec.ofNat 64 depth, depth⟩

variable {top address : BitVec 64} {size inner depth : Nat}

theorem Misses.mono {first second part : Window} (misses : first.Misses second)
    (inside : ∀ address, part.Covers address → second.Covers address) : first.Misses part :=
  fun i bound covers => misses i bound (inside _ covers)

theorem below_covers (small : depth < 2 ^ 64) :
    (below top depth).Covers address ↔ 0 < (top - address).toNat ∧ (top - address).toNat ≤ depth := by
  have bound := address.isLt
  have limit := top.isLt
  simp only [Covers, below, BitVec.toNat_sub, BitVec.toNat_ofNat]
  omega

theorem below_mono (fits : size + inner ≤ depth) (small : depth < 2 ^ 64)
    (covers : (below (top - BitVec.ofNat 64 size) inner).Covers address) : (below top depth).Covers address := by
  have bound := address.isLt
  have limit := top.isLt
  rw [below_covers (by omega)] at covers ⊢
  simp only [BitVec.toNat_sub, BitVec.toNat_ofNat] at covers ⊢
  omega

private theorem below_apart (fits : size + inner ≤ depth) (small : depth < 2 ^ 64)
    (covers : (below top size).Covers address) : ¬(below (top - BitVec.ofNat 64 size) inner).Covers address := by
  have bound := address.isLt
  have limit := top.isLt
  rw [below_covers (by omega)] at covers ⊢
  simp only [BitVec.toNat_sub, BitVec.toNat_ofNat] at covers ⊢
  omega

theorem below_self (inside : (below top size).Covers address) (fits : size ≤ depth) (small : depth < 2 ^ 64) :
    (below top depth).Covers address := by
  rw [below_covers (by omega)] at inside ⊢
  omega

end Window

namespace Store

variable {before middle after : Store} {size : Size} {number : Fin 8}

theorem top_eq (store : Store) : store.top = store.registers 4 := by
  apply BitVec.eq_of_toNat_eq
  rw [top, stackPointer, read_qword, BitVec.toNat_ofNat, Nat.mod_eq_of_lt (store.registers 4).isLt]

private theorem registers_raise (store : Store) (size : Size) :
    (store.raise size).registers = Function.update store.registers 4 (store.top + BitVec.ofNat 64 size.bytes) := by
  have sum : BitVec.ofInt 64 ((store.registers 4).toNat + size.bytes) = store.top + BitVec.ofNat 64 size.bytes := by
    rw [top_eq, BitVec.ofInt_add, BitVec.ofInt_natCast, BitVec.ofNat_toNat, BitVec.setWidth_eq, BitVec.ofInt_natCast]
  rw [raise, stackPointer, write_qword, read_qword, sum]

private theorem registers_lower (store : Store) (size : Size) :
    (store.lower size).registers = Function.update store.registers 4 (store.top - BitVec.ofNat 64 size.bytes) := by
  have difference : BitVec.ofInt 64 ((store.registers 4).toNat - size.bytes) = store.top - BitVec.ofNat 64 size.bytes := by
    have bound := (store.registers 4).isLt
    apply BitVec.eq_of_toNat_eq
    rw [top_eq]
    cases size <;> simp only [BitVec.toNat_ofInt, BitVec.toNat_sub, BitVec.toNat_ofNat, Size.bytes] <;> omega
  rw [lower, stackPointer, write_qword, read_qword, difference]

@[simp] theorem top_lower (store : Store) (size : Size) : (store.lower size).top = store.top - BitVec.ofNat 64 size.bytes := by
  rw [top_eq, registers_lower, Function.update_self]

@[simp] theorem top_push (store : Store) (size : Size) (value : Int) :
    (store.push size value).top = store.top - BitVec.ofNat 64 size.bytes := top_lower store size

private theorem push_registers (apart : number ≠ 4) (store : Store) (size : Size) (value : Int) :
    (store.push size value).registers number = store.registers number := by
  rw [push, save, registers_lower]
  exact Function.update_of_ne apart _ _

private theorem raise_registers (apart : number ≠ 4) (store : Store) (size : Size) :
    (store.raise size).registers number = store.registers number := by
  rw [registers_raise]
  exact Function.update_of_ne apart _ _

/-- What a run keeps: the registers that are not free, and the memory outside of the room, are as
before. Runs compose if both of them fit into the larger one's. -/
structure Kept (free : List (Fin 8)) (room : Window) (before after : Store) : Prop where
  registers : ∀ number ∉ free, after.registers number = before.registers number
  memory : ∀ address, ¬room.Covers address → after.memory address = before.memory address

namespace Kept

variable {free : List (Fin 8)} {room : Window}

theorem refl (free : List (Fin 8)) (room : Window) (store : Store) : Kept free room store store :=
  ⟨fun _ _ => rfl, fun _ _ => rfl⟩

theorem trans (first : Kept free room before middle) (second : Kept free room middle after) :
    Kept free room before after where
  registers number kept := (second.registers number kept).trans (first.registers number kept)
  memory address outside := (second.memory address outside).trans (first.memory address outside)

theorem top (kept : Kept free room before after) (pointer : 4 ∉ free) : after.top = before.top := by
  rw [top_eq, top_eq, kept.registers 4 pointer]

theorem load (kept : Kept free room before after) {window : Window}
    (outside : ∀ address, window.Covers address → ¬room.Covers address)
    (small : window.size < 2 ^ 64) : after.load window.place window.size = before.load window.place window.size := by
  apply load_eq_iff.mpr
  intro i inside
  apply kept.memory _ (outside _ _)
  rw [Window.Covers, BitVec.add_comm, BitVec.add_sub_cancel, BitVec.toNat_ofNat]
  omega

theorem write (kept : Kept free room before after) {register : Register} (inside : register.home ∈ free) (value : Int) :
    Kept free room before (after.write register value) where
  registers number outside := by
    have apart : number ≠ register.home := by
      rintro rfl
      exact outside inside
    exact (Function.update_of_ne apart _ _).trans (kept.registers number outside)
  memory := kept.memory

variable {inner depth : Nat} {value : Int}

theorem peek (kept : Kept free (.below (before.push size value).top inner) (before.push size value) after)
    (pointer : 4 ∉ free) (fits : size.bytes + inner ≤ depth) (small : depth < 2 ^ 64) :
    (after.peek size : Int) = value % size.modulus := by
  have slot : ∀ address, (Window.mk (before.push size value).top size.bytes).Covers address →
      ¬(Window.below (before.push size value).top inner).Covers address := by
    intro address inside
    rw [top_push] at inside ⊢
    exact Window.below_apart fits small inside
  have same : after.peek size = (before.push size value).peek size := by
    rw [Store.peek, Store.peek, kept.top pointer]
    exact congrArg unsigned (@load _ _ _ _ kept _ slot (show size.bytes < 2 ^ 64 by omega))
  rw [same, peek_push]

/-- A value is pushed, and in the end the stack pointer is moved back over it. -/
theorem bracket (kept : Kept free (.below (before.push size value).top inner) (before.push size value) after)
    (pointer : 4 ∉ free) (fits : size.bytes + inner ≤ depth) (small : depth < 2 ^ 64) :
    Kept free (.below before.top depth) before (after.raise size) where
  registers number outside := by
    by_cases top : number = 4
    · rw [top, registers_raise, Function.update_self, kept.top pointer, top_push, BitVec.sub_add_cancel, top_eq]
    · rw [raise_registers top, kept.registers number outside, push_registers top]
  memory address outside := by
    have above : ¬(Window.below (before.push size value).top inner).Covers address := by
      rw [top_push]
      exact fun covers => outside (Window.below_mono fits small covers)
    have apart : ¬Window.Covers ⟨(before.lower size).top, (littleEndian size.bytes value).length⟩ address := by
      rw [littleEndian_length, top_lower]
      exact fun covers => outside (Window.below_self covers (by omega) small)
    exact (kept.memory address above).trans ((save_memory apart).trans rfl)

end Kept

end Store

end X86
