import Cplastane.Proofs.Supported
import Cplastane.X86.Shortest

/-! The address form is the shortest one. What is emitted for a supported operand takes
no byte more than its address needs in any form. -/

namespace Cplastane.Assembly
open X86

private theorem dispLength_eq (disp : Disp) : dispLength disp = dispBytes disp.toInt := by
  have zero : disp = 0 ↔ disp.toInt = 0 := Int32.toInt_inj.symm
  have low : -128 ≤ disp ↔ -128 ≤ disp.toInt := Int32.le_iff_toInt_le
  have high : disp ≤ 127 ↔ disp.toInt ≤ 127 := Int32.le_iff_toInt_le
  unfold dispLength dispBytes
  simp only [zero, low, high]

namespace Memory

variable {memory : Memory} {base : Register} {sib : Option Fields}

private theorem Readable.needsSib (readable : memory.Readable base sib) (long : sib ≠ none) :
    (Address.mk base.size (.reg base) memory.scaledIndex.join memory.disp.toInt).NeedsSib := by
  obtain ⟨⟨based, _, chosen⟩, wide, kept, _⟩ := readable
  have scaled := chosen.scaledIndex
  cases chosen with
  | short => exact absurd rfl long
  | long isLong _ _ fields =>
    by_cases unscaled : memory.scale = .s0
    · have four : base.number = 4 := by
        rw [Reg.wide_four based wide]
        by_contra other
        obtain ⟨esp, rsp⟩ := not_or.mp other
        refine isLong ⟨unscaled, esp, rsp, fun escape => kept ⟨escape.1, ?_⟩⟩
        exact (Reg.wide_five based wide).mpr (.inr escape.2)
      refine .inr ?_
      change Base.reg base = _
      rw [← four, wide.gp]
    · refine .inl ?_
      rcases scaled with ⟨unindexed, _⟩ | ⟨index, factor, _, scaled⟩
      · simp [Memory.sib, unscaled, unindexed, Reg.register] at fields
      · simp [scaled]

private theorem formBytes_length (memory : Memory) (base : Register) (sib : Option Fields) (reg : Fin 8) :
    (memory.formBytes base sib reg).length = 1 + sib.toList.length + dispLength memory.disp := by
  cases sib <;> simp [formBytes] <;> omega

theorem Readable.shortest (readable : memory.Readable base sib) (reg : Fin 8) {size : Size} {bytes : List u8}
    {other : Fin 8} (decoded : X86.memory size bytes =
      some (other, ⟨base.size, .reg base, memory.scaledIndex.join, memory.disp.toInt⟩, [])) :
    (memory.formBytes base sib reg).length ≤ bytes.length := by
  have needed := memory_length decoded rfl
  rw [formBytes_length, dispLength_eq]
  cases sib with
  | none =>
    simp only [Option.toList_none, List.length_nil] at needed ⊢
    omega
  | some fields =>
    rw [if_pos (readable.needsSib nofun)] at needed
    exact needed

end Memory

/-- No byte string that decodes to the address of a supported operand is shorter than the
one emitted for it. -/
theorem address_form_shortest {memory : Memory} (supported : memory.Supported) (reg : Fin 8) :
    ∃ result address, assembleMemoryMnemo memory = .ok result ∧ memory.address = some address ∧
      X86.memory address.size (pushMemoryForm [] result (UInt8.ofNat reg.val) memory.disp) = some (reg, address, []) ∧
      ∀ size bytes other, X86.memory size bytes = some (other, address, []) →
        (pushMemoryForm [] result (UInt8.ofNat reg.val) memory.disp).length ≤ bytes.length := by
  obtain ⟨base, sib, readable⟩ := supported.readable
  have accepted := (assembleMemoryMnemo_ok_iff memory _).mpr
    ⟨base, sib, readable.place.based, readable.place.chosen, rfl⟩
  have emitted : pushMemoryForm [] (memory.result base sib) (UInt8.ofNat reg.val) memory.disp =
      memory.formBytes base sib reg := pushMemoryForm_eq [] memory base sib reg
  refine ⟨_, _, accepted, readable.place.address, ?_, ?_⟩
  · have whole := readable.read reg []
    rw [List.append_nil] at whole
    rw [emitted]
    exact whole
  · intro size bytes other decoded
    rw [emitted]
    exact readable.shortest reg decoded

/-- The same for `[rsp + 127]`, which takes a SIB byte. -/
theorem address_form_shortest_rsp : ∃ result address,
    assembleMemoryMnemo ⟨.rsp, .undef, .s0, 127, fun _ => rfl⟩ = .ok result ∧
      Memory.address ⟨.rsp, .undef, .s0, 127, fun _ => rfl⟩ = some address ∧
      X86.memory address.size (pushMemoryForm [] result 5 127) = some (5, address, []) ∧
      ∀ size bytes other, X86.memory size bytes = some (other, address, []) →
        (pushMemoryForm [] result 5 127).length ≤ bytes.length :=
  @address_form_shortest ⟨.rsp, .undef, .s0, 127, fun _ => rfl⟩ ⟨.inr rfl, .inl ⟨rfl, rfl⟩, nofun⟩ 5

end Cplastane.Assembly
