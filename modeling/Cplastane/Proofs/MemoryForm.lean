import Cplastane.Proofs.Operands

/-! The ModRM and SIB bytes chosen for a memory operand, and how the processor
reads them together with the displacement behind them. -/

namespace Cplastane.Assembly
open X86

def mode (disp : Disp) : Fin 4 := if disp = 0 then 0 else if -128 ≤ disp ∧ disp ≤ 127 then 1 else 2

theorem mode_ne_three (disp : Disp) : mode disp ≠ 3 := by
  unfold mode
  split
  · decide
  split <;> decide

theorem mode_eq_zero (disp : Disp) : mode disp = 0 ↔ disp = 0 := by
  unfold mode
  split
  next zero => simp [zero]
  next some => split <;> simp [some]

/-- Emitted and expected displacement agree unless number 5 meets mod 00, where the processor takes
four bytes of displacement in place of the base. -/
theorem dispSize_mode (disp : Disp) (number : Fin 8) (based : ¬(disp = 0 ∧ number = 5)) :
    dispSize (mode disp) number = dispLength disp := by
  unfold dispSize mode dispLength
  by_cases zero : disp = 0
  · have other : number ≠ 5 := fun five => based ⟨zero, five⟩
    simp [zero, other]
  · by_cases short : -128 ≤ disp ∧ disp ≤ 127 <;> simp [zero, short]

theorem dispSize_escape {disp : Disp} (zero : disp = 0) : dispSize (mode disp) 5 = 4 := by
  subst zero
  rfl

namespace Memory

/-- The short address form: no index, and a base that neither announces a SIB byte nor, as far as
the test for rbp goes, lacks its displacement. The test passes over the other registers of that
number. -/
def IsShort (memory : Memory) : Prop :=
  memory.scale = .s0 ∧ memory.base ≠ .esp ∧ memory.base ≠ .rsp ∧ ¬(memory.disp = 0 ∧ memory.base = .rbp)

instance (memory : Memory) : Decidable memory.IsShort := inferInstanceAs (Decidable (_ ∧ _))

def sib (memory : Memory) (base : Register) : Option Fields :=
  if memory.scale = .s0 then some ⟨0, 4, base.number⟩
  else do
    let bits ← memory.scale.bits
    let index ← memory.index.register
    return ⟨bits, index.number, base.number⟩

/-- The form chosen for an accepted operand: no SIB byte, or this one. The long form refuses an esp
index and an ebp base without displacement, and lets the other registers of these numbers through.
-/
inductive Chosen (memory : Memory) (base : Register) : Option Fields → Prop where
  | short (isShort : memory.IsShort) : Chosen memory base none
  | long {sib : Fields} (isLong : ¬memory.IsShort) (based : ¬(memory.disp = 0 ∧ memory.base = .ebp))
      (index : memory.index ≠ .esp) (chosen : memory.sib base = some sib) : Chosen memory base (some sib)

def modrm (memory : Memory) (base : Register) (sib : Option Fields) (reg : Fin 8) : Fields :=
  ⟨mode memory.disp, reg, if sib.isSome then 4 else base.number⟩

def result (memory : Memory) (base : Register) : Option Fields → AssembleMemoryMnemoResult
  | none => ⟨UInt8.ofNat (mode memory.disp).val, UInt8.ofNat base.number.val, 0b11111111, false⟩
  | some sib => ⟨UInt8.ofNat (mode memory.disp).val, 0b100, sib.byte, true⟩

def formBytes (memory : Memory) (base : Register) (sib : Option Fields) (reg : Fin 8) : List u8 :=
  (memory.modrm base sib reg).byte :: ((sib.map Fields.byte).toList ++
    littleEndian (dispLength memory.disp) memory.disp.toInt)

end Memory

theorem Memory.chosen_of_short {memory : Memory} (isShort : memory.IsShort) (base : Register) (sib : Option Fields) :
    memory.Chosen base sib ↔ sib = none := by
  constructor
  · intro chosen
    cases chosen with
    | short _ => rfl
    | long isLong _ _ _ => exact absurd isShort isLong
  · rintro rfl
    exact .short isShort

theorem Memory.chosen_of_long {memory : Memory} (isLong : ¬memory.IsShort) (base : Register) (sib : Option Fields) :
    memory.Chosen base sib ↔ ¬(memory.disp = 0 ∧ memory.base = .ebp) ∧ memory.index ≠ .esp ∧
      ∃ fields, memory.sib base = some fields ∧ sib = some fields := by
  constructor
  · intro chosen
    cases chosen with
    | short isShort => exact absurd isShort isLong
    | long _ based index chosen => exact ⟨based, index, _, chosen, rfl⟩
  · intro accepted
    obtain ⟨based, index, fields, chosen, rfl⟩ := accepted
    exact .long isLong based index chosen

private theorem modeBits (disp : Disp) :
    (if disp = 0 then 0b00 else if -128 ≤ disp ∧ disp ≤ 127 then 0b01 else 0b10 : u8) =
      UInt8.ofNat (mode disp).val := by
  unfold mode
  split
  · rfl
  split <;> rfl

private theorem mode_bits_zero (disp : Disp) : UInt8.ofNat (mode disp).val = 0 ↔ disp = 0 := by
  rw [← mode_eq_zero]
  generalize mode disp = value
  revert value
  decide

private theorem shortTest (memory : Memory) :
    (!(memory.scale ≠ .s0 || memory.base = .esp || memory.base = .rsp ||
      (memory.disp = 0 && memory.base = .rbp))) = decide memory.IsShort := by
  simp [Memory.IsShort, Bool.and_assoc]

/-- The encoder's choice as a function, with the errors it raises. -/
theorem assembleMemoryMnemo_eq (memory : Memory) :
    assembleMemoryMnemo memory =
      if memory.IsShort then (regToNumber memory.base).map
        (fun rm => ⟨UInt8.ofNat (mode memory.disp).val, rm, 0b11111111, false⟩)
      else if (memory.disp = 0 ∧ memory.base = .ebp) ∨ memory.index = .esp then .error .unsupportedOperation
      else if memory.scale = .s0 then (regToNumber memory.base).map (fun base =>
        ⟨UInt8.ofNat (mode memory.disp).val, 0b100, scaleAndIndexAndBaseToSib 0b00 0b100 base, true⟩)
      else (scaleToNum memory.scale).bind fun scale => (regToNumber memory.index).bind fun index =>
        (regToNumber memory.base).bind fun base =>
          .ok ⟨UInt8.ofNat (mode memory.disp).val, 0b100, scaleAndIndexAndBaseToSib scale index base, true⟩ := by
  unfold assembleMemoryMnemo
  rw [modeBits, shortTest]
  simp only [decide_eq_true_eq, mode_bits_zero]
  by_cases isShort : memory.IsShort
  · simp [isShort, Functor.map]
  by_cases rejected : (memory.disp = 0 ∧ memory.base = .ebp) ∨ memory.index = .esp
  · simp [isShort, rejected, throw, throwThe, MonadExceptOf.throw, bind, Except.bind]
  by_cases unscaled : memory.scale = .s0
  · simp [isShort, rejected, unscaled, Functor.map]
  · simp [isShort, rejected, unscaled, bind, pure, Except.pure]

theorem assembleMemoryMnemo_ok_iff (memory : Memory) (result : AssembleMemoryMnemoResult) :
    assembleMemoryMnemo memory = .ok result ↔
      ∃ base sib, memory.base.register = some base ∧ memory.Chosen base sib ∧ memory.result base sib = result := by
  rw [assembleMemoryMnemo_eq, regToNumber_eq, regToNumber_eq]
  by_cases isShort : memory.IsShort
  · cases named : memory.base.register <;> simp [isShort, Memory.chosen_of_short, Memory.result, Except.map]
  by_cases rejected : (memory.disp = 0 ∧ memory.base = .ebp) ∨ memory.index = .esp
  · simp only [isShort, rejected, if_true, if_false, Memory.chosen_of_long isShort]
    grind
  have accepted : ¬(memory.disp = 0 ∧ memory.base = .ebp) ∧ memory.index ≠ .esp := not_or.mp rejected
  simp only [isShort, rejected, if_false, Memory.chosen_of_long isShort]
  by_cases unscaled : memory.scale = .s0
  · cases named : memory.base.register with
    | none => simp [unscaled, Except.map]
    | some base =>
      have byte : scaleAndIndexAndBaseToSib 0b00 0b100 (UInt8.ofNat base.number.val) =
          (Fields.mk 0 4 base.number).byte := sib_byte 0 4 base.number
      simp [unscaled, Except.map, Memory.sib, Memory.result, accepted, byte]
  · rw [scaleToNum_eq]
    cases scaled : memory.scale.bits <;> cases indexed : memory.index.register <;>
      cases named : memory.base.register <;>
      simp [unscaled, Memory.sib, Memory.result, accepted, Except.bind, scaled, indexed, sib_byte]

theorem pushMemoryForm_eq (out : List u8) (memory : Memory) (base : Register) (sib : Option Fields) (reg : Fin 8) :
    pushMemoryForm out (memory.result base sib) (UInt8.ofNat reg.val) memory.disp =
      out ++ memory.formBytes base sib reg := by
  cases sib with
  | none => simp [pushMemoryForm, Memory.result, Memory.formBytes, Memory.modrm, modrm_byte, appendDisp_eq]
  | some sib =>
    have long : modAndRegAndRmToModrm (UInt8.ofNat (mode memory.disp).val) (UInt8.ofNat reg.val) 0b100 =
        (Fields.mk (mode memory.disp) reg 4).byte := modrm_byte (mode memory.disp) reg 4
    simp [pushMemoryForm, Memory.result, Memory.formBytes, Memory.modrm, appendDisp_eq, long]

theorem pushMemoryForm_zero (out : List u8) (memory : Memory) (base : Register) (sib : Option Fields) :
    pushMemoryForm out (memory.result base sib) 0 memory.disp = out ++ memory.formBytes base sib 0 :=
  pushMemoryForm_eq out memory base sib 0

theorem pushMemoryForm_six (out : List u8) (memory : Memory) (base : Register) (sib : Option Fields) :
    pushMemoryForm out (memory.result base sib) 6 memory.disp = out ++ memory.formBytes base sib 6 :=
  pushMemoryForm_eq out memory base sib 6

end Cplastane.Assembly
