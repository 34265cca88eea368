import Cplastane.Proofs.Program

/-! The processor's reading of an emitted memory operand: which form it selects,
when that form has the operand's base, and what it makes of the index. -/

namespace Cplastane.Assembly
open X86

/-- A register the processor can address through in 64-bit mode. -/
def Wide (register : Register) : Prop := register.size = .dword ∨ register.size = .qword

theorem wide_iff (register : Register) :
    Wide register ↔ (if register.size == .dword then Size.dword else .qword) = register.size := by
  unfold Wide
  cases register.size <;> simp

theorem Wide.gp {register : Register} (wide : Wide register) : .gp register.size register.number = register := by
  cases register with
  | gp size number => rfl
  | high number => rcases wide with size | size <;> cases size

theorem Reg.wide_four {reg : Reg} {register : Register} (named : reg.register = some register)
    (wide : Wide register) : register.number = 4 ↔ reg = .esp ∨ reg = .rsp := by
  cases reg <;> cases named <;> simp [Wide, Register.size, Register.number] at wide ⊢

theorem Reg.wide_five {reg : Reg} {register : Register} (named : reg.register = some register)
    (wide : Wide register) : register.number = 5 ↔ reg = .ebp ∨ reg = .rbp := by
  cases reg <;> cases named <;> simp [Wide, Register.size, Register.number] at wide ⊢

namespace Memory

theorem SameWidth.size {memory : Memory} {base index : Register} (same : memory.SameWidth base)
    (indexed : memory.index.register = some index) : index.size = base.size := by
  rcases same with unindexed | ⟨other, named, sized⟩
  · rw [unindexed] at indexed
    cases indexed
  · rw [indexed] at named
    cases named
    exact sized

def selected (memory : Memory) (address : Size) (base : Register) (sib : Option Fields) (reg : Fin 8) : Form :=
  match sib with
  | none => shortForm address (memory.modrm base none reg)
  | some sib => longForm address (memory.modrm base (some sib) reg) sib

theorem form_formBytes (memory : Memory) (address : Size) {base : Register} {sib : Option Fields} (reg : Fin 8)
    (rest : List UInt8) (announced : sib = none → base.number ≠ 4) :
    form address (memory.formBytes base sib reg ++ rest) =
      some (memory.selected address base sib reg,
        littleEndian (dispLength memory.disp) memory.disp.toInt ++ rest) := by
  have notRegister : (memory.modrm base sib reg).top ≠ 3 := mode_ne_three memory.disp
  cases sib with
  | none => exact form_short address _ _ notRegister (announced rfl)
  | some sib => exact form_long address _ sib _ notRegister rfl

private theorem sib_low {memory : Memory} {base : Register} {sib : Fields} (chosen : memory.sib base = some sib) :
    sib.low = base.number := by
  unfold Memory.sib at chosen
  split at chosen
  · cases chosen
    rfl
  · simp only [Option.bind_eq_bind, Option.bind_eq_some_iff] at chosen
    obtain ⟨_, _, _, _, same⟩ := chosen
    cases same
    rfl

theorem Chosen.scaledIndex {memory : Memory} {base : Register} {sib : Option Fields}
    (chosen : memory.Chosen base sib) :
    (memory.index = .undef ∧ memory.scaledIndex = some none) ∨
      ∃ index factor, memory.index.register = some index ∧ memory.scaledIndex = some (some (index, factor)) := by
  by_cases unscaled : memory.scale = .s0
  · exact .inl ⟨memory.unscaled unscaled, if_pos unscaled⟩
  cases chosen with
  | short isShort => exact absurd isShort.1 unscaled
  | long _ _ _ chosen =>
    simp only [Memory.sib, unscaled, if_false, Option.bind_eq_bind, Option.bind_eq_some_iff] at chosen
    obtain ⟨bits, scaled, index, indexed, -⟩ := chosen
    exact .inr ⟨index, 2 ^ bits.val, indexed, by simp [Memory.scaledIndex, unscaled, indexed, Scale.factor_eq, scaled]⟩

/-- Number 5 under mod 00 is the only base that a selected form loses. It is any register of that
number, and the encoder's test is for one of them. -/
def Escapes (memory : Memory) (base : Register) : Prop := memory.disp = 0 ∧ base.number = 5

section Selected

variable {memory : Memory} {base : Register} {sib : Option Fields}

theorem selected_dispSize (chosen : memory.Chosen base sib) (address : Size) (reg : Fin 8) :
    (memory.selected address base sib reg).dispSize = X86.dispSize (mode memory.disp) base.number := by
  cases chosen with
  | short _ => rfl
  | long _ _ _ chosen => simp [selected, longForm, modrm, sib_low chosen]

theorem selected_base (chosen : memory.Chosen base sib) (address : Size) (reg : Fin 8) (kept : ¬memory.Escapes base) :
    (memory.selected address base sib reg).base = .reg (.gp address base.number) := by
  have other : ¬(mode memory.disp = 0 ∧ base.number = 5) := by
    rw [mode_eq_zero]
    exact kept
  cases chosen with
  | short _ => simp [selected, shortForm, modrm, other]
  | long _ _ _ chosen => simp [selected, longForm, modrm, sib_low chosen, other]

theorem selected_base_escapes (chosen : memory.Chosen base sib) (address : Size) (reg : Fin 8)
    (escapes : memory.Escapes base) (register : Register) :
    (memory.selected address base sib reg).base ≠ .reg register := by
  have both : mode memory.disp = 0 ∧ base.number = 5 := ⟨(mode_eq_zero _).mpr escapes.1, escapes.2⟩
  cases chosen with
  | short _ => simp [selected, shortForm, modrm, both]
  | long _ _ _ chosen => simp [selected, longForm, modrm, sib_low chosen, both]

@[simp] theorem selected_addressSize (memory : Memory) (address : Size) (base : Register) (sib : Option Fields)
    (reg : Fin 8) : (memory.selected address base sib reg).addressSize = address := by
  cases sib <;> rfl

theorem selected_index (place : memory.Encodable base sib) (wide : Wide base) (reg : Fin 8) :
    (memory.selected base.size base sib reg).index = if memory.index = .rsp then none else memory.scaledIndex.join := by
  obtain ⟨based, same, chosen⟩ := place
  cases chosen with
  | short isShort =>
    have unscaled := isShort.1
    have unindexed := memory.unscaled unscaled
    simp [selected, shortForm, scaledIndex, unscaled, unindexed]
  | long _ _ notEsp chosen =>
    by_cases unscaled : memory.scale = .s0
    · have unindexed := memory.unscaled unscaled
      simp only [Memory.sib, unscaled, if_true, Option.some.injEq] at chosen
      simp [selected, longForm, scaledIndex, unscaled, unindexed, ← chosen]
    · simp only [Memory.sib, unscaled, if_false, Option.bind_eq_bind, Option.bind_eq_some_iff] at chosen
      obtain ⟨bits, scaled, index, indexed, rebuilt⟩ := chosen
      cases rebuilt
      have sized : index.size = base.size := same.size indexed
      have wideIndex : Wide index := by rwa [Wide, sized]
      have four := Reg.wide_four indexed wideIndex
      have named : Register.gp base.size index.number = index := by rw [← sized, wideIndex.gp]
      simp only [notEsp, false_or] at four
      simp [selected, longForm, scaledIndex, unscaled, indexed, Scale.factor_eq, scaled, four, named]

end Selected

end Memory

/-- The mnemos whose encoding addresses a memory operand, and that operand. The second operand of
`push` and `pop` is not among them, since it is not encoded. -/
inductive Carries (memory : Memory) : Mnemo → Prop where
  | first {tag width a2} (addressed : tag ≠ .ret) : Carries memory ⟨tag, width, .memory memory, a2⟩
  | second {tag width a1} (addressed : tag = .mov ∨ tag = .add) : Carries memory ⟨tag, width, a1, .memory memory⟩

def Addressing (opcode : u8) : Prop := Plain opcode ∧ (layout opcode).any Layout.hasModrm = true

instance (opcode : u8) : Decidable (Addressing opcode) := inferInstanceAs (Decidable (_ ∧ _))

theorem addressing_rmReg (operation : Operation) (size : Size) : Addressing ((rmRegOpcodes operation).select size) := by
  cases operation <;> cases size <;> decide

theorem addressing_regRm (operation : Operation) (size : Size) : Addressing ((regRmOpcodes operation).select size) := by
  cases operation <;> cases size <;> decide

private theorem stackTag_second (isPush : Bool) : ¬(stackTag isPush = .mov ∨ stackTag isPush = .add) := by
  cases isPush <;> simp [stackTag]

theorem Encodes.operand {mnemo : Mnemo} {memory : Memory} {found : Prefixes} {opcode : u8} {body : List u8}
    (encodes : Encodes mnemo found opcode body) (carries : Carries memory mnemo) :
    ∃ base sib reg tail, memory.Encodable base sib ∧ body = memory.formBytes base sib reg ++ tail ∧
      found.address = (base.size == .dword) ∧ Addressing opcode := by
  cases encodes with
  | regReg | movRegImm | addRegShort | addAccumulator | addRegImm => cases carries
  | @memReg operation _ _ size _ base sib _ source tagged sized place second =>
    cases carries
    exact ⟨base, sib, source.number, [], place, (List.append_nil _).symm, rfl, addressing_rmReg operation size⟩
  | @regMem operation _ _ size _ target _ base sib tagged sized first place =>
    cases carries
    exact ⟨base, sib, target.number, [], place, (List.append_nil _).symm, rfl, addressing_regRm operation size⟩
  | @movMemImm _ size _ base sib imm sized place fits =>
    cases carries
    exact ⟨base, sib, 0, _, place, rfl, rfl, by cases size <;> decide⟩
  | @addMemImm _ size _ base sib imm sized place fits =>
    cases carries
    refine ⟨base, sib, 0, _, place, rfl, rfl, ?_⟩
    split
    · decide
    · cases size <;> decide
  | stackReg isPush tagged =>
    cases carries with
    | second addressed => exact absurd (tagged ▸ addressed) (stackTag_second isPush)
  | @stackMem isPush _ _ _ base sib _ tagged wide place =>
    cases carries with
    | first => exact ⟨base, sib, _, [], place, (List.append_nil _).symm, rfl, by cases isPush <;> decide⟩
    | second addressed => exact absurd (tagged ▸ addressed) (stackTag_second isPush)
  | pushImm sized narrow =>
    cases carries with
    | second addressed => exact absurd addressed (stackTag_second true)
  | ret =>
    cases carries with
    | first addressed => exact absurd rfl addressed
    | second addressed => simp at addressed

def addressSize (base : Register) : Size := if base.size == .dword then .dword else .qword

theorem Wide.addressSize {base : Register} (wide : Wide base) : addressSize base = base.size :=
  (wide_iff base).mp wide

/-- Where the processor finds the addressed operand of an accepted mnemo. -/
theorem addressForm_code {mnemo : Mnemo} {memory : Memory} {code : List u8} (accepted : assemble [mnemo] = .ok code)
    (carries : Carries memory mnemo) :
    ∃ base sib reg tail, memory.Encodable base sib ∧ ∀ rest, addressForm (code ++ rest) =
      form (addressSize base) (memory.formBytes base sib reg ++ (tail ++ rest)) := by
  rw [assemble_singleton_ok_iff] at accepted
  obtain ⟨-, found, opcode, body, encodes, rfl⟩ := accepted
  obtain ⟨base, sib, reg, tail, place, rfl, address, plain, modrm⟩ := encodes.operand carries
  refine ⟨base, sib, reg, tail, place, fun rest => ?_⟩
  have headed : head (encodingBytes found opcode (memory.formBytes base sib reg ++ tail) ++ rest) =
      some (found, opcode, memory.formBytes base sib reg ++ (tail ++ rest)) := by
    simp only [encodingBytes, List.append_assoc, List.cons_append]
    exact head_bytes found plain _
  rw [addressForm_head headed modrm, addressSize, ← address]
  rfl

theorem Memory.Encodable.announced {memory : Memory} {base : Register} {sib : Option Fields}
    (place : memory.Encodable base sib) (wide : Wide base) (absent : sib = none) : base.number ≠ 4 := by
  subst absent
  intro four
  obtain ⟨isShort⟩ := place.chosen
  rcases (Reg.wide_four place.based wide).mp four with esp | rsp
  · exact isShort.2.1 esp
  · exact isShort.2.2.1 rsp

/-- A base of 32 or 64 bits leaves the processor no choice of form. -/
theorem addressForm_wide {mnemo : Mnemo} {memory : Memory} {code : List u8} {base : Register}
    (accepted : assemble [mnemo] = .ok code) (carries : Carries memory mnemo) (based : memory.base.register = some base)
    (wide : Wide base) :
    ∃ sib reg tail, memory.Encodable base sib ∧ ∀ rest, addressForm (code ++ rest) =
      some (memory.selected base.size base sib reg,
        littleEndian (dispLength memory.disp) memory.disp.toInt ++ (tail ++ rest)) := by
  obtain ⟨other, sib, reg, tail, place, read⟩ := addressForm_code accepted carries
  cases based.symm.trans place.based
  refine ⟨sib, reg, tail, place, fun rest => ?_⟩
  rw [read, wide.addressSize, memory.form_formBytes _ _ _ (place.announced wide)]

end Cplastane.Assembly
