import Cplastane.Proofs.Bytes

/-! What the operand helpers of the encoder accept and emit, in the processor's
terms. Every rejection of a memory operand is one of the conditions below. -/

namespace Cplastane.Assembly
open X86

def Width.ofSize : Size → Width
  | .byte => .byte
  | .word => .word
  | .dword => .dword
  | .qword => .qword

@[simp] theorem Width.size_ofSize (size : Size) : (Width.ofSize size).size = some size := by
  cases size <;> rfl

theorem Width.ofSize_eq {width : Width} {size : Size} (sized : width.size = some size) :
    width = .ofSize size := by
  cases width <;> cases sized <;> rfl

theorem Width.ne_undef {width : Width} {size : Size} (sized : width.size = some size) : width ≠ .undef := by
  rintro rfl
  cases sized

@[simp] theorem Width.ofSize_inj (first second : Size) : Width.ofSize first = .ofSize second ↔ first = second := by
  cases first <;> cases second <;> simp [Width.ofSize]

@[simp] theorem Width.ofSize_eq_dword (size : Size) : Width.ofSize size = .dword ↔ size = .dword :=
  Width.ofSize_inj size .dword

theorem registerWidth_eq (reg : Reg) : registerWidth reg = match reg.register with
    | some register => .ok (.ofSize register.size)
    | none => .error .registerWidth := by
  cases reg <;> rfl

theorem regToNumber_eq (reg : Reg) : regToNumber reg = match reg.register with
    | some register => .ok (UInt8.ofNat register.number.val)
    | none => .error .regToNumber := by
  cases reg <;> rfl

theorem Reg.register_legacy {reg : Reg} {register : Register} (named : reg.register = some register) :
    register.Legacy := by
  cases reg <;> cases named <;> unfold Register.Legacy <;> decide

theorem Reg.register_wide {reg : Reg} {register : Register} (named : reg.register = some register)
    (wide : register.size ≠ .byte) : register = .gp register.size register.number := by
  cases register with
  | gp size number => rfl
  | high number => exact absurd rfl wide

def Scale.bits : Scale → Option (Fin 4)
  | .s1 => some 0
  | .s2 => some 1
  | .s4 => some 2
  | .s8 => some 3
  | .undef | .s0 => none

theorem scaleToNum_eq (scale : Scale) : scaleToNum scale = match scale.bits with
    | some bits => .ok (UInt8.ofNat bits.val)
    | none => .error (if scale = .s0 then .scaleIsS0 else .scaleIsUndef) := by
  cases scale <;> rfl

theorem Scale.factor_eq (scale : Scale) : scale.factor = scale.bits.map (fun bits => 2 ^ bits.val) := by
  cases scale <;> rfl

theorem modrm_byte (mod : Fin 4) (reg rm : Fin 8) :
    modAndRegAndRmToModrm (UInt8.ofNat mod.val) (UInt8.ofNat reg.val) (UInt8.ofNat rm.val) =
      (Fields.mk mod reg rm).byte := by
  revert mod reg rm
  decide

theorem sib_byte (scale : Fin 4) (index base : Fin 8) :
    scaleAndIndexAndBaseToSib (UInt8.ofNat scale.val) (UInt8.ofNat index.val) (UInt8.ofNat base.val) =
      (Fields.mk scale index base).byte :=
  modrm_byte scale index base

theorem canBeEncodedIn32Bits_iff (imm : Imm) :
    canBeEncodedIn32Bits imm = true ↔ -2 ^ 31 ≤ imm.toInt ∧ imm.toInt ≤ 2 ^ 32 - 1 := by
  simp [canBeEncodedIn32Bits, Int64.le_iff_toInt_le]

theorem canBeEncodedIn8Bits_iff (imm : Imm) :
    canBeEncodedIn8Bits imm = true ↔ -2 ^ 7 ≤ imm.toInt ∧ imm.toInt ≤ 2 ^ 8 - 1 := by
  simp [canBeEncodedIn8Bits, Int64.le_iff_toInt_le]

def sizePrefixes (size : Size) : Prefixes := { operand := size == .word, rexW := size == .qword }

theorem pushOperandWidthPrefixesAndOpcode_eq (out : List u8) (width : Width) (opcode1 opcode2 : u8) :
    pushOperandWidthPrefixesAndOpcode out width opcode1 opcode2 = match width.size with
      | some size => .ok (out ++ (sizePrefixes size).bytes ++ [if size = .byte then opcode1 else opcode2])
      | none => .error .operandWidth := by
  cases width <;> simp [pushOperandWidthPrefixesAndOpcode, pushOSORIfWord, pushRexIfQword, Width.size,
    sizePrefixes, Prefixes.bytes]

theorem pushOSORIfWord_eq (out : List u8) (width : Width) :
    pushOSORIfWord out width = out ++ Prefixes.bytes { operand := width == .word } := by
  unfold pushOSORIfWord
  split
  next word => simp [word, Prefixes.bytes]
  next other => simp [other, Prefixes.bytes]

def Memory.SameWidth (memory : Memory) (base : Register) : Prop :=
  memory.index = .undef ∨ ∃ index, memory.index.register = some index ∧ index.size = base.size

theorem pushASORIfDword_ok_iff (out result : List u8) (memory : Memory) :
    pushASORIfDword out memory = .ok result ↔
      ∃ base, memory.base.register = some base ∧ memory.SameWidth base ∧
        out ++ Prefixes.bytes { address := base.size == .dword } = result := by
  unfold pushASORIfDword Memory.SameWidth
  rw [registerWidth_eq, registerWidth_eq]
  cases memory.base.register with
  | none =>
    by_cases unindexed : memory.index = .undef
    · simp [unindexed, bind, Except.bind]
    · cases memory.index.register <;> simp [unindexed, bind, Except.bind]
  | some base =>
    have pushed (out : List u8) :
        (if base.size = .dword then Except.ok (out ++ [0x67]) else .ok out : Except Throw (List u8)) =
          .ok (out ++ Prefixes.bytes { address := base.size == .dword }) := by
      by_cases dword : base.size = .dword <;> simp [dword, Prefixes.bytes]
    by_cases unindexed : memory.index = .undef
    · simp [unindexed, bind, Except.bind, pure, Except.pure, pushed]
    · cases memory.index.register with
      | none => simp [unindexed, bind, Except.bind]
      | some index =>
        by_cases same : index.size = base.size
        · simp [unindexed, same, bind, Except.bind, pure, Except.pure, pushed]
        · simp [unindexed, same, bind, Except.bind, throw, throwThe, MonadExceptOf.throw]

end Cplastane.Assembly
