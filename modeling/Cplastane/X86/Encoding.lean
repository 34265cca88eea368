import Cplastane.X86.Decode

/-! Bytes that decode to given prefixes, opcode and addressing form, and how many
bytes each part of an instruction takes. -/

namespace X86

def Fields.byte (fields : Fields) : UInt8 :=
  UInt8.ofNat (fields.top.val * 64 + fields.middle.val * 8 + fields.low.val)

@[simp] theorem fields_byte (value : Fields) : fields value.byte = value := by
  obtain ⟨top, middle, low⟩ := value
  have bound : (top.val * 64 + middle.val * 8 + low.val) % 256 = top.val * 64 + middle.val * 8 + low.val := by omega
  simp only [fields, Fields.byte, UInt8.toNat_ofNat', Nat.reducePow, bound, Fields.mk.injEq, Fin.ext_iff]
  omega

namespace Register

def size : Register → Size
  | gp size _ => size
  | high _ => .byte

def number : Register → Fin 8
  | gp _ number => number
  | high number => ⟨number.val + 4, by omega⟩

/-- Reachable without any REX prefix. -/
def Legacy : Register → Prop
  | gp size number => size = .byte → number.val < 4
  | high _ => True

theorem decode_wide (rex : Bool) (size : Size) (number : Fin 8) (wide : size ≠ .byte) :
    decode rex size number = .gp size number := by simp [decode, wide]

theorem decode_legacy (register : Register) (legacy : register.Legacy) :
    decode false register.size register.number = register := by
  cases register with
  | gp size number =>
    by_cases byte : size = .byte
    · have low := legacy byte
      simp [decode, Register.size, Register.number, byte]
      omega
    · exact decode_wide false size number byte
  | high number =>
    clear legacy
    revert number
    decide

end Register

def Prefixes.bytes (found : Prefixes) : List UInt8 :=
  (if found.address then [0x67] else []) ++ (if found.operand then [0x66] else []) ++
    (if found.rexW then [0x48] else [])

/-- No legacy prefix and not the REX byte of the fragment. -/
def Plain (opcode : UInt8) : Prop := opcode ≠ 0x67 ∧ opcode ≠ 0x66 ∧ opcode ≠ 0x48

instance (opcode : UInt8) : Decidable (Plain opcode) := inferInstanceAs (Decidable (_ ∧ _))

theorem head_bytes (found : Prefixes) {opcode : UInt8} (plain : Plain opcode) (rest : List UInt8) :
    head (found.bytes ++ opcode :: rest) = some (found, opcode, rest) := by
  obtain ⟨address, operand, rexW⟩ := found
  obtain ⟨first, second, third⟩ := plain
  cases address <;> cases operand <;> cases rexW <;>
    simp [head, Prefixes.bytes, prefixes, first, second, third]

theorem decode_head {bytes rest : List UInt8} {found : Prefixes} {opcode : UInt8} {layout : Layout}
    (headed : head bytes = some (found, opcode, rest)) (known : X86.layout opcode = some layout) :
    decode bytes = operands found layout rest := by
  simp [decode, headed, known]

theorem form_short (address : Size) (modrm : Fields) (rest : List UInt8) (memory : modrm.top ≠ 3)
    (short : modrm.low ≠ 4) : form address (modrm.byte :: rest) = some (shortForm address modrm, rest) := by
  simp [form, memory, short]

theorem form_long (address : Size) (modrm sib : Fields) (rest : List UInt8) (memory : modrm.top ≠ 3)
    (long : modrm.low = 4) :
    form address (modrm.byte :: sib.byte :: rest) = some (longForm address modrm sib, rest) := by
  simp [form, memory, long]

theorem form_addressSize {address : Size} {bytes rest : List UInt8} {found : Form}
    (read : form address bytes = some (found, rest)) :
    found.addressSize = address ∧ ∀ register, found.base = .reg register → register.size = address := by
  have short (modrm : Fields) : (shortForm address modrm).addressSize = address ∧
      ∀ register, (shortForm address modrm).base = .reg register → register.size = address := by
    refine ⟨rfl, fun register same => ?_⟩
    simp only [shortForm] at same
    split at same <;> cases same
    rfl
  have long (modrm sib : Fields) : (longForm address modrm sib).addressSize = address ∧
      ∀ register, (longForm address modrm sib).base = .reg register → register.size = address := by
    refine ⟨rfl, fun register same => ?_⟩
    simp only [longForm] at same
    split at same <;> cases same
    rfl
  unfold form at read
  split at read
  · cases read
  split at read
  · cases read
  split at read
  · split at read <;> cases read
    exact long _ _
  · cases read
    exact short _

theorem form_dispSize {address : Size} {modrm : Fields} {bytes rest : List UInt8} {found : Form}
    (read : form address (modrm.byte :: bytes) = some (found, rest)) :
    ∃ number, found.dispSize = dispSize modrm.top number := by
  simp only [form, fields_byte] at read
  split at read
  · cases read
  split at read
  · split at read <;> cases read
    exact ⟨_, rfl⟩
  · cases read
    exact ⟨_, rfl⟩

theorem form_length {address : Size} {modrm : Fields} {bytes rest : List UInt8} {found : Form}
    (read : form address (modrm.byte :: bytes) = some (found, rest)) :
    bytes.length = (if modrm.low = 4 then 1 else 0) + rest.length := by
  simp only [form, fields_byte] at read
  split at read
  · cases read
  split at read
  next long =>
    split at read <;> cases read
    simp [long, Nat.add_comm]
  next short =>
    cases read
    simp [short]

theorem field_length {n : Nat} {bytes rest : List UInt8} {value : Int}
    (read : field n bytes = some (value, rest)) : bytes.length = n + rest.length := by
  unfold field at read
  split at read
  next enough =>
    cases read
    simp only [List.length_drop]
    omega
  · cases read

theorem decode_bytes (found : Prefixes) {opcode : UInt8} {layout : Layout} (plain : Plain opcode)
    (known : X86.layout opcode = some layout) (rest : List UInt8) :
    decode (found.bytes ++ opcode :: rest) = operands found layout rest :=
  decode_head (head_bytes found plain rest) known

theorem rm_register (found : Prefixes) (size : Size) (reg number : Fin 8) (rest : List UInt8) :
    rm found size ((Fields.mk 3 reg number).byte :: rest) =
      some (reg, .reg (.decode found.rexW size number), rest) := by
  simp [rm]

theorem rm_memory {found : Prefixes} {bytes rest : List UInt8} {reg : Fin 8} {address : Address} (size : Size)
    (read : memory found.addressSize bytes = some (reg, address, rest)) :
    rm found size bytes = some (reg, .mem address, rest) := by
  cases bytes with
  | nil => simp [memory, form] at read
  | cons modrm bytes =>
    have indirect : (fields modrm).top ≠ 3 := by
      intro direct
      simp [memory, form, direct] at read
    simp [rm, indirect, read]

theorem rm_indirect (found : Prefixes) (size : Size) {modrm : Fields} (bytes : List UInt8) (indirect : modrm.top ≠ 3) :
    rm found size (modrm.byte :: bytes) =
      (memory found.addressSize (modrm.byte :: bytes)).map fun (reg, address, rest) => (reg, .mem address, rest) := by
  simp [rm, indirect]

theorem memory_of_form {address : Size} {bytes rest : List UInt8} {found : Form} {n : Nat} {disp : Int}
    (selected : form address bytes = some (found, littleEndian n disp ++ rest)) (sized : found.dispSize = n)
    (exact : disp.bmod (256 ^ n) = disp) :
    memory address bytes = some (found.reg, found.address disp, rest) := by
  simp [memory, selected, sized, exact]

@[simp] theorem immediate_littleEndian (n : Nat) (value : Int) (rest : List UInt8) :
    immediate n (littleEndian n value ++ rest) = some (.imm n (value.bmod (256 ^ n)), rest) := by
  simp [immediate]

theorem immediate_length {n : Nat} {bytes rest : List UInt8} {operand : Operand}
    (read : immediate n bytes = some (operand, rest)) : bytes.length = n + rest.length := by
  simp only [immediate, Option.map_eq_some_iff, Prod.exists] at read
  obtain ⟨value, tail, taken, same⟩ := read
  cases same
  exact field_length taken

def Layout.hasModrm : Layout → Bool
  | rmReg _ _ | regRm _ _ | rmImm _ _ _ | pushRm | popRm => true
  | _ => false

/-- The addressing form of the first instruction of a stream. -/
def addressForm (bytes : List UInt8) : Option (Form × List UInt8) := do
  let (found, opcode, bytes) ← head bytes
  if (layout opcode).any Layout.hasModrm then form found.addressSize bytes else none

theorem addressForm_head {bytes rest : List UInt8} {found : Prefixes} {opcode : UInt8}
    (headed : head bytes = some (found, opcode, rest)) (modrm : (layout opcode).any Layout.hasModrm = true) :
    addressForm bytes = form found.addressSize rest := by
  simp [addressForm, headed, modrm]

/-- The stream determines the instructions it decodes to. -/
theorem Decodes.unique {bytes : List UInt8} {first second : List Instruction}
    (left : Decodes bytes first) (right : Decodes bytes second) : first = second := by
  induction left generalizing second with
  | done =>
    cases right with
    | done => rfl
    | step decoded _ => cases decoded
  | step decoded remaining ih =>
    cases right with
    | done => cases decoded
    | step other rest =>
      rw [decoded] at other
      cases other
      rw [ih rest]

end X86
