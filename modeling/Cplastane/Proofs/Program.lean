import Cplastane.Proofs.EncoderTable
import Mathlib.Tactic.MkIffOfInductiveProp

/-! Whole mnemos and programs. An encoder only appends, so a program's bytes are
those of its mnemos one after another, whatever was emitted before them. -/

namespace Cplastane.Assembly
open X86 Exceptions

def Arg.HasWidth : Arg → Width → Prop
  | .register reg, width => registerWidth reg = .ok width
  | _, _ => True

theorem Arg.hasWidth_register {reg : Reg} {width : Width} :
    (Arg.register reg).HasWidth width ↔ ∃ register, reg.register = some register ∧ width = .ofSize register.size := by
  simp only [Arg.HasWidth, registerWidth_eq]
  cases reg.register <;> simp [eq_comm]

theorem registerWidth_ok {reg : Reg} {width : Width} (read : registerWidth reg = .ok width) :
    ∃ register, reg.register = some register ∧ width = .ofSize register.size :=
  Arg.hasWidth_register.mp read

theorem size_of_registerWidth {reg : Reg} {width : Width} (read : registerWidth reg = .ok width) :
    ∃ register, reg.register = some register ∧ width.size = some register.size ∧ width ≠ .undef := by
  obtain ⟨register, named, rfl⟩ := registerWidth_ok read
  exact ⟨register, named, Width.size_ofSize _, by cases register.size <;> simp [Width.ofSize]⟩

@[mk_iff]
structure Mnemo.Valid (mnemo : Mnemo) : Prop where
  tagged : mnemo.tag ≠ .undef
  sized : mnemo.width ≠ .undef
  first : mnemo.a1.HasWidth mnemo.width
  second : mnemo.a2.HasWidth mnemo.width

theorem checkValidity_ok_iff (mnemo : Mnemo) : mnemo.checkValidity = .ok () ↔ mnemo.Valid := by
  obtain ⟨tag, width, a1, a2⟩ := mnemo
  rw [Mnemo.valid_iff]
  unfold Mnemo.checkValidity
  simp only [guard_ok]
  cases a1 <;> cases a2 <;>
    simp only [bind_ok, guard_ok, last_guard_ok, pure_ok, not_not, Arg.HasWidth, ne_eq, and_true, true_and] <;> simp

/-- An accepted mnemo is valid and has an entry in the table. -/
theorem assembleMnemo_ok_iff (out bytes : List u8) (mnemo : Mnemo) :
    assembleMnemo out mnemo = .ok bytes ↔ mnemo.Valid ∧ Entry out mnemo bytes := by
  obtain ⟨tag, width, a1, a2⟩ := mnemo
  unfold assembleMnemo
  rw [check_ok, checkValidity_ok_iff, and_congr_right_iff]
  intro valid
  cases tag with
  | mov => exact assembleMnemoMov_ok_iff out bytes width a1 a2
  | add => exact assembleMnemoAdd_ok_iff out bytes width a1 a2
  | push => exact assembleMnemoPushPopTemplate_ok_iff true out bytes width a1 a2
  | pop => exact assembleMnemoPushPopTemplate_ok_iff false out bytes width a1 a2
  | ret =>
    rw [pure_ok]
    constructor
    · rintro rfl
      exact ⟨_, _, _, .ret, by simp [encodingBytes, Prefixes.bytes]⟩
    · intro entry
      obtain ⟨found, opcode, body, encodes, rfl⟩ := entry
      cases encodes with
      | regReg operation tagged | memReg operation tagged | regMem operation tagged => cases operation <;> cases tagged
      | stackReg isPush tagged | stackMem isPush tagged => cases isPush <;> cases tagged
      | ret => simp [encodingBytes, Prefixes.bytes]
  | undef => exact absurd rfl valid.tagged

/-- The table entry of an accepted mnemo does not depend on what was emitted before it, which is why
programs can be taken apart. -/
theorem assembleMnemo_append (out bytes : List u8) (mnemo : Mnemo) :
    assembleMnemo out mnemo = .ok bytes ↔ ∃ code, assembleMnemo [] mnemo = .ok code ∧ out ++ code = bytes := by
  simp only [assembleMnemo_ok_iff, Entry, List.nil_append]
  constructor
  · intro entry
    obtain ⟨valid, found, opcode, body, encodes, rfl⟩ := entry
    exact ⟨_, ⟨valid, found, opcode, body, encodes, rfl⟩, rfl⟩
  · intro entry
    obtain ⟨_, ⟨valid, found, opcode, body, encodes, rfl⟩, rfl⟩ := entry
    exact ⟨valid, found, opcode, body, encodes, rfl⟩

theorem assembleFrom_ok_iff (out bytes : List u8) (mnemos : List Mnemo) :
    mnemos.foldlM assembleMnemo out = .ok bytes ↔ ∃ code, assemble mnemos = .ok code ∧ out ++ code = bytes := by
  unfold assemble
  induction mnemos generalizing out bytes with
  | nil => simp [pure, Except.pure]
  | cons mnemo mnemos ih =>
    simp only [List.foldlM_cons, bind_ok]
    constructor
    · intro accepted
      obtain ⟨middle, first, rest⟩ := accepted
      obtain ⟨code, start, rfl⟩ := (assembleMnemo_append _ _ _).mp first
      obtain ⟨tail, remaining, rfl⟩ := (ih _ _).mp rest
      exact ⟨code ++ tail, ⟨code, start, (ih _ _).mpr ⟨tail, remaining, rfl⟩⟩, (List.append_assoc _ _ _).symm⟩
    · intro accepted
      obtain ⟨_, ⟨code, start, rest⟩, rfl⟩ := accepted
      obtain ⟨tail, remaining, rfl⟩ := (ih _ _).mp rest
      refine ⟨out ++ code, (assembleMnemo_append _ _ _).mpr ⟨code, start, rfl⟩, (ih _ _).mpr ⟨tail, remaining, ?_⟩⟩
      exact List.append_assoc _ _ _

/-- Programs assemble piece by piece. -/
theorem assemble_append_ok_iff (first second : List Mnemo) (bytes : List u8) :
    assemble (first ++ second) = .ok bytes ↔
      ∃ left right, assemble first = .ok left ∧ assemble second = .ok right ∧ left ++ right = bytes := by
  have split : assemble (first ++ second) = assemble first >>= fun left => second.foldlM assembleMnemo left :=
    List.foldlM_append
  rw [split, bind_ok]
  simp only [assembleFrom_ok_iff]
  constructor
  · intro accepted
    obtain ⟨left, start, right, rest, rfl⟩ := accepted
    exact ⟨left, right, start, rest, rfl⟩
  · intro accepted
    obtain ⟨left, right, start, rest, rfl⟩ := accepted
    exact ⟨left, start, right, rest, rfl⟩

example : assemble [⟨.push, .word, .immediate 258, .undef⟩, ⟨.ret, .notSet, .undef, .undef⟩] =
    .ok ([0x66, 0x68, 2, 1] ++ [0xc3]) := rfl

theorem assemble_singleton (mnemo : Mnemo) : assemble [mnemo] = assembleMnemo [] mnemo := by
  simp [assemble]

theorem assemble_cons_ok_iff (mnemo : Mnemo) (mnemos : List Mnemo) (bytes : List u8) :
    assemble (mnemo :: mnemos) = .ok bytes ↔
      ∃ code rest, assembleMnemo [] mnemo = .ok code ∧ assemble mnemos = .ok rest ∧ code ++ rest = bytes := by
  rw [← assemble_singleton]
  exact assemble_append_ok_iff [mnemo] mnemos bytes

theorem assemble_singleton_ok_iff (mnemo : Mnemo) (bytes : List u8) :
    assemble [mnemo] = .ok bytes ↔
      mnemo.Valid ∧ ∃ found opcode body, Encodes mnemo found opcode body ∧ encodingBytes found opcode body = bytes := by
  rw [assemble_singleton, assembleMnemo_ok_iff]
  rfl

/-- The first operands that `push` and `pop` accept at a width. The second one is not
looked at, but for the width of a register. -/
inductive Arg.Stackable (isPush : Bool) : Arg → Width → Prop where
  | register {reg width} (wide : ¬(width = .byte ∨ width = .dword)) (same : registerWidth reg = .ok width) :
      Stackable isPush (.register reg) width
  | memory {memory : Memory} {width base sib} (known : width ≠ .undef) (wide : ¬(width = .byte ∨ width = .dword))
      (place : memory.Encodable base sib) : Stackable isPush (.memory memory) width
  | immediate {imm width size} (isPushed : isPush = true) (sized : width.size = some size) (narrow : size ≠ .qword) :
      Stackable isPush (.immediate imm) width

theorem stackTag_ne_undef (isPush : Bool) : stackTag isPush ≠ .undef := by
  cases isPush <;> simp [stackTag]

theorem stack_accepted_iff (isPush : Bool) (width : Width) (first second : Arg) :
    (∃ code, assemble [⟨stackTag isPush, width, first, second⟩] = .ok code) ↔
      first.Stackable isPush width ∧ second.HasWidth width := by
  have known := stackTag_ne_undef isPush
  simp only [assemble_singleton_ok_iff]
  constructor
  · intro accepted
    obtain ⟨_, valid, found, opcode, body, encodes, -⟩ := accepted
    have defined := valid.sized
    have same := valid.first
    refine ⟨?_, valid.second⟩
    generalize kind : stackTag isPush = tag at encodes
    cases encodes with
    | regReg other tagged | memReg other tagged | regMem other tagged =>
      exact absurd (kind.trans tagged).symm (tagOf_ne_stack other isPush)
    | movRegImm | movMemImm | addRegShort | addAccumulator | addRegImm | addMemImm | ret => cases isPush <;> cases kind
    | stackReg other tagged wide => exact .register wide same
    | stackMem other tagged wide place => exact .memory defined wide place
    | pushImm sized narrow => cases isPush with
      | true => exact .immediate rfl sized narrow
      | false => cases kind
  · intro accepted
    obtain ⟨stackable, other⟩ := accepted
    cases stackable with
    | register wide same =>
      obtain ⟨register, named, -, sized⟩ := size_of_registerWidth same
      exact ⟨_, ⟨known, sized, same, other⟩, _, _, _, .stackReg isPush rfl wide named, rfl⟩
    | memory sized wide place => exact ⟨_, ⟨known, sized, trivial, other⟩, _, _, _, .stackMem isPush rfl wide place, rfl⟩
    | immediate isPushed sized narrow =>
      subst isPushed
      exact ⟨_, ⟨known, Width.ne_undef sized, trivial, other⟩, _, _, _, .pushImm sized narrow, rfl⟩

end Cplastane.Assembly
