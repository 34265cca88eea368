import Cplastane.Assembly.Unparse
import Cplastane.Proofs.Acceptance
import Cplastane.Proofs.Arity
import Cplastane.Proofs.Decoding
import Cplastane.Proofs.Printing

/-! What can be written as text: every program that the parser returns at all, without
literals that wrap around, and every program that the assembler accepts with the operands
that its mnemos take. -/

namespace Cplastane.Assembly
open Parsec Text X86

section Names

variable {α : Type} [DecidableEq α] {table : List (String × α)} {value : α} {text : List Char}

private theorem nameIn_known (named : nameIn table value = some text) :
    ∃ name, (name, value) ∈ table ∧ name.toList = text := by
  obtain ⟨⟨name, other⟩, found, rfl⟩ := Option.map_eq_some_iff.mp named
  have same : other = value := by simpa using List.find?_some found
  subst same
  exact ⟨name, List.mem_of_find?_eq_some found, rfl⟩

private theorem nameIn_of_known {name : String} (known : (name, value) ∈ table) :
    ∃ text, nameIn table value = some text := by
  obtain ⟨entry, found⟩ : ∃ entry, table.find? (·.2 = value) = some entry := by
    apply Option.isSome_iff_exists.mp
    exact List.find?_isSome.mpr ⟨(name, value), known, by simp⟩
  exact ⟨entry.1.toList, by rw [nameIn, found]; rfl⟩

end Names

section Derivations

variable {text : List Char}

private theorem scaleValue_factor {scale : Scale} {factor : Nat} (scaled : scale.factor = some factor) :
    ScaleValue (factor : Int) scale := by
  cases scale <;> cases scaled <;> simp [ScaleValue]

private theorem unparseIndex_derives {place : Memory} (written : place.unparseIndex = some text) :
    IndexText exact text place.index place.scale := by
  unfold Memory.unparseIndex at written
  split at written
  next unscaled =>
    cases written
    rw [unscaled, place.unscaled unscaled]
    exact .absent
  next scaled =>
    simp only [Option.bind_eq_bind, Option.bind_eq_some_iff] at written
    obtain ⟨name, named, factor, scaled, same⟩ := written
    cases same
    obtain ⟨name, known, rfl⟩ := nameIn_known named
    exact .present known (intText_toString factor) (scaleValue_factor scaled)

private theorem unparseDisp_derives (disp : Disp) : DispText exact (unparseDisp disp) disp := by
  unfold unparseDisp
  split
  next zero =>
    subst zero
    exact .absent
  next => exact .present (intText_toString disp.toInt) rfl

private theorem Arg.unparse_derives {arg : Arg} (written : arg.unparse = some text) : ArgText exact text arg := by
  cases arg with
  | undef => cases written
  | immediate imm =>
    cases written
    exact .int (intText_toString imm.toInt) rfl
  | register reg =>
    obtain ⟨name, known, rfl⟩ := nameIn_known written
    exact .reg known
  | memory place =>
    simp only [Arg.unparse, Option.bind_eq_bind, Option.bind_eq_some_iff] at written
    obtain ⟨name, named, index, indexed, same⟩ := written
    cases same
    obtain ⟨name, known, rfl⟩ := nameIn_known named
    exact .mem known (unparseIndex_derives indexed) (unparseDisp_derives place.disp)

private theorem unparseOperands_derives {a1 a2 : Arg} (written : unparseOperands a1 a2 = some text) :
    OperandsText exact text (a1, a2) := by
  unfold unparseOperands at written
  split at written
  next single =>
    subst single
    split at written
    next empty =>
      cases written
      subst empty
      exact .none
    next => exact .one (Arg.unparse_derives written)
  next =>
    simp only [Option.bind_eq_bind, Option.bind_eq_some_iff] at written
    obtain ⟨first, read, second, also, same⟩ := written
    cases same
    exact .two (Arg.unparse_derives read) (Arg.unparse_derives also)

private theorem Width.unparse_derives {width : Width} (written : width.unparse = some text) : WidthText text width := by
  unfold Width.unparse at written
  split at written
  next absent =>
    cases written
    subst absent
    exact .absent 1
  next =>
    obtain ⟨name, named, rfl⟩ := Option.map_eq_some_iff.mp written
    obtain ⟨name, known, rfl⟩ := nameIn_known named
    exact .present 1 1 known

private theorem Mnemo.unparse_derives {mnemo : Mnemo} (written : mnemo.unparse = some text) :
    LineText exact text mnemo := by
  simp only [Mnemo.unparse, Option.bind_eq_bind, Option.bind_eq_some_iff] at written
  obtain ⟨name, named, width, sized, operands, read, same⟩ := written
  cases same
  obtain ⟨name, known, rfl⟩ := nameIn_known named
  exact .line known (Width.unparse_derives sized) (unparseOperands_derives read)

private theorem unparse_cons_iff {mnemo : Mnemo} {mnemos : List Mnemo} : unparse (mnemo :: mnemos) = some text ↔
    ∃ line rest, mnemo.unparse = some line ∧ unparse mnemos = some rest ∧ text = line ++ rest := by
  simp only [unparse, List.mapM_cons, Option.map_eq_some_iff, Option.bind_eq_bind, Option.bind_eq_some_iff, Option.pure_def,
    Option.some.injEq]
  constructor
  · rintro ⟨_, ⟨line, written, lines, others, rfl⟩, rfl⟩
    exact ⟨line, lines.flatten, written, ⟨lines, others, rfl⟩, rfl⟩
  · rintro ⟨line, _, written, ⟨lines, others, rfl⟩, rfl⟩
    exact ⟨line :: lines, ⟨line, written, lines, others, rfl⟩, rfl⟩

private theorem unparse_derives {mnemos : List Mnemo} (written : unparse mnemos = some text) :
    ProgramText exact text mnemos := by
  induction mnemos generalizing text with
  | nil =>
    cases written
    exact .done
  | cons mnemo mnemos ih =>
    obtain ⟨line, rest, first, others, rfl⟩ := unparse_cons_iff.mp written
    exact .line (Mnemo.unparse_derives first) (ih others)

private theorem unparse_parses {mnemos : List Mnemo} (written : unparse mnemos = some text) :
    parse (.ofText text) = .ok (.ok ⟨cursor text [], mnemos⟩) :=
  parse_ok_iff.mpr ⟨(unparse_derives written).transfer (exact_agree_wrapped text), rfl⟩

end Derivations

section Writings

variable {text : List Char}

theorem IndexText.unparse {place : Memory} (derived : IndexText wrapped text place.index place.scale) :
    ∃ again, place.unparseIndex = some again := by
  unfold Memory.unparseIndex
  generalize place.index = index at derived
  generalize place.scale = scale at derived
  cases derived with
  | absent => exact ⟨[], rfl⟩
  | present known number scaled =>
    obtain ⟨name, named⟩ := nameIn_of_known known
    rcases scaled with ⟨-, rfl⟩ | ⟨-, rfl⟩ | ⟨-, rfl⟩ | ⟨-, rfl⟩ <;> exact ⟨_, by rw [named]; rfl⟩

theorem ArgText.unparse {arg : Arg} (derived : ArgText wrapped text arg) : ∃ again, arg.unparse = some again := by
  cases derived with
  | int => exact ⟨_, rfl⟩
  | reg known => exact nameIn_of_known known
  | mem known indexed displaced =>
    obtain ⟨name, named⟩ := nameIn_of_known known
    obtain ⟨index, indexed⟩ := indexed.unparse
    exact ⟨_, by rw [Arg.unparse, named, indexed]; rfl⟩

theorem OperandsText.unparse {operands : Arg × Arg} (derived : OperandsText wrapped text operands) :
    ∃ again, unparseOperands operands.1 operands.2 = some again := by
  unfold unparseOperands
  cases derived with
  | none => exact ⟨[], rfl⟩
  | one read =>
    obtain ⟨first, written⟩ := read.unparse
    exact ⟨first, by rw [if_pos rfl, if_neg read.present, written]⟩
  | two read also =>
    obtain ⟨first, written⟩ := read.unparse
    obtain ⟨second, others⟩ := also.unparse
    exact ⟨_, by rw [if_neg also.present, written, others]; rfl⟩

theorem WidthText.unparse {width : Width} (derived : WidthText text width) : ∃ again, width.unparse = some again := by
  unfold Width.unparse
  cases derived with
  | absent => exact ⟨_, rfl⟩
  | present n k known =>
    obtain ⟨name, named⟩ := nameIn_of_known known
    split
    · exact ⟨_, rfl⟩
    · exact ⟨_, by rw [named]; rfl⟩

theorem LineText.unparse {mnemo : Mnemo} (derived : LineText wrapped text mnemo) :
    ∃ again, mnemo.unparse = some again := by
  cases derived with
  | line known sized read =>
    obtain ⟨name, named⟩ := nameIn_of_known known
    obtain ⟨width, sized⟩ := sized.unparse
    obtain ⟨operands, read⟩ := read.unparse
    exact ⟨_, by rw [Mnemo.unparse, named, sized, read]; rfl⟩

theorem ProgramText.unparse {mnemos : List Mnemo} (derived : ProgramText wrapped text mnemos) :
    ∃ again, unparse mnemos = some again := by
  induction derived with
  | done => exact ⟨[], rfl⟩
  | line read others ih =>
    obtain ⟨line, written⟩ := read.unparse
    obtain ⟨rest, also⟩ := ih
    exact ⟨line ++ rest, unparse_cons_iff.mpr ⟨line, rest, written, also, rfl⟩⟩

end Writings

section Accepted

variable {mnemo : Mnemo} {mnemos : List Mnemo} {bytes code : List u8}

private theorem register_written {reg : Reg} {register : Register} (known : reg.register = some register) :
    ∃ name, (Arg.register reg).unparse = some name := by
  cases reg with
  | undef => cases known
  | _ => exact ⟨_, rfl⟩

private theorem memory_written {place : Memory} {base : Register} {sib : Option Fields}
    (encodable : place.Encodable base sib) :
    ∃ text, (Arg.memory place).unparse = some text := by
  obtain ⟨name, based⟩ := register_written encodable.based
  have based : nameIn registerNames place.base = some name := based
  obtain ⟨index, indexed⟩ : ∃ index, place.unparseIndex = some index := by
    have addressed := encodable.address
    simp only [Memory.address, Option.bind_eq_bind, Option.bind_eq_some_iff] at addressed
    obtain ⟨-, -, scaledIndex, scaled, -⟩ := addressed
    unfold Memory.scaledIndex at scaled
    unfold Memory.unparseIndex
    split at scaled
    next unscaled => exact ⟨[], if_pos unscaled⟩
    next other =>
      simp only [Option.bind_eq_bind, Option.bind_eq_some_iff] at scaled
      obtain ⟨register, known, factor, factored, -⟩ := scaled
      obtain ⟨name, named⟩ := register_written known
      have named : nameIn registerNames place.index = some name := named
      exact ⟨_, by rw [if_neg other, named, factored]; rfl⟩
  exact ⟨_, by rw [Arg.unparse, based, indexed]; rfl⟩

private theorem operands_written {a1 a2 : Arg} (first : ∃ text, a1.unparse = some text)
    (second : a2 = .undef ∨ ∃ text, a2.unparse = some text) :
    ∃ text, unparseOperands a1 a2 = some text := by
  obtain ⟨text, written⟩ := first
  unfold unparseOperands
  by_cases single : a2 = .undef
  · rw [if_pos single]
    split
    · exact ⟨[], rfl⟩
    · exact ⟨text, written⟩
  · obtain ⟨other, also⟩ := second.resolve_left single
    exact ⟨_, by rw [if_neg single, written, also]; rfl⟩

theorem Encodes.written {found : Prefixes} {opcode : u8} {body : List u8} (encodes : Encodes mnemo found opcode body)
    (stack : mnemo.tag = .push ∨ mnemo.tag = .pop → mnemo.a2 = .undef)
    (ret : mnemo.tag = .ret → mnemo.a1 = .undef ∧ mnemo.a2 = .undef) :
    ∃ text, unparseOperands mnemo.a1 mnemo.a2 = some text := by
  cases encodes with
  | regReg operation tagged sized first second => exact operands_written (register_written first) (.inr (register_written second))
  | memReg operation tagged sized place second => exact operands_written (memory_written place) (.inr (register_written second))
  | regMem operation tagged sized first place => exact operands_written (register_written first) (.inr (memory_written place))
  | movRegImm sized first | addRegShort sized first | addRegImm sized first =>
    exact operands_written (register_written first) (.inr ⟨_, rfl⟩)
  | movMemImm sized place | addMemImm sized place => exact operands_written (memory_written place) (.inr ⟨_, rfl⟩)
  | addAccumulator sized first =>
    apply operands_written _ (.inr ⟨_, rfl⟩)
    rcases first with rfl | rfl | rfl | rfl <;> exact ⟨_, rfl⟩
  | stackReg isPush tagged wide first =>
    refine operands_written (register_written first) (.inl (stack ?_))
    cases isPush <;> simp [tagged, stackTag]
  | stackMem isPush tagged wide place =>
    refine operands_written (memory_written place) (.inl (stack ?_))
    cases isPush <;> simp [tagged, stackTag]
  | pushImm => exact operands_written ⟨_, rfl⟩ (.inl (stack (.inl rfl)))
  | ret =>
    obtain ⟨first, second⟩ := ret rfl
    dsimp only at first second
    subst first second
    exact ⟨[], rfl⟩

private theorem mnemo_written (accepted : assemble [mnemo] = .ok code) (whole : mnemo.HasArity) :
    ∃ line, mnemo.unparse = some line := by
  obtain ⟨valid, _, _, _, encodes, -⟩ := (assemble_singleton_ok_iff _ _).mp accepted
  obtain ⟨stack, ret⟩ := (hasArity_iff accepted).mp whole
  obtain ⟨operands, read⟩ := encodes.written stack ret
  obtain ⟨name, named⟩ : ∃ name, nameIn mnemoNames mnemo.tag = some name := by
    cases tag : mnemo.tag with
    | undef => exact absurd tag valid.tagged
    | _ => exact ⟨_, rfl⟩
  obtain ⟨width, sized⟩ : ∃ width, mnemo.width.unparse = some width := by
    cases width : mnemo.width with
    | undef => exact absurd width valid.sized
    | _ => exact ⟨_, rfl⟩
  exact ⟨_, by rw [Mnemo.unparse, named, sized, read]; rfl⟩

/-- Whatever the assembler accepts, with all its operands and no others, has a text with
exact literals for which the parser returns it. As above, an immediate of -2 ^ 63 comes back
only where signed overflow wraps around. -/
theorem accepted_written (accepted : assemble mnemos = .ok bytes) (whole : ∀ mnemo ∈ mnemos, mnemo.HasArity) :
    ∃ text, unparse mnemos = some text ∧ ProgramText exact text mnemos ∧
      parse (.ofText text) = .ok (.ok ⟨cursor text [], mnemos⟩) := by
  obtain ⟨text, written⟩ : ∃ text, unparse mnemos = some text := by
    have each (mnemo : Mnemo) (member : mnemo ∈ mnemos) : ∃ line, mnemo.unparse = some line := by
      obtain ⟨code, own⟩ := assemble_member accepted member
      exact mnemo_written own (whole mnemo member)
    clear accepted whole
    induction mnemos with
    | nil => exact ⟨[], rfl⟩
    | cons mnemo mnemos ih =>
      obtain ⟨line, first⟩ := each mnemo List.mem_cons_self
      obtain ⟨rest, others⟩ := ih fun other member => each other (List.mem_cons_of_mem mnemo member)
      exact ⟨line ++ rest, unparse_cons_iff.mpr ⟨line, rest, first, others, rfl⟩⟩
  exact ⟨text, written, unparse_derives written, unparse_parses written⟩

theorem accepted_written_add :
    ∃ text, unparse [⟨.add, .word, .memory ⟨.rbp, .rcx, .s4, -8, nofun⟩, .immediate (-1000)⟩, ⟨.ret, .notSet, .undef, .undef⟩] =
        some text ∧
      ProgramText exact text
        [⟨.add, .word, .memory ⟨.rbp, .rcx, .s4, -8, nofun⟩, .immediate (-1000)⟩, ⟨.ret, .notSet, .undef, .undef⟩] ∧
      parse (.ofText text) = .ok (.ok ⟨cursor text [],
        [⟨.add, .word, .memory ⟨.rbp, .rcx, .s4, -8, nofun⟩, .immediate (-1000)⟩, ⟨.ret, .notSet, .undef, .undef⟩]⟩) := by
  apply @accepted_written _ [0x66, 0x81, 0x44, 0x8d, 0xf8, 0x18, 0xfc, 0xc3]
  · decide
  · simp [Mnemo.HasArity, Mnemo.getArity]

end Accepted

end Cplastane.Assembly
