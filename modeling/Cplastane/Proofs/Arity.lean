import Cplastane.Assembly.Print
import Cplastane.Proofs.ParserRuns
import Cplastane.Proofs.Program

/-! Operands that are parsed and then dropped. The encoders look only at the operands
they use, so a surplus one of `push`, `pop` or `ret` goes unnoticed. -/

namespace Cplastane.Assembly
open Parsec Text Exceptions

/-- Exactly the operands that the mnemo takes are present. -/
def Mnemo.HasArity (mnemo : Mnemo) : Prop :=
  ∃ arity, mnemo.getArity = .ok arity ∧ (mnemo.a1 ≠ .undef ↔ 1 ≤ arity) ∧ (mnemo.a2 ≠ .undef ↔ arity = 2)

/-- A line with a second operand of `push` or `pop`, or any operand of `ret`. The parser reads it,
and the assembler does not look at it. -/
inductive SurplusLine : List Char → Prop where
  | stack {name tag widthText width first second a1 a2} (known : (name, tag) ∈ mnemoNames)
      (stack : tag = .push ∨ tag = .pop) (sized : WidthText widthText width) (read : ArgText wrapped first a1)
      (also : ArgText wrapped second a2) :
      SurplusLine (name.toList ++ (widthText ++ ((first ++ (", ".toList ++ second)) ++ ['\n'])))
  | ret {name widthText width operandsText operands} (known : (name, Tag.ret) ∈ mnemoNames)
      (sized : WidthText widthText width) (read : OperandsText wrapped operandsText operands) (some : operandsText ≠ []) :
      SurplusLine (name.toList ++ (widthText ++ (operandsText ++ ['\n'])))

inductive SurplusText : List Char → Prop where
  | behind {lines mnemos line} (after : List Char) (accepted : ProgramText wrapped lines mnemos)
      (surplus : SurplusLine line) : SurplusText (lines ++ (line ++ after))

theorem ArgText.present {text : List Char} {arg : Arg} (derived : ArgText wrapped text arg) : arg ≠ .undef := by
  cases derived <;> simp

theorem ArgText.nonempty {text : List Char} {arg : Arg} (derived : ArgText wrapped text arg) : text ≠ [] := by
  rintro rfl
  cases readArg_whole derived

theorem Encodes.operands {mnemo : Mnemo} {found : X86.Prefixes} {opcode : u8} {body : List u8}
    (encodes : Encodes mnemo found opcode body) :
    (mnemo.tag = .mov ∨ mnemo.tag = .add → mnemo.a1 ≠ .undef ∧ mnemo.a2 ≠ .undef) ∧
      (mnemo.tag = .push ∨ mnemo.tag = .pop → mnemo.a1 ≠ .undef) := by
  cases encodes with
  | stackReg isPush tagged | stackMem isPush tagged => cases isPush <;> cases tagged <;> simp [stackTag]
  | _ => simp

theorem hasArity_iff {mnemo : Mnemo} {code : List u8} (accepted : assemble [mnemo] = .ok code) :
    mnemo.HasArity ↔ (mnemo.tag = .push ∨ mnemo.tag = .pop → mnemo.a2 = .undef) ∧
      (mnemo.tag = .ret → mnemo.a1 = .undef ∧ mnemo.a2 = .undef) := by
  obtain ⟨valid, _, _, _, encodes, -⟩ := (assemble_singleton_ok_iff _ _).mp accepted
  obtain ⟨binary, stack⟩ := encodes.operands
  obtain ⟨tag, width, a1, a2⟩ := mnemo
  cases tag with
  | undef => exact absurd rfl valid.tagged
  | mov | add => simpa [Mnemo.HasArity, Mnemo.getArity] using binary
  | push | pop => simpa [Mnemo.HasArity, Mnemo.getArity] using fun _ => stack
  | ret => simp [Mnemo.HasArity, Mnemo.getArity]

theorem assemble_member {mnemos : List Mnemo} {bytes : List u8} (accepted : assemble mnemos = .ok bytes) {mnemo : Mnemo}
    (member : mnemo ∈ mnemos) : ∃ code, assemble [mnemo] = .ok code := by
  obtain ⟨before, after, rfl⟩ := List.append_of_mem member
  obtain ⟨_, _, -, rest, -⟩ := (assemble_append_ok_iff before _ _).mp accepted
  obtain ⟨code, _, first, -, -⟩ := (assemble_cons_ok_iff mnemo after _).mp rest
  exact ⟨code, (assemble_singleton mnemo).trans first⟩

theorem ProgramText.member {text : List Char} {mnemos : List Mnemo} (derived : ProgramText wrapped text mnemos)
    {mnemo : Mnemo} (member : mnemo ∈ mnemos) :
    ∃ lines earlier line after, text = lines ++ (line ++ after) ∧ ProgramText wrapped lines earlier ∧
      LineText wrapped line mnemo := by
  induction derived with
  | done => cases member
  | @line first _ rest _ read others ih =>
    rcases List.mem_cons.mp member with rfl | later
    · exact ⟨[], [], first, rest, rfl, .done, read⟩
    · obtain ⟨lines, earlier, line, after, rfl, accepted, derived⟩ := ih later
      exact ⟨first ++ lines, _, line, after, (List.append_assoc _ _ _).symm, .line read accepted, derived⟩

theorem Lines.passes {text middle tail : List Char} {mnemos earlier : List Mnemo} {mnemo : Mnemo}
    (lines : Lines text earlier middle) (all : Lines text mnemos []) (read : readLine middle = .ok (.ok (mnemo, tail))) :
    mnemo ∈ mnemos := by
  induction lines generalizing mnemos with
  | here middle =>
    cases all with
    | here => cases read
    | next other others =>
      cases other.symm.trans read
      exact List.mem_cons_self
  | next first _ ih =>
    cases all with
    | here => cases first
    | next other others =>
      cases other.symm.trans first
      exact List.mem_cons_of_mem _ (ih others read)

theorem SurplusLine.line {text : List Char} (surplus : SurplusLine text) :
    ∃ mnemo, LineText wrapped text mnemo ∧ ((mnemo.tag = .push ∨ mnemo.tag = .pop) ∧ mnemo.a2 ≠ .undef ∨
      mnemo.tag = .ret ∧ mnemo.a1 ≠ .undef) := by
  cases surplus with
  | stack known stack sized read also =>
    exact ⟨_, .line known sized (.two read also), .inl ⟨stack, also.present⟩⟩
  | ret known sized read some =>
    refine ⟨_, .line known sized read, .inr ⟨rfl, ?_⟩⟩
    cases read with
    | none => exact absurd rfl some
    | one read => exact read.present
    | two read _ => exact read.present

private theorem surplus_of_line {line : List Char} {mnemo : Mnemo} {code : List u8}
    (derived : LineText wrapped line mnemo)
    (accepted : assemble [mnemo] = .ok code) (missed : ¬mnemo.HasArity) : SurplusLine line := by
  rw [hasArity_iff accepted] at missed
  by_contra fits
  apply missed
  cases derived with
  | line known sized read =>
    refine ⟨fun stack => ?_, ?_⟩
    · cases read with
      | none | one => rfl
      | two read also => exact absurd (.stack known stack sized read also) fits
    · rintro rfl
      have bare := fun some => fits (.ret known sized read some)
      cases read with
      | none => exact ⟨rfl, rfl⟩
      | one read => exact absurd read.nonempty bare
      | two read also => exact absurd (by simp [read.nonempty]) bare

/-- No operand is dropped exactly when no line has one left over. -/
theorem arity_respected_iff {text : List Char} {tail : Strive} {mnemos : List Mnemo} {bytes : List u8}
    (parsed : parse (.ofText text) = .ok (.ok ⟨tail, mnemos⟩)) (accepted : assemble mnemos = .ok bytes) :
    (∀ mnemo ∈ mnemos, mnemo.HasArity) ↔ ¬SurplusText text := by
  have program := (parse_ok_iff.mp parsed).1
  constructor
  · intro respected surplus
    obtain ⟨after, earlier, surplus⟩ := surplus
    obtain ⟨mnemo, derived, left⟩ := surplus.line
    have lines := program.lines []
    rw [List.append_nil] at lines
    have member := (earlier.lines _).passes lines (readLine_append derived after)
    obtain ⟨code, alone⟩ := assemble_member accepted member
    obtain ⟨stack, ret⟩ := (hasArity_iff alone).mp (respected mnemo member)
    rcases left with ⟨tagged, second⟩ | ⟨tagged, first⟩
    · exact second (stack tagged)
    · exact first (ret tagged).1
  · intro fits mnemo member
    by_contra missed
    obtain ⟨lines, _, line, after, rfl, earlier, derived⟩ := program.member member
    obtain ⟨code, alone⟩ := assemble_member accepted member
    exact fits (.behind after earlier (surplus_of_line derived alone missed))

theorem arity_respected_push :
    (∀ mnemo ∈ [(⟨.push, .qword, .register .rax, .undef⟩ : Mnemo)], mnemo.HasArity) ↔
      ¬SurplusText "push QWORD rax\n".toList := by
  have push : ("push", Tag.push) ∈ mnemoNames := by simp [mnemoNames]
  have rax : ("rax", Reg.rax) ∈ registerNames := by simp [registerNames]
  have sized : WidthText " QWORD ".toList .qword := .present 1 1 (show ("QWORD", Width.qword) ∈ widthNames by simp [widthNames])
  have program : ProgramText wrapped "push QWORD rax\n".toList [⟨.push, .qword, .register .rax, .undef⟩] :=
    .line (.line push sized (.one (.reg rax))) .done
  exact arity_respected_iff (parse_ok_iff.mpr ⟨program, rfl⟩) (show assemble _ = .ok [0x50] from rfl)

/-- `ret 100` assembles to a plain `ret`. -/
theorem ret_operand_dropped : ∃ tail mnemo, parse (.ofString "ret 100\n") = .ok (.ok ⟨tail, [mnemo]⟩) ∧
    assemble [mnemo] = .ok [0xc3] ∧ ¬mnemo.HasArity := by
  have ret : ("ret", Tag.ret) ∈ mnemoNames := by simp [mnemoNames]
  have number : IntText .ten "100".toList 100 := .literal .plus (show "100".toList ≠ [] by decide) (List.all_eq_true.mp rfl)
  have program : ProgramText wrapped "ret 100\n".toList [⟨.ret, .notSet, .immediate 100, .undef⟩] :=
    .line (.line ret (.absent 1) (.one (.int number rfl))) .done
  refine ⟨_, _, parse_ok_iff.mpr ⟨program, rfl⟩, rfl, ?_⟩
  rw [hasArity_iff (show assemble _ = .ok [0xc3] from rfl)]
  simp

end Cplastane.Assembly
