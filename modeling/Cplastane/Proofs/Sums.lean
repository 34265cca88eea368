import Cplastane.Proofs.Evaluation
import Cplastane.Proofs.Printing

/-! A family of programs from text to result: numbers are added up in rax, with the rules
of straight-line programs, and the evaluator returns their sum. -/

namespace Cplastane
open X86 Simulation Straight Parsec Assembly Jit

def numberLine (name : String) (n : Imm) : List Char :=
  name.toList ++ (" QWORD ".toList ++ ("rax".toList ++ (", ".toList ++ (toString n.toInt).toList) ++ ['\n']))

def sumText (first : Imm) (others : List Imm) : List Char :=
  numberLine "mov" first ++ (others.flatMap (numberLine "add") ++ "ret\n".toList)

def numberMnemo (tag : Tag) (n : Imm) : Mnemo := ⟨tag, .qword, .register .rax, .immediate n⟩

def sumMnemos (first : Imm) (others : List Imm) : List Mnemo :=
  numberMnemo .mov first :: (others.map (numberMnemo .add) ++ [⟨.ret, .notSet, .undef, .undef⟩])

/-- The immediates that `add` to a 64-bit register keeps. -/
def Addable (n : Imm) : Prop := (n.toInt < 128 ∨ 255 < n.toInt) ∧ FitsSigned 32 n

section Text

private theorem numberLine_derives {name : String} {tag : Tag} (known : (name, tag) ∈ mnemoNames) (n : Imm) :
    LineText wrapped (numberLine name n) (numberMnemo tag n) := by
  have literal := intText_toString n.toInt
  have second : ArgText wrapped (toString n.toInt).toList (.immediate n) := .int literal (Int64.ofInt_toInt n).symm
  have first : ArgText wrapped "rax".toList (.register .rax) := .reg (by simp [registerNames])
  have qword : ("QWORD", Width.qword) ∈ widthNames := by simp [widthNames]
  have sized : WidthText " QWORD ".toList .qword := .present 1 1 qword
  exact .line known sized (.two first second)

private theorem sumText_derives (first : Imm) (others : List Imm) :
    ProgramText wrapped (sumText first others) (sumMnemos first others) := by
  have ret : ("ret", Tag.ret) ∈ mnemoNames := by simp [mnemoNames]
  have line : LineText wrapped "ret\n".toList ⟨.ret, .notSet, .undef, .undef⟩ := .line ret (.absent 0) .none
  have ending : ProgramText wrapped "ret\n".toList [⟨.ret, .notSet, .undef, .undef⟩] := .line line .done
  refine .line (numberLine_derives (by simp [mnemoNames]) first) ?_
  induction others with
  | nil => exact ending
  | cons n others ih =>
    rw [List.flatMap_cons, List.append_assoc]
    exact .line (numberLine_derives (by simp [mnemoNames]) n) ih

end Text

section Meaning

private theorem sumMnemos_executable (first : Imm) {others : List Imm} (addable : ∀ n ∈ others, Addable n) :
    ∀ mnemo ∈ sumMnemos first others, Executable mnemo := by
  intro mnemo member
  simp only [sumMnemos, List.mem_cons, List.mem_append, List.mem_map, List.not_mem_nil, or_false] at member
  rcases member with rfl | ⟨n, inside, rfl⟩ | rfl
  · exact .supported (.movRegImm rfl) trivial
  · exact .addRegImm rfl (fun _ => (addable n inside).1) fun _ => (addable n inside).2
  · exact .supported .ret trivial

variable {code : Window} {entry : Store} {leave : Machine → Prop}

def Holding (entry : Store) (n : i64) (store : Store) : Prop := store = entry.write (.gp .qword 0) n.toInt

private theorem mov_triple (n : Imm) :
    Triple (Mnemo.effect code) (· = entry) [numberMnemo .mov n] (Holding entry n) leave := by
  apply Triple.command
  rintro store rfl
  exact ⟨.next (store.write (.gp .qword 0) n.toInt), rfl, rfl⟩

private theorem add_triple (sum n : Imm) :
    Triple (Mnemo.effect code) (Holding entry sum) [numberMnemo .add n] (Holding entry (sum + n)) leave := by
  apply Triple.command
  rintro store rfl
  have old : ((entry.write (.gp .qword 0) sum.toInt).read (.gp .qword 0) : Int) = sum.toInt % 2 ^ 64 := entry.read_write _ _
  refine ⟨.next ((entry.write (.gp .qword 0) sum.toInt).write (.gp .qword 0)
    ((entry.write (.gp .qword 0) sum.toInt).read (.gp .qword 0) + n.toInt)), rfl, ?_⟩
  rw [old, Store.write_write]
  apply Store.write_congr
  calc
    (sum.toInt % 2 ^ 64 + n.toInt) % 2 ^ 64 = (sum.toInt + n.toInt) % 2 ^ 64 := Int.emod_add_emod _ _ _
    _ = (sum + n).toInt % 2 ^ 64 := by
      rw [Int64.toInt_add]
      exact Int.bmod_emod.symm

private theorem adds_triple (sum : Imm) (others : List Imm) :
    Triple (Mnemo.effect code) (Holding entry sum) (others.map (numberMnemo .add))
      (Holding entry (others.foldl (· + ·) sum)) leave := by
  induction others generalizing sum with
  | nil => exact Triple.nil
  | cons n others ih => exact Triple.cons (add_triple sum n) (ih (sum + n))

private theorem ret_triple (entry : Store) (sum : i64) :
    Triple (Mnemo.effect code) (Holding entry sum) [⟨.ret, .notSet, .undef, .undef⟩] (fun _ => False)
      (· = ⟨BitVec.ofNat 64 (entry.peek .qword), (entry.write (.gp .qword 0) sum.toInt).raise .qword⟩) := by
  apply Triple.command
  rintro store rfl
  refine ⟨_, rfl, ?_⟩
  rw [← Store.peek_write (show (Register.gp .qword 0).home ≠ 4 by decide) entry sum.toInt .qword]
  rfl

theorem sum_triple (first : Imm) (others : List Imm) :
    Triple (Mnemo.effect code) (· = entry) (sumMnemos first others) (fun _ => False)
      (· = ⟨BitVec.ofNat 64 (entry.peek .qword), (entry.write (.gp .qword 0) (others.foldl (· + ·) first).toInt).raise .qword⟩) := by
  apply Triple.cons (mov_triple first)
  apply Triple.append (adds_triple first others)
  exact ret_triple entry (others.foldl (· + ·) first)

end Meaning

section Evaluations

private theorem sum_returns (process : Process) (place : Nat) (bytes : List u8) (first : Imm) (others : List Imm) :
    Triple (Mnemo.effect (codeWindow (BitVec.ofNat 64 place) bytes)) (· = process.entry place bytes) (sumMnemos first others)
      (fun _ => False) (fun machine => machine.ip = process.back ∧ Preserved process.store machine.store ∧
        result machine.store = others.foldl (· + ·) first) := by
  apply (sum_triple first others).consequence (fun _ same => same) (fun _ => False.elim)
  rintro machine rfl
  exact ⟨entry_back process place bytes, returned_value _⟩

/-- The text that adds up some numbers is parsed and assembled, and evaluated to their sum
modulo 2 ^ 64 wherever the kernel has a place for its code. -/
theorem eval_adds (first : Imm) (others : List Imm) (addable : ∀ n ∈ others, Addable n) :
    ∃ bytes, assemble (sumMnemos first others) = .ok bytes ∧ ∀ kernel page process place func,
      Hosted kernel page process place bytes → process.Calls func place bytes →
        Evaluates kernel func page (sumText first others) place bytes (others.foldl (· + ·) first) := by
  have executable := sumMnemos_executable first addable
  obtain ⟨bytes, assembled⟩ := executable_assembles executable
  refine ⟨bytes, assembled, fun kernel page process place func hosted calls => ?_⟩
  exact eval_triple hosted (sumText_derives first others) executable assembled calls (sum_returns process place bytes first others)

def sumCode : List u8 := [0x48, 0xb8, 40, 0, 0, 0, 0, 0, 0, 0, 0x48, 0x83, 0xc0, 2, 0xc3]

private theorem sumCode_hosted :
    Hosted (paging 4096 65536) 4096 caller 65536 sumCode := paging_hosts (by decide) (by decide)

private theorem two_addable : ∀ n ∈ [(2 : Imm)], Addable n := by
  simp only [List.forall_mem_cons, List.not_mem_nil, false_implies, implies_true, and_true]
  exact ⟨.inl (by decide), by decide, by decide⟩

private theorem sumCode_calls : caller.Calls (fun _ => 42) 65536 sumCode := by
  obtain ⟨outcome, ran, reached⟩ := sum_returns caller 65536 sumCode 40 [2] _ rfl
  cases outcome with
  | next final => exact reached.elim
  | exit machine =>
    obtain ⟨ip, final⟩ := machine
    obtain ⟨rfl, -, sum⟩ := reached
    have calls := calls_result sumCode_hosted (sumMnemos_executable 40 two_addable) (by decide) ran
    rwa [sum] at calls

theorem eval_adds_answer : Evaluates (paging 4096 65536) (fun _ => 42) 4096 (sumText 40 [2]) 65536 sumCode 42 := by
  obtain ⟨bytes, assembled, evaluates⟩ := eval_adds 40 [2] two_addable
  have same : assemble (sumMnemos 40 [2]) = .ok sumCode := by decide
  cases assembled.symm.trans same
  exact evaluates _ _ _ _ _ sumCode_hosted sumCode_calls

end Evaluations

end Cplastane
