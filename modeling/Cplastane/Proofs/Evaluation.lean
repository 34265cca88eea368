import Cplastane.Proofs.JitRuns
import Cplastane.Proofs.ParserRuns

/-! The evaluator as a whole. A text that is refused on the way leaves memory alone, and
the text of an executable program evaluates to what the program computes. -/

namespace Cplastane
open X86 Simulation Straight Parsec Assembly Jit

section Stages

variable {kernel : Kernel} {func : Nat → i64} {s : Strive} {effects : List Effect}

theorem bind_onto {α β : Type} (first : Evaluation α) (next : α → Evaluation β) :
    (first >>= next).onto effects =
      match first.onto effects with
      | (.ok value, later) => (next value).onto later
      | (.error error, later) => (.error error, later) := by
  unfold Evaluation.onto
  rw [ExceptT.run_bind, StateT.run_bind]
  rcases first.run.run effects with ⟨_ | _, later⟩ <;> rfl

theorem escaping_onto {ε α : Type} (wrap : ε → EvalThrow) (outcome : Except ε α) :
    (escaping wrap outcome).onto effects = (outcome.mapError wrap, effects) := rfl

private theorem adapt_onto {α : Type} (action : Action α) :
    Evaluation.onto (ExceptT.adapt .running action) effects =
      ((action.onto effects).1.mapError .running, (action.onto effects).2) := rfl

theorem eval_assembled {result : ParserResult (List Mnemo)} {bytes : List u8} (parsed : parse s = .ok (.ok result))
    (assembled : assemble result.data = .ok bytes) :
    (eval kernel func s).onto effects =
      (((evalMc kernel func (data bytes) (UInt64.ofNat bytes.length)).onto effects).1.mapError .running,
        ((evalMc kernel func (data bytes) (UInt64.ofNat bytes.length)).onto effects).2) := by
  simp only [eval, bind_onto, escaping_onto, parsed, Except.mapError, Result.value, assembled, adapt_onto]

inductive Evaluated (kernel : Kernel) (func : Nat → i64) (s : Strive) : Except EvalThrow i64 → List Effect → Prop where
  | parsing {fault} (thrown : parse s = .error fault) : Evaluated kernel func s (.error (.parsing fault)) []
  | unwrap {error} (refused : parse s = .ok (.error error)) : Evaluated kernel func s (.error .unwrap) []
  | assembling {result error} (parsed : parse s = .ok (.ok result)) (refused : assemble result.data = .error error) :
      Evaluated kernel func s (.error (.assembling error)) []
  | ran {result bytes outcome effects} (parsed : parse s = .ok (.ok result)) (assembled : assemble result.data = .ok bytes)
      (ran : Ran kernel func (data bytes) (UInt64.ofNat bytes.length) outcome effects) :
      Evaluated kernel func s (outcome.mapError .running) effects

theorem eval_evaluated (kernel : Kernel) (func : Nat → i64) (s : Strive) :
    ∃ outcome effects, (eval kernel func s).onto [] = (outcome, effects) ∧ Evaluated kernel func s outcome effects := by
  cases parsed : parse s with
  | error fault => exact ⟨_, _, by simp only [eval, bind_onto, escaping_onto, parsed, Except.mapError], .parsing parsed⟩
  | ok read =>
    cases read with
    | error error =>
      exact ⟨_, _, by simp only [eval, bind_onto, escaping_onto, parsed, Except.mapError, Result.value, id], .unwrap parsed⟩
    | ok result =>
      cases assembled : assemble result.data with
      | error error =>
        refine ⟨_, _, ?_, .assembling parsed assembled⟩
        simp only [eval, bind_onto, escaping_onto, parsed, Except.mapError, Result.value, assembled]
      | ok bytes =>
        obtain ⟨outcome, effects, same, ran⟩ := evalMc_ran kernel func (data bytes) (UInt64.ofNat bytes.length)
        refine ⟨_, effects, ?_, .ran parsed assembled ran⟩
        rw [eval_assembled parsed assembled, same]

def CodeOf (text : List Char) (bytes : List u8) : Prop :=
  ∃ mnemos, ProgramText wrapped text mnemos ∧ assemble mnemos = .ok bytes

theorem codeOf_iff {text : List Char} {bytes : List u8} :
    CodeOf text bytes ↔ ∃ result, parse (.ofText text) = .ok (.ok result) ∧ assemble result.data = .ok bytes := by
  constructor
  · intro code
    obtain ⟨mnemos, program, assembled⟩ := code
    exact ⟨_, parse_ok_iff.mpr ⟨program, rfl⟩, assembled⟩
  · intro code
    obtain ⟨⟨tail, mnemos⟩, parsed, assembled⟩ := code
    exact ⟨mnemos, (parse_ok_iff.mp parsed).1, assembled⟩

theorem CodeOf.unique {text : List Char} {first second : List u8} (left : CodeOf text first)
    (right : CodeOf text second) :
    first = second := by
  obtain ⟨result, parsed, assembled⟩ := codeOf_iff.mp left
  obtain ⟨other, also, same⟩ := codeOf_iff.mp right
  cases parsed.symm.trans also
  exact Except.ok.inj (assembled.symm.trans same)

/-- What an evaluation that ends keeps to; `func` says what a call that comes back returns. A value
comes from a call of the text's code, mapped before and unmapped behind it. A text without code ends
with an exception, and memory is left alone. Nothing but the text's own code is called, behind all
that is written, and a mapping is released unless the evaluation fails with one of two exceptions. A
process that does not survive the call, or a write, has no outcome. -/
structure Disciplined (kernel : Kernel) (func : Nat → i64) (text : List Char) (outcome : Except EvalThrow i64)
    (effects : List Effect) : Prop where
  returned : ∀ value, outcome = .ok value → ∃ bytes place, CodeOf text bytes ∧
    kernel.mmap (UInt64.ofNat bytes.length) = some place ∧ place ≠ 0 ∧
    kernel.munmap place (UInt64.ofNat bytes.length + 2) = true ∧ value = func place ∧
    effects = trace place (data bytes) (UInt64.ofNat bytes.length)
  refused : (∀ bytes, ¬CodeOf text bytes) → (∃ error, outcome = .error error) ∧ effects = []
  called : ∀ place, .called place ∈ effects → ∃ bytes rest, CodeOf text bytes ∧
    effects = prepared place (data bytes) (UInt64.ofNat bytes.length) ++ .called place :: rest ∧
    (rest = [] ∨ rest = [.unmapped place (UInt64.ofNat bytes.length + 2)])
  released : ∀ place size, .mapped place size ∈ effects → .unmapped place (size + 2) ∈ effects ∨
    outcome = .error (.running .mmapFailed) ∨ outcome = .error (.running .deallocationFailed)

private theorem disciplined_untouched (kernel : Kernel) (func : Nat → i64) (text : List Char) (error : EvalThrow) :
    Disciplined kernel func text (.error error) [] where
  returned _ same := nomatch same
  refused _ := ⟨⟨error, rfl⟩, rfl⟩
  called _ member := absurd member List.not_mem_nil
  released _ _ member := absurd member List.not_mem_nil

private theorem called_prepared {place other : Nat} {mc : Nat → u8} {len : SizeT} :
    .called other ∈ prepared place mc len ++ [.called place] ↔ other = place := by
  simp [prepared]

private theorem disciplined_ran {text : List Char} {bytes : List u8} (code : CodeOf text bytes)
    {outcome : Except JitThrow i64} (ran : Ran kernel func (data bytes) (UInt64.ofNat bytes.length) outcome effects) :
    Disciplined kernel func text (outcome.mapError .running) effects := by
  have coded (none : ∀ bytes, ¬CodeOf text bytes) : False := none bytes code
  cases ran with
  | refused unmapped => exact disciplined_untouched kernel func text _
  | null mapped =>
    refine ⟨fun value same => ?_, fun none => (coded none).elim, fun _ member => ?_, fun _ _ _ => .inr (.inl rfl)⟩
    · cases same
    · simp at member
  | @kept place mapped nonnull failed =>
    refine ⟨fun value same => ?_, fun none => (coded none).elim, fun other member => ?_, fun _ _ _ => .inr (.inr rfl)⟩
    · cases same
    · cases called_prepared.mp member
      exact ⟨bytes, [], code, rfl, .inl rfl⟩
  | @returned place mapped nonnull freed =>
    refine ⟨fun value same => ?_, fun none => (coded none).elim, fun other member => ?_, fun other size member => ?_⟩
    · cases same
      exact ⟨bytes, place, code, mapped, nonnull, freed, rfl, rfl⟩
    · rw [trace_prepared] at member ⊢
      have same : other = place := by simpa [prepared] using member
      cases same
      exact ⟨bytes, _, code, rfl, .inr rfl⟩
    · rw [trace_prepared] at member ⊢
      obtain ⟨rfl, rfl⟩ : other = place ∧ size = UInt64.ofNat bytes.length := by simpa [prepared] using member
      simp

/-- Every evaluation of every text, on every kernel. -/
theorem eval_disciplined (kernel : Kernel) (func : Nat → i64) (text : List Char) :
    ∃ outcome effects, (eval kernel func (.ofText text)).onto [] = (outcome, effects) ∧
      Disciplined kernel func text outcome effects := by
  obtain ⟨outcome, effects, same, evaluated⟩ := eval_evaluated kernel func (.ofText text)
  refine ⟨outcome, effects, same, ?_⟩
  cases evaluated with
  | parsing | unwrap | assembling => exact disciplined_untouched kernel func text _
  | ran parsed assembled ran => exact disciplined_ran (codeOf_iff.mpr ⟨_, parsed, assembled⟩) ran

end Stages

/-- The process that evaluates, in front of the call: its registers, its memory but for
what the evaluation has written, and where the call returns to. -/
structure Process where
  store : Store
  back : BitVec 64

/-- What the called code finds: memory with what has been written to it, and on the stack where to
return to. -/
def Process.entry (process : Process) (place : Nat) (bytes : List u8) : Store :=
  (applyWrites (writes (prepared place (data bytes) (UInt64.ofNat bytes.length))) process.store).push .qword process.back.toNat

/-- The registers of the fragment that a function has to hand back: rbx, rsp and rbp. -/
def Preserved (before after : Store) : Prop := ∀ number : Fin 8, number ∈ [3, 4, 5] → after.registers number = before.registers number

/-- A function returns what it leaves in rax. -/
def result (store : Store) : i64 := Int64.ofBitVec (store.registers 0)

/-- The calling convention: if the processor comes back from the code, with the registers
that it has to preserve, then the call has the result that it comes with. -/
def Process.Calls (process : Process) (func : Nat → i64) (place : Nat) (bytes : List u8) : Prop :=
  ∀ n final, steps Machine.step n ⟨BitVec.ofNat 64 place, process.entry place bytes⟩ = some ⟨process.back, final⟩ →
    (∀ k < n, ∀ other, steps Machine.step k ⟨BitVec.ofNat 64 place, process.entry place bytes⟩ = some other →
      other.ip ≠ process.back) →
    Preserved process.store final → func place = result final

/-- The kernel has a place for the code: whole pages of its own page size that have room for the
trap, too, and are neither on the stack nor the caller's. Code that leaves less than two bytes of
its last page has no such place. -/
structure Hosted (kernel : Kernel) (page : Nat) (process : Process) (place : Nat) (bytes : List u8) : Prop where
  paged : kernel.Paged page
  mapped : kernel.mmap (UInt64.ofNat bytes.length) = some place
  nonnull : place ≠ 0
  freed : kernel.munmap place (UInt64.ofNat bytes.length + 2) = true
  room : bytes.length + 2 ≤ page * (bytes.length ⌈/⌉ page)
  bounded : place + (bytes.length + 2) ≤ 2 ^ 64
  stack : (codeWindow (BitVec.ofNat 64 place) bytes).Misses ⟨(process.store.lower .qword).top, 8⟩
  caller : ¬(codeWindow (BitVec.ofNat 64 place) bytes).Covers process.back

/-- The text is evaluated to the value by code at a place. All that is written, the trap included,
is written into the pages that are mapped for it, and these pages are released. -/
structure Evaluates (kernel : Kernel) (func : Nat → i64) (page : Nat) (text : List Char) (place : Nat) (bytes : List u8)
    (value : i64) : Prop where
  outcome : (eval kernel func (.ofText text)).onto [] = (.ok value, trace place (data bytes) (UInt64.ofNat bytes.length))
  inside : TrapInside kernel page (data bytes) (UInt64.ofNat bytes.length)
    (trace place (data bytes) (UInt64.ofNat bytes.length))

section Places

variable {kernel : Kernel} {page : Nat} {process : Process} {place : Nat} {bytes : List u8}

theorem Hosted.short (hosted : Hosted kernel page process place bytes) : bytes.length + 2 < 2 ^ 64 := by
  have bound := hosted.bounded
  have somewhere := hosted.nonnull
  omega

theorem Hosted.positive (hosted : Hosted kernel page process place bytes) : 0 < page := by
  rcases Nat.eq_zero_or_pos page with rfl | positive
  · have room := hosted.room
    omega
  · exact positive

theorem Hosted.nonempty (hosted : Hosted kernel page process place bytes) : 0 < bytes.length := by
  rcases Nat.eq_zero_or_pos bytes.length with empty | some
  · have room := hosted.room
    rw [empty, zero_ceilDiv] at room
    omega
  · exact some

theorem Hosted.length (hosted : Hosted kernel page process place bytes) :
    (UInt64.ofNat bytes.length).toNat = bytes.length := by
  have short := hosted.short
  exact UInt64.toNat_ofNat_of_lt' (show bytes.length < 2 ^ 64 by omega)

theorem Hosted.sized (hosted : Hosted kernel page process place bytes) : 0 < UInt64.ofNat bytes.length := by
  apply UInt64.lt_iff_toNat_lt.mpr
  rw [hosted.length]
  exact hosted.nonempty

theorem Hosted.covers (hosted : Hosted kernel page process place bytes) {i : Nat} (inside : i < bytes.length + 2) :
    Pages.Covers page (kernel.mmapPages place (UInt64.ofNat bytes.length)) (place + i) := by
  rw [hosted.paged.maps _ _ hosted.sized, hosted.length, Pages.covers_run_iff hosted.positive]
  exact Nat.lt_of_lt_of_le inside hosted.room

theorem Hosted.trap_inside (hosted : Hosted kernel page process place bytes) :
    TrapInside kernel page (data bytes) (UInt64.ofNat bytes.length)
      (trace place (data bytes) (UInt64.ofNat bytes.length)) := by
  apply trap_inside_of_room hosted.paged hosted.positive hosted.sized
  · rw [hosted.length]
    exact hosted.short
  · rw [hosted.length, Pages.ceilDiv_add_eq_iff hosted.positive]
    exact hosted.room

end Places

section Calls

variable {kernel : Kernel} {func : Nat → i64} {page : Nat} {process : Process} {place : Nat} {bytes : List u8}
  {text : List Char} {mnemos : List Mnemo}

theorem applyWrites_registers (writes : List (Nat × u8)) (store : Store) :
    (applyWrites writes store).registers = store.registers := by
  unfold applyWrites
  induction writes generalizing store with
  | nil => rfl
  | cons write writes ih => exact ih (store.save (BitVec.ofNat 64 write.1) [write.2])

private theorem entry_holds (hosted : Hosted kernel page process place bytes) :
    (process.entry place bytes).Holds (BitVec.ofNat 64 place) (bytes ++ trap) := by
  have short : (bytes ++ trap).length ≤ 2 ^ 64 := by
    have bound := hosted.short
    simp only [List.length_append, trap, List.length_cons, List.length_nil]
    omega
  rw [Process.entry, writes_prepared hosted.short]
  apply Store.push_holds (applyWrites_spelled short process.store)
  rw [Store.top_lower_congr (applyWrites_registers (spelled place (bytes ++ trap)) process.store)]
  exact hosted.stack

theorem entry_back (process : Process) (place : Nat) (bytes : List u8) :
    BitVec.ofNat 64 ((process.entry place bytes).peek .qword) = process.back := by
  have pushed : ((process.entry place bytes).peek .qword : Int) = process.back.toNat % 2 ^ 64 := Store.peek_push _ _ _
  have bound := process.back.isLt
  apply BitVec.eq_of_toNat_eq
  rw [BitVec.toNat_ofNat]
  omega

private theorem entry_raised (process : Process) (place : Nat) (bytes : List u8) :
    ((process.entry place bytes).raise .qword).registers = process.store.registers := by
  rw [Process.entry, Store.raise_push, applyWrites_registers]

private theorem raised_registers (n : i64) :
    (((process.entry place bytes).write (.gp .qword 0) n.toInt).raise .qword).registers =
    Function.update process.store.registers 0 n.toBitVec := by
  have same : BitVec.ofInt 64 n.toInt = n.toBitVec := BitVec.ofInt_toInt
  rw [Store.raise_write (by decide), Store.write_qword, entry_raised, same]

theorem returned_value (n : i64) :
    Preserved process.store (((process.entry place bytes).write (.gp .qword 0) n.toInt).raise .qword) ∧
      result (((process.entry place bytes).write (.gp .qword 0) n.toInt).raise .qword) = n := by
  rw [Preserved, result, raised_registers]
  refine ⟨fun number kept => ?_, ?_⟩
  · apply Function.update_of_ne
    rintro rfl
    revert kept
    decide
  · rw [Function.update_self]
    rfl

/-- The processor comes back when the program returns, and has not been back before. -/
private theorem comes_back (hosted : Hosted kernel page process place bytes)
    (executable : ∀ mnemo ∈ mnemos, Executable mnemo) (assembled : assemble mnemos = .ok bytes) {final : Store}
    (ran : run (Mnemo.effect (codeWindow (BitVec.ofNat 64 place) bytes)) mnemos
      (process.entry place bytes) = some (.exit ⟨process.back, final⟩)) :
    ∃ n, steps Machine.step n ⟨BitVec.ofNat 64 place, process.entry place bytes⟩ =
        some ⟨process.back, final⟩ ∧
      ∀ k < n, ∀ other, steps Machine.step k ⟨BitVec.ofNat 64 place, process.entry place bytes⟩ = some other →
        other.ip ≠ process.back := by
  obtain ⟨n, -, reached, inside⟩ := follows_exit executable assembled (entry_holds hosted) ran
  refine ⟨n, reached, fun k earlier other passed back => ?_⟩
  obtain ⟨offset, bound, same⟩ := inside k earlier other passed
  apply hosted.caller
  have short := hosted.short
  rw [← back, same, Window.Covers]
  simp only [codeWindow, BitVec.toNat_sub, BitVec.toNat_add, BitVec.toNat_ofNat, List.length_append, trap,
    List.length_cons, List.length_nil]
  omega

/-- An executable program that returns to its caller is evaluated to what it leaves in rax. -/
theorem eval_returned (hosted : Hosted kernel page process place bytes) (program : ProgramText wrapped text mnemos)
    (executable : ∀ mnemo ∈ mnemos, Executable mnemo) (assembled : assemble mnemos = .ok bytes)
    (calls : process.Calls func place bytes) {final : Store}
    (ran : run (Mnemo.effect (codeWindow (BitVec.ofNat 64 place) bytes)) mnemos
      (process.entry place bytes) = some (.exit ⟨process.back, final⟩))
    (preserved : Preserved process.store final) : Evaluates kernel func page text place bytes (result final) := by
  obtain ⟨n, reached, first⟩ := comes_back hosted executable assembled ran
  refine ⟨?_, hosted.trap_inside⟩
  have parsed : parse (.ofText text) = .ok (.ok ⟨cursor text [], mnemos⟩) := parse_ok_iff.mpr ⟨program, rfl⟩
  rw [eval_assembled parsed assembled, evalMc_returns hosted.mapped hosted.nonnull hosted.freed,
    calls n final reached first preserved]
  rfl

theorem calls_result (hosted : Hosted kernel page process place bytes) (executable : ∀ mnemo ∈ mnemos, Executable mnemo)
    (assembled : assemble mnemos = .ok bytes) {final : Store}
    (ran : run (Mnemo.effect (codeWindow (BitVec.ofNat 64 place) bytes)) mnemos
      (process.entry place bytes) = some (.exit ⟨process.back, final⟩)) :
    process.Calls (fun _ => result final) place bytes := by
  obtain ⟨n, reached, first⟩ := comes_back hosted executable assembled ran
  intro m other came before _
  rcases Nat.lt_trichotomy m n with earlier | rfl | later
  · exact absurd rfl (first m earlier _ came)
  · cases reached.symm.trans came
    rfl
  · exact absurd rfl (before n later _ reached)

theorem eval_triple (hosted : Hosted kernel page process place bytes) (program : ProgramText wrapped text mnemos)
    (executable : ∀ mnemo ∈ mnemos, Executable mnemo) (assembled : assemble mnemos = .ok bytes)
    (calls : process.Calls func place bytes) {value : i64}
    (triple : Triple (Mnemo.effect (codeWindow (BitVec.ofNat 64 place) bytes))
      (· = process.entry place bytes) mnemos (fun _ => False)
      (fun machine => machine.ip = process.back ∧ Preserved process.store machine.store ∧ result machine.store = value)) :
    Evaluates kernel func page text place bytes value := by
  obtain ⟨outcome, ran, reached⟩ := triple _ rfl
  cases outcome with
  | next final => exact reached.elim
  | exit machine =>
    obtain ⟨ip, final⟩ := machine
    obtain ⟨rfl, preserved, rfl⟩ := reached
    exact eval_returned hosted program executable assembled calls ran preserved

end Calls

/-- Every text of an executable program has code, and wherever the kernel has a place for it: if
the program returns to its caller, in its own terms, with the registers that it has to preserve,
then the text is evaluated to what the program leaves in rax. -/
theorem eval_computes {text : List Char} {mnemos : List Mnemo} (program : ProgramText wrapped text mnemos)
    (executable : ∀ mnemo ∈ mnemos, Executable mnemo) :
    ∃ bytes, assemble mnemos = .ok bytes ∧ ∀ kernel page process place func final,
      Hosted kernel page process place bytes → process.Calls func place bytes →
      run (Mnemo.effect (codeWindow (BitVec.ofNat 64 place) bytes)) mnemos (process.entry place bytes) =
        some (.exit ⟨process.back, final⟩) →
      Preserved process.store final → Evaluates kernel func page text place bytes (result final) := by
  obtain ⟨bytes, assembled⟩ := executable_assembles executable
  refine ⟨bytes, assembled, fun kernel page process place func final hosted calls ran preserved => ?_⟩
  exact eval_returned hosted program executable assembled calls ran preserved

/-- A caller at 0x400000, with its stack below 0x7fff0000. -/
def caller : Process := ⟨⟨fun _ => 0x7fff0000, fun _ => 0⟩, 0x400000⟩

theorem paging_hosts {bytes : List u8} (some : 0 < bytes.length) (short : bytes.length + 2 ≤ 4096) :
    Hosted (paging 4096 65536) 4096 caller 65536 bytes where
  paged := paging_paged 4096 65536
  mapped := rfl
  nonnull := by decide
  freed := rfl
  room := (Pages.fits_iff (by decide) (by decide)).mpr ⟨by omega, by omega⟩
  bounded := by omega
  stack := by
    have top : (caller.store.lower .qword).top = BitVec.ofNat 64 0x7ffefff8 := by decide
    intro i inside
    rw [top]
    simp only [codeWindow, List.length_append, trap, List.length_cons, List.length_nil] at inside
    simp only [codeWindow, Window.Covers, BitVec.toNat_sub, BitVec.toNat_add, BitVec.toNat_ofNat]
    omega
  caller := by
    have back : caller.back = BitVec.ofNat 64 0x400000 := rfl
    rw [back]
    simp only [codeWindow, Window.Covers, List.length_append, trap, List.length_cons, List.length_nil,
      BitVec.toNat_sub, BitVec.toNat_ofNat]
    omega

def sevenText : List Char := "mov QWORD rax, 7\n".toList ++ ("ret\n".toList ++ [])

def sevenMnemos : List Mnemo := [⟨.mov, .qword, .register .rax, .immediate 7⟩, ⟨.ret, .notSet, .undef, .undef⟩]

def sevenCode : List u8 := [0x48, 0xb8, 7, 0, 0, 0, 0, 0, 0, 0, 0xc3]

private theorem sevenText_derives : ProgramText wrapped sevenText sevenMnemos := by
  have mov : ("mov", Tag.mov) ∈ mnemoNames := by simp [mnemoNames]
  have ret : ("ret", Tag.ret) ∈ mnemoNames := by simp [mnemoNames]
  have rax : ("rax", Reg.rax) ∈ registerNames := by simp [registerNames]
  have qword : ("QWORD", Width.qword) ∈ widthNames := by simp [widthNames]
  have seven : IntText .ten ['7'] 7 := .literal .plus (List.cons_ne_nil _ _) (List.all_eq_true.mp rfl)
  apply ProgramText.line (.line mov (.present 1 1 qword) (.two (.reg rax) (.int seven rfl)))
  exact ProgramText.line (.line ret (.absent 0) .none) .done

theorem eval_computes_seven :
    Evaluates (paging 4096 65536) (fun _ => 7) 4096 sevenText 65536 sevenCode 7 := by
  have executable : ∀ mnemo ∈ sevenMnemos, Executable mnemo := by
    simp only [sevenMnemos, List.forall_mem_cons, List.not_mem_nil, false_implies, implies_true, and_true]
    exact ⟨.supported (.movRegImm rfl) trivial, .supported .ret trivial⟩
  have hosted : Hosted (paging 4096 65536) 4096 caller 65536 sevenCode := paging_hosts (by decide) (by decide)
  obtain ⟨bytes, assembled, evaluates⟩ := eval_computes sevenText_derives executable
  obtain rfl : bytes = sevenCode := Except.ok.inj (assembled.symm.trans (by decide))
  have ran : run (Mnemo.effect (codeWindow (BitVec.ofNat 64 65536) sevenCode)) sevenMnemos (caller.entry 65536 sevenCode) =
      some (.exit ⟨caller.back, ((caller.entry 65536 sevenCode).write (.gp .qword 0) (7 : i64).toInt).raise .qword⟩) := by
    rw [← entry_back caller 65536 sevenCode,
      ← Store.peek_write (show (Register.gp .qword 0).home ≠ 4 by decide) _ (7 : i64).toInt .qword]
    rfl
  obtain ⟨preserved, seven⟩ := @returned_value caller 65536 sevenCode 7
  have calls := calls_result hosted executable assembled ran
  have evaluated := evaluates _ _ caller 65536 _ _ hosted calls ran preserved
  rwa [seven] at evaluated

end Cplastane
