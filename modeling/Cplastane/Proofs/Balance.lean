import Cplastane.Proofs.Evaluation
import Cplastane.X86.Stack

/-! Programs that are safe to evaluate by their form alone: moves and additions into
registers that are free, and pushes that are each taken off again, with a return behind them. -/

namespace Cplastane
open X86 Simulation Straight Parsec Assembly Jit

/-- A number or a register is moved or added to a free register. Memory is not touched, so that
neither the stack nor the code can be. -/
structure Leaf (free : List (Fin 8)) (mnemo : Mnemo) : Prop where
  executable : Executable mnemo
  tagged : mnemo.tag = .mov ∨ mnemo.tag = .add
  target : ∃ reg register, mnemo.a1 = .register reg ∧ reg.register = some register ∧ register.home ∈ free
  source : ∀ place, mnemo.a2 ≠ .memory place

structure Pushes (size : Size) (mnemo : Mnemo) : Prop where
  executable : Executable mnemo
  tagged : mnemo.tag = .push
  slot : mnemo.width.slot = some size
  source : ∀ place, mnemo.a1 ≠ .memory place

structure Pops (size : Size) (register : Register) (mnemo : Mnemo) : Prop where
  executable : Executable mnemo
  tagged : mnemo.tag = .pop
  slot : mnemo.width.slot = some size
  target : ∃ reg, mnemo.a1 = .register reg ∧ reg.register = some register

/-- Programs that only change registers that are free, and use no more bytes of the stack
than the depth allows. Between a push of a whole register and its pop, that register is free, too. -/
inductive Balanced : List (Fin 8) → Nat → List Mnemo → Prop where
  | nil {free depth} : Balanced free depth []
  | leaf {free depth mnemo rest} (leaf : Leaf free mnemo) (others : Balanced free depth rest) : Balanced free depth (mnemo :: rest)
  | pass {free depth size inner push body register pop rest} (pushes : Pushes size push) (within : Balanced free inner body)
      (pops : Pops size register pop) (target : register.home ∈ free) (fits : size.bytes + inner ≤ depth)
      (others : Balanced free depth rest) : Balanced free depth (push :: (body ++ pop :: rest))
  | save {free depth reg number inner body rest} (named : reg.register = some (.gp .qword number)) (pointer : number ≠ 4)
      (within : Balanced (number :: free) inner body) (fits : Size.qword.bytes + inner ≤ depth)
      (others : Balanced free depth rest) :
      Balanced free depth (⟨.push, .qword, .register reg, .undef⟩ :: (body ++ ⟨.pop, .qword, .register reg, .undef⟩ :: rest))

section Commands

variable {free : List (Fin 8)} {code : Window} {mnemo push pop : Mnemo} {size : Size} {entry store middle after final : Store}

private theorem leaf_effect (leaf : Leaf free mnemo) (code : Window) (store : Store) :
    ∃ register value, register.home ∈ free ∧ mnemo.effect code store = some (.next (store.write register value)) := by
  obtain ⟨reg, register, direct, known, inside⟩ := leaf.target
  obtain ⟨outcome, acted⟩ := leaf.executable.total store
  have updated {operation : Operation} (acted : mnemo.update ⟨0, 0⟩ operation store = some outcome) :
      ∃ value, mnemo.update code operation store = some (.next (store.write register value)) := by
    simp only [Mnemo.update, Option.bind_eq_bind, Option.bind_eq_some_iff] at acted
    obtain ⟨size, sized, old, first, value, second, -⟩ := acted
    rw [direct] at first
    exact ⟨operation.result old value, by simp [Mnemo.update, sized, first, second, direct, Arg.write, known]⟩
  unfold Mnemo.effect at acted ⊢
  rcases leaf.tagged with tagged | tagged
  · rw [tagged] at acted ⊢
    obtain ⟨value, same⟩ := updated acted
    exact ⟨register, value, inside, same⟩
  · rw [tagged] at acted ⊢
    obtain ⟨value, same⟩ := updated acted
    exact ⟨register, value, inside, same⟩

private theorem push_effect (tagged : mnemo.tag = .push) (slot : mnemo.width.slot = some size)
    (misses : code.Misses (.below store.top size.bytes)) {value : Int} (read : mnemo.a1.read size store = some value) :
    mnemo.effect code store = some (.next (store.push size value)) := by
  have apart : code.Misses ⟨(store.lower size).top, (littleEndian size.bytes value).length⟩ := by
    rw [littleEndian_length, Store.top_lower]
    exact misses
  simp only [Mnemo.effect, tagged, slot, read, Option.bind_eq_bind, Option.bind_some, saveOutside, if_pos apart]
  rfl

private theorem pushes_effect (pushes : Pushes size mnemo) (misses : code.Misses (.below store.top size.bytes)) :
    ∃ value, mnemo.effect code store = some (.next (store.push size value)) := by
  obtain ⟨outcome, acted⟩ := pushes.executable.total store
  simp only [Mnemo.effect, pushes.tagged, pushes.slot, Option.bind_eq_bind, Option.bind_eq_some_iff] at acted
  obtain ⟨_, same, value, read, -⟩ := acted
  cases same
  exact ⟨value, push_effect pushes.tagged pushes.slot misses read⟩

private theorem pops_effect {register : Register} (pops : Pops size register mnemo) (code : Window) (store : Store) :
    mnemo.effect code store = some (.next ((store.raise size).write register (store.peek size))) := by
  obtain ⟨reg, direct, known⟩ := pops.target
  simp [Mnemo.effect, pops.tagged, pops.slot, direct, Arg.write, known]

private theorem bracket_run {body rest : List Mnemo} {outcome : Outcome Store Machine}
    (pushed : push.effect code entry = some (.next store))
    (ran : run (Mnemo.effect code) body store = some (.next middle))
    (popped : pop.effect code middle = some (.next after)) (others : run (Mnemo.effect code) rest after = some outcome) :
    run (Mnemo.effect code) (push :: (body ++ pop :: rest)) entry = some outcome := by
  rw [run_cons_next pushed, run_append, ran]
  exact (run_cons_next popped).trans others

private theorem kept_back {number : Fin 8} {room : Window} (kept : Store.Kept (number :: free) room entry after)
    {value : Int}
    (same : value = (entry.registers number).toNat) : Store.Kept free room entry (after.write (.gp .qword number) value) where
  registers other outside := by
    have written : (after.write (.gp .qword number) value).registers = Function.update after.registers number (entry.registers number) := by
      rw [Store.write_qword, same, BitVec.ofInt_natCast, BitVec.ofNat_toNat, BitVec.setWidth_eq]
    rw [written]
    by_cases saved : other = number
    · rw [saved, Function.update_self]
    · rw [Function.update_of_ne saved]
      exact kept.registers other (by simp [saved, outside])
  memory := kept.memory

end Commands

section Runs

variable {free : List (Fin 8)} {size : Size} {inner depth : Nat} {mnemos : List Mnemo} {code : Window} {entry after : Store}

/-- Wherever the stack below its top is not code, a program comes to the end, with what is not free
as it was. The depth is what it may use of the stack. -/
def Tidy (code : Window) (free : List (Fin 8)) (depth : Nat) (mnemos : List Mnemo) : Prop :=
  ∀ entry : Store, code.Misses (.below entry.top depth) →
    ∃ final, run (Mnemo.effect code) mnemos entry = some (.next final) ∧ Store.Kept free (.below entry.top depth) entry final

theorem Tidy.behind (tidy : Tidy code free depth mnemos) (pointer : 4 ∉ free)
    (misses : code.Misses (.below entry.top depth)) (kept : Store.Kept free (.below entry.top depth) entry after) :
    ∃ final, run (Mnemo.effect code) mnemos after = some (.next final) ∧ Store.Kept free (.below entry.top depth) entry final := by
  have top := kept.top pointer
  rw [← top] at misses
  obtain ⟨final, ran, others⟩ := tidy after misses
  rw [top] at others
  exact ⟨final, ran, kept.trans others⟩

theorem Tidy.pushed (tidy : Tidy code free inner mnemos) (fits : size.bytes + inner ≤ depth) (small : depth < 2 ^ 64)
    (misses : code.Misses (.below entry.top depth)) (value : Int) :
    ∃ middle, run (Mnemo.effect code) mnemos (entry.push size value) = some (.next middle) ∧
      Store.Kept free (.below (entry.push size value).top inner) (entry.push size value) middle := by
  apply tidy
  apply misses.mono
  intro address covers
  rw [Store.top_push] at covers
  exact Window.below_mono fits small covers

private theorem slot_misses (misses : code.Misses (.below entry.top depth)) (fits : size.bytes + inner ≤ depth)
    (small : depth < 2 ^ 64) :
    code.Misses (.below entry.top size.bytes) :=
  misses.mono fun _ covers => Window.below_self covers (by omega) small

/-- The induction is over the form of the program; the store in front of it is left open, for a body
is run behind its push. -/
theorem balanced_tidy (balanced : Balanced free depth mnemos) (pointer : 4 ∉ free) (small : depth < 2 ^ 64)
    (code : Window) :
    Tidy code free depth mnemos := by
  induction balanced with
  | nil => exact fun entry _ => ⟨entry, rfl, .refl _ _ entry⟩
  | leaf leaf others ih =>
    intro entry misses
    obtain ⟨register, value, inside, acted⟩ := leaf_effect leaf code entry
    obtain ⟨final, ran, kept⟩ := (ih pointer small).behind pointer misses ((Store.Kept.refl _ _ entry).write inside value)
    exact ⟨final, (run_cons_next acted).trans ran, kept⟩
  | @pass free depth size inner push body register pop rest pushes within pops target fits others bodyIh restIh =>
    intro entry misses
    obtain ⟨value, pushed⟩ := pushes_effect pushes (slot_misses misses fits small)
    obtain ⟨middle, ran, during⟩ := (bodyIh pointer (by omega)).pushed fits small misses value
    have back := (during.bracket pointer fits small).write target (middle.peek size)
    obtain ⟨final, rest, kept⟩ := (restIh pointer small).behind pointer misses back
    exact ⟨final, bracket_run pushed ran (pops_effect pops code middle) rest, kept⟩
  | @save free depth reg number inner body rest named notTop within fits others bodyIh restIh =>
    intro entry misses
    have outside : 4 ∉ number :: free := by simp [pointer, notTop.symm]
    have read : (Arg.register reg).read .qword entry = some ((entry.registers number).toNat : Int) := by
      simp [Arg.read, named, Store.read_qword]
    have pushed := @push_effect code ⟨.push, .qword, .register reg, .undef⟩ .qword entry rfl rfl (slot_misses misses fits small) _ read
    obtain ⟨middle, ran, during⟩ := (bodyIh outside (by omega)).pushed fits small misses (entry.registers number).toNat
    have popped : Mnemo.effect code ⟨.pop, .qword, .register reg, .undef⟩ middle =
        some (.next ((middle.raise .qword).write (.gp .qword number) (middle.peek .qword))) := by
      simp [Mnemo.effect, Width.slot, Arg.write, named]
    have same : (middle.peek .qword : Int) = (entry.registers number).toNat := by
      rw [during.peek outside fits small]
      exact Int.emod_eq_of_lt (Int.natCast_nonneg _) (by exact_mod_cast (entry.registers number).isLt)
    obtain ⟨final, rest, kept⟩ := (restIh pointer small).behind pointer misses (kept_back (during.bracket outside fits small) same)
    exact ⟨final, bracket_run pushed ran popped rest, kept⟩

end Runs

section Evaluations

/-- The registers of the fragment that a function need not hand back. -/
def scratch : List (Fin 8) := [0, 1, 2, 6, 7]

def returnMnemo : Mnemo := ⟨.ret, .notSet, .undef, .undef⟩

variable {depth : Nat} {mnemos : List Mnemo}

private theorem balanced_executable {free : List (Fin 8)} (balanced : Balanced free depth mnemos) :
    ∀ mnemo ∈ mnemos, Executable mnemo := by
  induction balanced with
  | nil => exact fun _ member => absurd member List.not_mem_nil
  | leaf leaf others ih => exact List.forall_mem_cons.mpr ⟨leaf.executable, ih⟩
  | pass pushes within pops target fits others bodyIh restIh =>
    simp only [List.forall_mem_cons, List.forall_mem_append]
    exact ⟨pushes.executable, bodyIh, pops.executable, restIh⟩
  | @save _ _ reg _ _ _ _ named pointer within fits others bodyIh restIh =>
    have sized := registerWidth_eq reg
    rw [named] at sized
    simp only [List.forall_mem_cons, List.forall_mem_append]
    exact ⟨.supported (.stackReg (.inl rfl) (.inr rfl) sized) trivial, bodyIh,
      .supported (.stackReg (.inr rfl) (.inr rfl) sized) trivial, restIh⟩

private theorem returning_executable (balanced : Balanced scratch depth mnemos) :
    ∀ mnemo ∈ mnemos ++ [returnMnemo], Executable mnemo := by
  simp only [List.forall_mem_append, List.forall_mem_singleton]
  exact ⟨balanced_executable balanced, .supported .ret trivial⟩

/-- The caller's memory when its code is called, but for the address to return to. -/
def Process.written (process : Process) (place : Nat) (bytes : List u8) : Store :=
  applyWrites (writes (prepared place (data bytes) (UInt64.ofNat bytes.length))) process.store

private theorem written_top (process : Process) (place : Nat) (bytes : List u8) :
    (process.written place bytes).top = process.store.top := by
  rw [Store.top_eq, Store.top_eq, Process.written, applyWrites_registers]

/-- With the return behind them, they come back to the caller, who finds everything as it
was but for the scratch registers and the stack below its top. -/
theorem balanced_returns (balanced : Balanced scratch depth mnemos) (small : 8 + depth < 2 ^ 64) {process : Process}
    {place : Nat} {bytes : List u8} {code : Window} (misses : code.Misses (.below process.store.top (8 + depth))) :
    ∃ final, run (Mnemo.effect code) (mnemos ++ [returnMnemo]) (process.entry place bytes) = some (.exit ⟨process.back, final⟩) ∧
      Store.Kept scratch (.below process.store.top (8 + depth)) (process.written place bytes) final := by
  have pointer : 4 ∉ scratch := by decide
  have fits : Size.qword.bytes + depth ≤ 8 + depth := Nat.le_refl _
  rw [← written_top process place bytes] at misses ⊢
  obtain ⟨middle, ran, kept⟩ := (balanced_tidy balanced pointer (by omega) code).pushed fits small misses process.back.toNat
  refine ⟨middle.raise .qword, ?_, kept.bracket pointer fits small⟩
  have back : BitVec.ofNat 64 (middle.peek .qword) = process.back := by
    have bound := process.back.isLt
    have same : (middle.peek .qword : Int) = process.back.toNat % 2 ^ 64 := kept.peek pointer fits small
    apply BitVec.eq_of_toNat_eq
    rw [BitVec.toNat_ofNat]
    omega
  have entered : run (Mnemo.effect code) mnemos (process.entry place bytes) = some (.next middle) := ran
  rw [run_append, entered, ← back]
  rfl

private theorem preserved_of_kept {process : Process} {place : Nat} {bytes : List u8} {room : Window} {final : Store}
    (kept : Store.Kept scratch room (process.written place bytes) final) : Preserved process.store final := by
  intro number preserved
  have outside : number ∉ scratch := by
    revert number
    decide
  rw [kept.registers number outside, Process.written, applyWrites_registers]

/-- The code and its trap are written into the pages that are mapped for them, and nowhere else. -/
theorem written_memory {kernel : Kernel} {page : Nat} {process : Process} {place : Nat} {bytes : List u8}
    (hosted : Hosted kernel page process place bytes) {address : BitVec 64}
    (outside : ¬Pages.Covers page (kernel.mmapPages place (UInt64.ofNat bytes.length)) address.toNat) :
    (process.written place bytes).memory address = process.store.memory address := by
  rw [Process.written, writes_prepared hosted.short]
  apply applyWrites_memory
  intro write member same
  obtain ⟨i, inside, rfl⟩ := List.mem_mapIdx.mp member
  simp only [List.length_append, trap, List.length_cons, List.length_nil] at inside
  have bound := hosted.bounded
  have exact : address.toNat = place + i := by
    rw [← same, BitVec.toNat_ofNat]
    exact Nat.mod_eq_of_lt (by omega)
  exact outside (exact ▸ hosted.covers inside)

/-- What the caller finds behind the call: its registers but for the scratch ones, and its
memory but for the pages of the code and the free stack that has been used. -/
structure Process.Undisturbed (process : Process) (pages : Nat → Prop) (depth : Nat) (final : Store) : Prop where
  registers : ∀ number ∉ scratch, final.registers number = process.store.registers number
  memory : ∀ address, ¬pages address.toNat → ¬(Window.below process.store.top depth).Covers address →
    final.memory address = process.store.memory address

private theorem undisturbed_of_kept {kernel : Kernel} {page : Nat} {process : Process} {place : Nat} {bytes : List u8}
    {depth : Nat} {final : Store} (hosted : Hosted kernel page process place bytes)
    (kept : Store.Kept scratch (.below process.store.top depth) (process.written place bytes) final) :
    process.Undisturbed (Pages.Covers page (kernel.mmapPages place (UInt64.ofNat bytes.length))) depth final where
  registers number outside := by rw [kept.registers number outside, Process.written, applyWrites_registers]
  memory address elsewhere outside := (kept.memory address outside).trans (written_memory hosted elsewhere)

/-- Every text of such a program is evaluated, wherever the kernel has a place for its code
that the stack does not reach: it is never stuck, always comes back, has the value that it
leaves in rax, and changes nothing else of its caller's but scratch registers and free stack. -/
theorem eval_balanced {text : List Char} (program : ProgramText wrapped text (mnemos ++ [returnMnemo]))
    (balanced : Balanced scratch depth mnemos) (small : 8 + depth < 2 ^ 64) :
    ∃ bytes, assemble (mnemos ++ [returnMnemo]) = .ok bytes ∧ ∀ kernel page process place func,
      Hosted kernel page process place bytes → process.Calls func place bytes →
      (codeWindow (BitVec.ofNat 64 place) bytes).Misses (.below process.store.top (8 + depth)) → ∃ final,
        run (Mnemo.effect (codeWindow (BitVec.ofNat 64 place) bytes)) (mnemos ++ [returnMnemo]) (process.entry place bytes) =
          some (.exit ⟨process.back, final⟩) ∧
        process.Undisturbed (Pages.Covers page (kernel.mmapPages place (UInt64.ofNat bytes.length))) (8 + depth) final ∧
        Evaluates kernel func page text place bytes (result final) := by
  have executable := returning_executable balanced
  obtain ⟨bytes, assembled⟩ := executable_assembles executable
  refine ⟨bytes, assembled, fun kernel page process place func hosted calls misses => ?_⟩
  obtain ⟨final, ran, kept⟩ := balanced_returns balanced small misses
  refine ⟨final, ran, undisturbed_of_kept hosted kept, ?_⟩
  exact eval_returned hosted program executable assembled calls ran (preserved_of_kept kept)

def borrowing : List Mnemo :=
  ⟨.push, .qword, .register .rbx, .undef⟩ ::
    ([⟨.mov, .qword, .register .rbx, .immediate 7⟩, ⟨.mov, .qword, .register .rax, .register .rbx⟩] ++
      [⟨.pop, .qword, .register .rbx, .undef⟩])

private theorem borrowing_balanced : Balanced scratch 8 borrowing := by
  have number : Leaf (3 :: scratch) ⟨.mov, .qword, .register .rbx, .immediate 7⟩ :=
    ⟨.supported (.movRegImm rfl) trivial, .inl rfl, ⟨.rbx, .gp .qword 3, rfl, rfl, by decide⟩, by simp⟩
  have move : Leaf (3 :: scratch) ⟨.mov, .qword, .register .rax, .register .rbx⟩ :=
    ⟨.supported (.regReg (.inl rfl) rfl rfl) trivial, .inl rfl, ⟨.rax, .gp .qword 0, rfl, rfl, by decide⟩, by simp⟩
  exact .save rfl (by decide) (.leaf number (.leaf move (@Balanced.nil _ 0))) (by decide) .nil

def borrowingText : List Char :=
  "push QWORD rbx\n".toList ++ ("mov QWORD rbx, 7\n".toList ++ ("mov QWORD rax, rbx\n".toList ++
    ("pop QWORD rbx\n".toList ++ ("ret\n".toList ++ []))))

private theorem borrowing_derives : ProgramText wrapped borrowingText (borrowing ++ [returnMnemo]) := by
  have push : ("push", Tag.push) ∈ mnemoNames := by simp [mnemoNames]
  have mov : ("mov", Tag.mov) ∈ mnemoNames := by simp [mnemoNames]
  have pop : ("pop", Tag.pop) ∈ mnemoNames := by simp [mnemoNames]
  have ret : ("ret", Tag.ret) ∈ mnemoNames := by simp [mnemoNames]
  have rax : ("rax", Reg.rax) ∈ registerNames := by simp [registerNames]
  have rbx : ("rbx", Reg.rbx) ∈ registerNames := by simp [registerNames]
  have qword : ("QWORD", Width.qword) ∈ widthNames := by simp [widthNames]
  have sized : WidthText " QWORD ".toList .qword := .present 1 1 qword
  have seven : IntText .ten ['7'] 7 := .literal .plus (List.cons_ne_nil _ _) (List.all_eq_true.mp rfl)
  apply ProgramText.line (.line push sized (.one (.reg rbx)))
  apply ProgramText.line (.line mov sized (.two (.reg rbx) (.int seven rfl)))
  apply ProgramText.line (.line mov sized (.two (.reg rax) (.reg rbx)))
  apply ProgramText.line (.line pop sized (.one (.reg rbx)))
  exact ProgramText.line (.line ret (.absent 0) .none) .done

def borrowingCode : List u8 := [0x53, 0x48, 0xbb, 7, 0, 0, 0, 0, 0, 0, 0, 0x48, 0x89, 0xd8, 0x5b, 0xc3]

theorem eval_balanced_borrowing : ∃ final,
    run (Mnemo.effect (codeWindow 65536 borrowingCode)) (borrowing ++ [returnMnemo]) (caller.entry 65536 borrowingCode) =
        some (.exit ⟨caller.back, final⟩) ∧
      caller.Undisturbed (Pages.Covers 4096 ((paging 4096 65536).mmapPages 65536 (UInt64.ofNat borrowingCode.length)))
        (8 + 8) final ∧
      Evaluates (paging 4096 65536) (fun _ => result final) 4096 borrowingText 65536 borrowingCode (result final) := by
  have hosted : Hosted (paging 4096 65536) 4096 caller 65536 borrowingCode := paging_hosts (by decide) (by decide)
  have misses : (codeWindow (BitVec.ofNat 64 65536) borrowingCode).Misses (.below caller.store.top (8 + 8)) := by decide
  have assembled : assemble (borrowing ++ [returnMnemo]) = .ok borrowingCode := by decide
  obtain ⟨final, ran, -⟩ := @balanced_returns 8 _ borrowing_balanced (by decide) caller 65536 borrowingCode _ misses
  have calls := calls_result hosted (returning_executable borrowing_balanced) assembled ran
  obtain ⟨bytes, found, evaluates⟩ := eval_balanced borrowing_derives borrowing_balanced (by decide)
  obtain rfl : bytes = borrowingCode := Except.ok.inj (found.symm.trans assembled)
  obtain ⟨last, also, undisturbed, evaluated⟩ := evaluates _ _ caller 65536 _ hosted calls misses
  obtain rfl : last = final := (Machine.mk.inj (Outcome.exit.inj (Option.some.inj (also.symm.trans ran)))).2
  exact ⟨last, also, undisturbed, evaluated⟩

end Evaluations

end Cplastane
