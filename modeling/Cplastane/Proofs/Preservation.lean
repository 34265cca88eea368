import Cplastane.Proofs.Realization

/-! Whole programs on the processor. Loaded with the trap behind it, the code of an
executable program takes one step for each command, is never changed, and stops at the
trap if the program is not left before. -/

namespace Cplastane.Assembly
open X86 Straight Simulation

/-- `ud2`. -/
def trap : List u8 := [0x0f, 0x0b]

def codeWindow (place : BitVec 64) (bytes : List u8) : Window := ⟨place, (bytes ++ trap).length⟩

/-- The processor stands in front of the code of what is still to be run, with the same registers
and memory, and all the code is in its place. Once the program is left, it is the machine the
program was left with. -/
inductive Follows (mnemos : List Mnemo) (place : BitVec 64) (bytes : List u8) : Config Mnemo Store Machine → Machine → Prop where
  | running {before rest head tail store} (split : mnemos = before ++ rest) (first : assemble before = .ok head)
      (others : assemble rest = .ok tail) (whole : bytes = head ++ tail) (loaded : store.Holds place (bytes ++ trap)) :
      Follows mnemos place bytes (.running rest store) ⟨place + BitVec.ofNat 64 head.length, store⟩
  | left (machine : Machine) : Follows mnemos place bytes (.left machine) machine

section Lengths

variable {mnemo : Mnemo}

private theorem dispLength_le_four (disp : Disp) : dispLength disp ≤ 4 := by
  unfold dispLength
  split
  · exact Nat.zero_le 4
  split <;> decide

private theorem formBytes_length_le (memory : Memory) (base : Register) (sib : Option Fields) (reg : Fin 8) :
    (memory.formBytes base sib reg).length ≤ 6 := by
  have bound := dispLength_le_four memory.disp
  cases sib <;> simp [Memory.formBytes] <;> omega

private theorem prefixes_length_le (found : Prefixes) (one : ¬(found.operand = true ∧ found.rexW = true)) :
    found.bytes.length ≤ 2 := by
  obtain ⟨address, operand, rexW⟩ := found
  cases address <;> cases operand <;> cases rexW <;> simp [Prefixes.bytes] at one ⊢

private theorem sizePrefixes_one (size : Size) :
    ¬((sizePrefixes size).operand = true ∧ (sizePrefixes size).rexW = true) := by
  cases size <;> decide

private theorem stackPrefixes_one (width : Width) :
    ¬((stackPrefixes width).operand = true ∧ (stackPrefixes width).rexW = true) := by
  simp [stackPrefixes]

private theorem encodes_length_le {found : Prefixes} {opcode : u8} {body : List u8}
    (encodes : Encodes mnemo found opcode body) :
    found.bytes.length ≤ 2 ∧ body.length ≤ 10 := by
  have immediate (size : Size) : size.immediate ≤ 4 := by cases size <;> decide
  have full (size : Size) : size.bytes ≤ 8 := by cases size <;> decide
  cases encodes with
  | @regReg _ _ _ size _ _ _ _ => exact ⟨prefixes_length_le _ (sizePrefixes_one size), by simp⟩
  | @memReg _ _ _ size memory base sib _ _ _ _ _ _ =>
    exact ⟨prefixes_length_le _ (sizePrefixes_one size), Nat.le_trans (formBytes_length_le memory base sib _) (by decide)⟩
  | @regMem _ _ _ size _ _ memory base sib =>
    exact ⟨prefixes_length_le _ (sizePrefixes_one size), Nat.le_trans (formBytes_length_le memory base sib _) (by decide)⟩
  | @movRegImm _ size =>
    refine ⟨prefixes_length_le _ (sizePrefixes_one size), ?_⟩
    rw [littleEndian_length]
    exact Nat.le_trans (full size) (by decide)
  | @movMemImm _ size memory base sib | @addMemImm _ size memory base sib =>
    refine ⟨prefixes_length_le _ (sizePrefixes_one size), ?_⟩
    rw [List.length_append, littleEndian_length]
    exact Nat.add_le_add (formBytes_length_le memory base sib 0) (immediate size)
  | @addRegShort _ size => exact ⟨prefixes_length_le _ (sizePrefixes_one size), by simp⟩
  | @addAccumulator _ size =>
    refine ⟨prefixes_length_le _ (sizePrefixes_one size), ?_⟩
    rw [littleEndian_length]
    exact Nat.le_trans (immediate size) (by decide)
  | @addRegImm _ size =>
    refine ⟨prefixes_length_le _ (sizePrefixes_one size), ?_⟩
    rw [List.length_cons, littleEndian_length]
    exact Nat.le_trans (Nat.succ_le_succ (immediate size)) (by decide)
  | @stackReg _ _ width => exact ⟨prefixes_length_le _ (stackPrefixes_one width), by simp⟩
  | @stackMem _ _ width memory base sib =>
    exact ⟨prefixes_length_le _ (stackPrefixes_one width), Nat.le_trans (formBytes_length_le memory base sib _) (by decide)⟩
  | @pushImm _ size =>
    refine ⟨prefixes_length_le _ (sizePrefixes_one size), ?_⟩
    rw [littleEndian_length]
    exact Nat.le_trans (full size) (by decide)
  | ret => exact ⟨Nat.zero_le 2, Nat.zero_le 10⟩

theorem accepted_length {bytes : List u8} (accepted : assemble [mnemo] = .ok bytes) :
    0 < bytes.length ∧ bytes.length ≤ 13 := by
  obtain ⟨-, found, opcode, body, encodes, rfl⟩ := (assemble_singleton_ok_iff mnemo bytes).mp accepted
  have bounds := encodes_length_le encodes
  simp only [encodingBytes, List.length_append, List.length_cons]
  omega

end Lengths

section Frames

variable {code : Window} {store after : Store} {mnemo : Mnemo}

def KeepsCode (code : Window) (store after : Store) : Prop :=
  after.load code.place code.size = store.load code.place code.size

private theorem saveOutside_keeps {place : BitVec 64} {bytes : List u8}
    (saved : saveOutside code store place bytes = some after) :
    KeepsCode code store after := by
  unfold saveOutside at saved
  split at saved
  next misses =>
    cases saved
    exact Store.load_save misses
  next => cases saved

private theorem Arg.write_keeps {arg : Arg} {size : Size} {value : Int}
    (written : arg.write code size value store = some after) :
    KeepsCode code store after := by
  cases arg with
  | undef | immediate => cases written
  | register reg =>
    simp only [Arg.write, Option.bind_eq_bind, Option.bind_eq_some_iff] at written
    obtain ⟨register, -, same⟩ := written
    cases same
    rfl
  | memory place =>
    simp only [Arg.write, Option.bind_eq_bind, Option.bind_eq_some_iff] at written
    obtain ⟨address, -, saved⟩ := written
    exact saveOutside_keeps saved

private theorem effect_keeps {outcome : Outcome Store Machine} (acted : mnemo.effect code store = some outcome) :
    outcome.Holds (KeepsCode code store) (KeepsCode code store ·.store) := by
  have updated {operation : Operation} (acted : mnemo.update code operation store = some outcome) :
      outcome.Holds (KeepsCode code store) (KeepsCode code store ·.store) := by
    simp only [Mnemo.update, Option.bind_eq_bind, Option.bind_eq_some_iff] at acted
    obtain ⟨size, -, old, -, value, -, after, written, same⟩ := acted
    cases same
    exact Arg.write_keeps written
  unfold Mnemo.effect at acted
  split at acted
  · exact updated acted
  · exact updated acted
  · simp only [Option.bind_eq_bind, Option.bind_eq_some_iff] at acted
    obtain ⟨size, -, value, -, after, saved, same⟩ := acted
    cases same
    exact (saveOutside_keeps saved).trans (store.load_lower size _ _)
  · simp only [Option.bind_eq_bind, Option.bind_eq_some_iff] at acted
    obtain ⟨size, -, after, written, same⟩ := acted
    cases same
    exact (Arg.write_keeps written).trans (store.load_raise size _ _)
  · cases acted
    exact store.load_raise .qword _ _
  · cases acted

end Frames

section Runs

variable {mnemos : List Mnemo} {place : BitVec 64} {bytes : List u8}

private theorem holds_code {head own tail : List u8} {store : Store}
    (loaded : store.Holds place (head ++ (own ++ tail) ++ trap)) :
    store.Holds (place + BitVec.ofNat 64 head.length) own := by
  rw [List.append_assoc, List.append_assoc] at loaded
  exact ((Store.holds_append own (tail ++ trap)).mp ((Store.holds_append head _).mp loaded).2).1

/-- Every command of an executable program is one step of the processor. -/
theorem executable_lockstep (executable : ∀ mnemo ∈ mnemos, Executable mnemo) :
    Lockstep (Straight.step (Mnemo.effect (codeWindow place bytes))) Machine.step (Follows mnemos place bytes) := by
  intro config machine next follows taken
  cases follows with
  | left => cases taken
  | @running before rest head tail store split first others whole loaded =>
    cases rest with
    | nil => cases taken
    | cons mnemo rest =>
      obtain ⟨outcome, acted, rfl⟩ := Option.map_eq_some_iff.mp taken
      obtain ⟨own, remaining, accepted, assembled, rfl⟩ := (assemble_cons_ok_iff mnemo rest tail).mp others
      rw [← assemble_singleton] at accepted
      obtain ⟨code, same, instruction, decoded, does⟩ :=
        (executable mnemo (split ▸ List.mem_append_right before List.mem_cons_self)).realizes
      cases accepted.symm.trans same
      subst whole
      have short := Nat.le_trans (accepted_length accepted).2 (show 13 ≤ 15 by decide)
      refine ⟨_, Machine.step_code decoded short (holds_code loaded), ?_⟩
      rw [does _ _ _ acted]
      cases outcome with
      | exit result => exact .left result
      | next after =>
        have moved : place + BitVec.ofNat 64 head.length + BitVec.ofNat 64 own.length =
            place + BitVec.ofNat 64 (head ++ own).length := by
          rw [List.length_append, BitVec.ofNat_add, BitVec.add_assoc]
        have kept : after.Holds place (head ++ (own ++ remaining) ++ trap) := (effect_keeps acted).trans loaded
        have advanced : assemble (before ++ [mnemo]) = .ok (head ++ own) :=
          (assemble_append_ok_iff before [mnemo] _).mpr ⟨head, own, first, accepted, rfl⟩
        simp only [machineAt, Outcome.before, moved]
        exact .running (by rw [split, List.append_assoc]; rfl) advanced assembled (List.append_assoc _ _ _).symm kept

theorem executable_assembles (executable : ∀ mnemo ∈ mnemos, Executable mnemo) :
    ∃ bytes, assemble mnemos = .ok bytes := by
  induction mnemos with
  | nil => exact ⟨[], rfl⟩
  | cons mnemo mnemos ih =>
    obtain ⟨code, accepted, -⟩ := (executable mnemo List.mem_cons_self).realizes
    obtain ⟨rest, assembled⟩ := ih fun other member => executable other (List.mem_cons_of_mem mnemo member)
    exact ⟨code ++ rest, (assemble_cons_ok_iff mnemo mnemos _).mpr ⟨code, rest, by rwa [← assemble_singleton], assembled, rfl⟩⟩

theorem Follows.start (assembled : assemble mnemos = .ok bytes) {store : Store}
    (loaded : store.Holds place (bytes ++ trap)) :
    Follows mnemos place bytes (.running mnemos store) ⟨place, store⟩ := by
  have start : assemble [] = .ok [] := rfl
  have follows : Follows mnemos place bytes (.running mnemos store) ⟨place + BitVec.ofNat 64 ([] : List u8).length, store⟩ :=
    .running rfl start assembled rfl loaded
  rwa [List.length_nil, BitVec.add_zero] at follows

/-- The processor can follow a program through everything it does. -/
theorem follows_steps (executable : ∀ mnemo ∈ mnemos, Executable mnemo) (assembled : assemble mnemos = .ok bytes)
    {store : Store} (loaded : store.Holds place (bytes ++ trap)) {n : Nat} {config : Config Mnemo Store Machine}
    (ran : steps (Straight.step (Mnemo.effect (codeWindow place bytes))) n (.running mnemos store) = some config) :
    ∃ machine, steps Machine.step n ⟨place, store⟩ = some machine ∧ Follows mnemos place bytes config machine :=
  (executable_lockstep executable).steps (Follows.start assembled loaded) ran

theorem Follows.trapped {store : Store} {machine : Machine}
    (follows : Follows mnemos place bytes (.running [] store) machine) :
    machine = ⟨place + BitVec.ofNat 64 bytes.length, store⟩ ∧ store.Holds (place + BitVec.ofNat 64 bytes.length) trap := by
  cases follows with
  | @running before rest head tail _ split first others whole loaded =>
    cases others
    rw [List.append_nil] at whole
    subst whole
    exact ⟨rfl, ((Store.holds_append bytes trap).mp loaded).2⟩

theorem Follows.inside {rest : List Mnemo} {store : Store} {machine : Machine}
    (follows : Follows mnemos place bytes (.running rest store) machine) :
    ∃ offset ≤ bytes.length, machine.ip = place + BitVec.ofNat 64 offset := by
  cases follows with
  | @running before _ head tail _ split first others whole loaded =>
    subst whole
    exact ⟨head.length, by simp, rfl⟩

/-- What a program is left with is what the processor has come to, and it has been inside the code
until then: the return is the first thing that leads out. -/
theorem follows_exit (executable : ∀ mnemo ∈ mnemos, Executable mnemo) (assembled : assemble mnemos = .ok bytes)
    {store : Store} (loaded : store.Holds place (bytes ++ trap)) {machine : Machine}
    (ran : run (Mnemo.effect (codeWindow place bytes)) mnemos store = some (.exit machine)) :
    ∃ n ≤ mnemos.length, steps Machine.step n ⟨place, store⟩ = some machine ∧
      ∀ k < n, ∀ other, steps Machine.step k ⟨place, store⟩ = some other →
        ∃ offset ≤ bytes.length, other.ip = place + BitVec.ofNat 64 offset := by
  obtain ⟨n, bound, reached⟩ := steps_of_run ran
  obtain ⟨final, followed, follows⟩ := follows_steps executable assembled loaded reached
  cases follows
  refine ⟨n, bound, followed, fun k earlier other passed => ?_⟩
  obtain ⟨more, rfl⟩ := Nat.exists_eq_add_of_lt earlier
  rw [Nat.add_assoc] at reached
  obtain ⟨middle, early, late⟩ := steps_add.mp reached
  obtain ⟨next, taken, -⟩ := steps_succ.mp late
  obtain ⟨same, also, follows⟩ := follows_steps executable assembled loaded early
  cases passed.symm.trans also
  cases middle with
  | running rest store => exact follows.inside
  | left result => cases taken

/-- A program that is not left runs into the trap, with the registers and the memory it
has computed. -/
theorem follows_next (executable : ∀ mnemo ∈ mnemos, Executable mnemo) (assembled : assemble mnemos = .ok bytes)
    {store final : Store} (loaded : store.Holds place (bytes ++ trap))
    (ran : run (Mnemo.effect (codeWindow place bytes)) mnemos store = some (.next final)) :
    steps Machine.step mnemos.length ⟨place, store⟩ = some ⟨place + BitVec.ofNat 64 bytes.length, final⟩ ∧
      final.Holds (place + BitVec.ofNat 64 bytes.length) trap := by
  obtain ⟨machine, followed, follows⟩ := follows_steps executable assembled loaded (steps_of_run_next ran)
  obtain ⟨rfl, trapped⟩ := follows.trapped
  exact ⟨followed, trapped⟩

end Runs

/-- Executable programs are accepted, and wherever their code is loaded with the trap behind
it, the processor follows them step by step, with the same registers and memory in every
state on the way. -/
theorem execution_follows (mnemos : List Mnemo) (executable : ∀ mnemo ∈ mnemos, Executable mnemo) :
    ∃ bytes, assemble mnemos = .ok bytes ∧ ∀ place store, store.Holds place (bytes ++ trap) →
      ∀ n config, steps (Straight.step (Mnemo.effect (codeWindow place bytes))) n (.running mnemos store) = some config →
        ∃ machine, steps Machine.step n ⟨place, store⟩ = some machine ∧ Follows mnemos place bytes config machine := by
  obtain ⟨bytes, assembled⟩ := executable_assembles executable
  refine ⟨bytes, assembled, fun place store loaded n config ran => ?_⟩
  exact follows_steps executable assembled loaded ran

theorem execution_follows_push : ∃ bytes,
    assemble [⟨.push, .byte, .immediate 7, .undef⟩, ⟨.pop, .qword, .register .rax, .undef⟩] = .ok bytes ∧
      ∀ place store, store.Holds place (bytes ++ trap) → ∀ n config,
        steps (Straight.step (Mnemo.effect (codeWindow place bytes))) n
            (.running [⟨.push, .byte, .immediate 7, .undef⟩, ⟨.pop, .qword, .register .rax, .undef⟩] store) = some config →
          ∃ machine, steps Machine.step n ⟨place, store⟩ = some machine ∧
            Follows [⟨.push, .byte, .immediate 7, .undef⟩, ⟨.pop, .qword, .register .rax, .undef⟩] place bytes config machine := by
  apply execution_follows
  simp only [List.forall_mem_cons, List.not_mem_nil, false_implies, implies_true, and_true]
  exact ⟨.supported (.pushImm (.inl rfl)) ⟨by decide, by decide⟩, .supported (.stackReg (.inr rfl) (.inr rfl) rfl) trivial⟩

section Results

variable {mnemos : List Mnemo} {place : BitVec 64} {bytes : List u8}

/-- A program that is not left runs into the trap: after one step for each command, and not
further. -/
theorem unreturned_program_traps {store final : Store} (executable : ∀ mnemo ∈ mnemos, Executable mnemo)
    (assembled : assemble mnemos = .ok bytes) (loaded : store.Holds place (bytes ++ trap))
    (ran : run (Mnemo.effect (codeWindow place bytes)) mnemos store = some (.next final)) :
    steps Machine.step mnemos.length ⟨place, store⟩ = some ⟨place + BitVec.ofNat 64 bytes.length, final⟩ ∧
      final.Holds (place + BitVec.ofNat 64 bytes.length) trap ∧
      ∀ n, mnemos.length < n → steps Machine.step n ⟨place, store⟩ = none := by
  obtain ⟨followed, trapped⟩ := follows_next executable assembled loaded ran
  exact ⟨followed, trapped, fun n longer => steps_stuck followed (Machine.step_trap trapped) longer⟩

/-- Total correctness of a program is total correctness of its code. -/
theorem triple_on_processor {pre post : Store → Prop} {leave : Machine → Prop}
    (executable : ∀ mnemo ∈ mnemos, Executable mnemo) (assembled : assemble mnemos = .ok bytes)
    (triple : Triple (Mnemo.effect (codeWindow place bytes)) pre mnemos post leave) {store : Store}
    (loaded : store.Holds place (bytes ++ trap)) (holds : pre store) :
    ∃ n ≤ mnemos.length, ∃ machine, steps Machine.step n ⟨place, store⟩ = some machine ∧
      (leave machine ∨ machine.ip = place + BitVec.ofNat 64 bytes.length ∧ post machine.store ∧ machine.step = none) := by
  obtain ⟨outcome, ran, reached⟩ := triple store holds
  cases outcome with
  | next final =>
    obtain ⟨followed, trapped⟩ := follows_next executable assembled loaded ran
    exact ⟨mnemos.length, Nat.le_refl _, _, followed, .inr ⟨rfl, reached, Machine.step_trap trapped⟩⟩
  | exit machine =>
    obtain ⟨n, bound, followed, -⟩ := follows_exit executable assembled loaded ran
    exact ⟨n, bound, machine, followed, .inl reached⟩

def onlyCode (place : BitVec 64) (bytes : List u8) : Store := Store.save ⟨fun _ => 0, fun _ => 0⟩ place (bytes ++ trap)

theorem onlyCode_holds (place : BitVec 64) {bytes : List u8} (short : (bytes ++ trap).length ≤ 2 ^ 64) :
    (onlyCode place bytes).Holds place (bytes ++ trap) := Store.save_holds _ place short

private theorem mov_executable (n : Imm) :
    ∀ mnemo ∈ [Mnemo.mk .mov .qword (.register .rax) (.immediate n)], Executable mnemo := by
  simp only [List.forall_mem_cons, List.not_mem_nil, false_implies, implies_true, and_true]
  exact .supported (.movRegImm rfl) trivial

theorem unreturned_program_traps_mov :
    steps Machine.step 1 ⟨65536, onlyCode 65536 [0x48, 0xb8, 7, 0, 0, 0, 0, 0, 0, 0]⟩ =
        some ⟨65536 + 10, (onlyCode 65536 [0x48, 0xb8, 7, 0, 0, 0, 0, 0, 0, 0]).write (.gp .qword 0) 7⟩ ∧
      ((onlyCode 65536 [0x48, 0xb8, 7, 0, 0, 0, 0, 0, 0, 0]).write (.gp .qword 0) 7).Holds (65536 + 10) trap ∧
      ∀ n, 1 < n → steps Machine.step n ⟨65536, onlyCode 65536 [0x48, 0xb8, 7, 0, 0, 0, 0, 0, 0, 0]⟩ = none :=
  unreturned_program_traps (mov_executable 7) (by decide) (onlyCode_holds _ (by decide)) rfl

theorem triple_on_processor_mov : ∃ n ≤ 1, ∃ machine,
    steps Machine.step n ⟨65536, onlyCode 65536 [0x48, 0xb8, 7, 0, 0, 0, 0, 0, 0, 0]⟩ = some machine ∧
      (False ∨ machine.ip = 65536 + 10 ∧ (machine.store.read (.gp .qword 0) = 7) ∧ machine.step = none) := by
  refine @triple_on_processor _ 65536 _ (fun _ => True) (fun store => store.read (.gp .qword 0) = 7) (fun _ => False)
    (mov_executable 7) (by decide) ?_ _ (onlyCode_holds _ (by decide)) trivial
  apply Triple.command
  intro store _
  refine ⟨.next (store.write (.gp .qword 0) 7), rfl, ?_⟩
  exact Int.ofNat_inj.mp (store.read_write (.gp .qword 0) 7)

end Results

end Cplastane.Assembly
