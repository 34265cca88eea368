/-! Systems that take one step after another until they are stuck, and how one of them
follows another in lock step. -/

namespace Simulation

variable {σ τ : Type}

/-- The state after so many steps, if none of them is stuck. A system is no more than its step
function, for processors as well as for programs. -/
def steps (step : σ → Option σ) : Nat → σ → Option σ
  | 0, state => some state
  | n + 1, state => step state >>= steps step n

variable {step : σ → Option σ} {first : σ → Option σ} {second : τ → Option τ}

@[simp] theorem steps_zero (state : σ) : steps step 0 state = some state := rfl

theorem steps_succ {n : Nat} {state last : σ} :
    steps step (n + 1) state = some last ↔ ∃ next, step state = some next ∧ steps step n next = some last := by
  simp [steps, Option.bind_eq_some_iff]

theorem steps_add {n m : Nat} {state last : σ} :
    steps step (n + m) state = some last ↔ ∃ middle, steps step n state = some middle ∧ steps step m middle = some last := by
  induction n generalizing state with
  | zero => simp
  | succ n ih =>
    rw [Nat.add_right_comm, steps_succ]
    simp only [steps_succ, ih]
    constructor
    · intro run
      obtain ⟨next, taken, middle, early, late⟩ := run
      exact ⟨middle, ⟨next, taken, early⟩, late⟩
    · intro run
      obtain ⟨middle, ⟨next, taken, early⟩, late⟩ := run
      exact ⟨next, taken, middle, early, late⟩

/-- What steps change only where they touch it stays as it was on an untouched way. What the view is
of the state, and what touching means, is left to the caller. -/
theorem steps_frame {α : Type} {view : σ → α} {touches : σ → Prop}
    (frame : ∀ state next, step state = some next → ¬touches state → view next = view state) {n : Nat} {state last : σ}
    (run : steps step n state = some last)
    (untouched : ∀ k < n, ∀ middle, steps step k state = some middle → ¬touches middle) : view last = view state := by
  induction n generalizing state with
  | zero =>
    cases run
    rfl
  | succ n ih =>
    obtain ⟨next, taken, rest⟩ := steps_succ.mp run
    have later (k : Nat) (before : k < n) (middle : σ) (passed : steps step k next = some middle) : ¬touches middle :=
      untouched (k + 1) (Nat.succ_lt_succ before) middle (steps_succ.mpr ⟨next, taken, passed⟩)
    calc
      view last = view next := ih rest later
      _ = view state := frame state next taken (untouched 0 (Nat.succ_pos n) state rfl)

theorem steps_stuck {n m : Nat} {state last : σ} (run : steps step n state = some last) (stuck : step last = none)
    (later : n < m) : steps step m state = none := by
  obtain ⟨more, rfl⟩ := Nat.exists_eq_add_of_lt later
  rw [Option.eq_none_iff_forall_ne_some]
  intro final longer
  rw [Nat.add_assoc] at longer
  obtain ⟨middle, early, late⟩ := steps_add.mp longer
  cases run.symm.trans early
  obtain ⟨next, taken, -⟩ := steps_succ.mp late
  rw [stuck] at taken
  cases taken

/-- Out of related states, every step of the first system is one of the second. Nothing is asked
where the first one is stuck, so the second may be able to do more. -/
def Lockstep (first : σ → Option σ) (second : τ → Option τ) (related : σ → τ → Prop) : Prop :=
  ∀ state other next, related state other → first state = some next → ∃ after, second other = some after ∧ related next after

theorem Lockstep.steps {related : σ → τ → Prop} (follows : Lockstep first second related) {n : Nat} {state last : σ}
    {other : τ} (start : related state other) (run : steps first n state = some last) :
    ∃ final, Simulation.steps second n other = some final ∧ related last final := by
  induction n generalizing state other with
  | zero =>
    cases run
    exact ⟨other, rfl, start⟩
  | succ n ih =>
    obtain ⟨next, taken, rest⟩ := steps_succ.mp run
    obtain ⟨after, followed, kept⟩ := follows state other next start taken
    obtain ⟨final, remaining, reached⟩ := ih kept rest
    exact ⟨final, steps_succ.mpr ⟨after, followed, remaining⟩, reached⟩

end Simulation
