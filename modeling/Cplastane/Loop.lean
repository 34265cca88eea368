/-! Loops as functions from a state to what one turn does with it. A variant that falls
with every turn that goes on bounds how often the body is run. -/

namespace Loop

/-- One turn of a loop with a break: it ends the loop at its condition, runs the body and leaves the
loop there, or runs the body and goes on. -/
inductive Turn (σ ρ : Type) where
  | done (result : ρ)
  | leave (result : ρ)
  | again (next : σ)

variable {σ ρ : Type}

def run (turn : σ → Turn σ ρ) : Nat → σ → Option ρ
  | 0, state =>
    match turn state with
    | .done result => some result
    | .leave _ | .again _ => none
  | bound + 1, state =>
    match turn state with
    | .done result | .leave result => some result
    | .again next => run turn bound next

section Variants

/-- What a turn owes to its loop. If it ends the loop, the result is the value of the state; if it
goes on, the invariant and the value are kept and the variant falls by at least `step`. -/
def Turn.Falls (invariant : σ → Prop) (value : σ → ρ) (variant : σ → Nat) (step : Nat) (state : σ) : Turn σ ρ → Prop
  | .done result | .leave result => value state = result
  | .again next => invariant next ∧ value next = value state ∧ variant next + step ≤ variant state

variable {turn : σ → Turn σ ρ} {invariant : σ → Prop} {value : σ → ρ} {variant : σ → Nat} {step : Nat}

theorem run_eq (falls : ∀ state, invariant state → (turn state).Falls invariant value variant step state) {bound : Nat}
    {state : σ} (start : invariant state) (enough : variant state < step * bound) :
    run turn bound state = some (value state) := by
  induction bound generalizing state with
  | zero => exact absurd enough (Nat.not_lt_zero _)
  | succ bound ih =>
    have taken := falls state start
    cases acted : turn state with
    | done result | leave result =>
      rw [acted] at taken
      simp only [run, acted]
      exact congrArg some taken.symm
    | again next =>
      rw [acted] at taken
      obtain ⟨kept, same, less⟩ := taken
      rw [Nat.mul_succ] at enough
      simp only [run, acted, ih kept (by omega), same]

/-- The body is run once for every time the variant can fall, and perhaps once more to leave. The
bound is part of the statement: the loop has ended within it. -/
theorem run_bounded (falls : ∀ state, invariant state → (turn state).Falls invariant value variant step state)
    (positive : 0 < step) {state : σ} (start : invariant state) :
    run turn (variant state / step + 1) state = some (value state) :=
  run_eq falls start (Nat.lt_mul_div_succ _ positive)

end Variants

end Loop
