import Cplastane.Simulation

/-! Straight-line programs over any kind of command: what one run of a list of commands
does, step by step and as a whole, and how programs are reasoned about piece by piece. -/

namespace Straight
open Simulation

/-- A command ends in front of the next one, or leaves the program with a result, as a return does.
-/
inductive Outcome (σ ρ : Type) where
  | next (state : σ)
  | exit (result : ρ)
deriving DecidableEq, Repr

inductive Config (ι σ ρ : Type) where
  | running (rest : List ι) (state : σ)
  | left (result : ρ)

variable {ι σ ρ : Type}

def Outcome.before (rest : List ι) : Outcome σ ρ → Config ι σ ρ
  | next state => .running rest state
  | exit result => .left result

def Outcome.Holds (post : σ → Prop) (leave : ρ → Prop) : Outcome σ ρ → Prop
  | next state => post state
  | exit result => leave result

theorem Outcome.Holds.imp {post other : σ → Prop} {leave elsewhere : ρ → Prop} {outcome : Outcome σ ρ}
    (holds : outcome.Holds post leave) (implied : ∀ state, post state → other state)
    (left : ∀ result, leave result → elsewhere result) : outcome.Holds other elsewhere := by
  cases outcome with
  | next state => exact implied state holds
  | exit result => exact left result holds

section Runs

variable (effect : ι → σ → Option (Outcome σ ρ))

/-- A program is stuck where its next command is, and behind its last one: to end without leaving is
an error, not a result. -/
def step : Config ι σ ρ → Option (Config ι σ ρ)
  | .running (command :: rest) state => (effect command state).map (Outcome.before rest)
  | .running [] _ => none
  | .left _ => none

def run : List ι → σ → Option (Outcome σ ρ)
  | [], state => some (.next state)
  | command :: rest, state =>
    match effect command state with
    | some (.next next) => run rest next
    | some (.exit result) => some (.exit result)
    | none => none

/-- Total correctness. A run does not get stuck, and satisfies one of two postconditions, depending
on whether it comes to the end of the program or leaves it. -/
def Triple (pre : σ → Prop) (commands : List ι) (post : σ → Prop) (leave : ρ → Prop) : Prop :=
  ∀ state, pre state → ∃ outcome, run effect commands state = some outcome ∧ outcome.Holds post leave

variable {effect}

theorem run_cons_next {command : ι} {rest : List ι} {state next : σ}
    (taken : effect command state = some (.next next)) :
    run effect (command :: rest) state = run effect rest next := by
  simp [run, taken]

theorem run_cons_exit {command : ι} {rest : List ι} {state : σ} {result : ρ}
    (taken : effect command state = some (.exit result)) :
    run effect (command :: rest) state = some (.exit result) := by
  simp [run, taken]

/-- A run of a program that is not left goes on behind it. -/
theorem run_append (commands more : List ι) (state : σ) :
    run effect (commands ++ more) state =
      match run effect commands state with
      | some (.next next) => run effect more next
      | some (.exit result) => some (.exit result)
      | none => none := by
  induction commands generalizing state with
  | nil => rfl
  | cons command rest ih =>
    simp only [List.cons_append, run]
    rcases effect command state with _ | next | result
    · rfl
    · exact ih next
    · rfl

theorem steps_of_run {commands : List ι} {state : σ} {outcome : Outcome σ ρ}
    (ran : run effect commands state = some outcome) :
    ∃ n ≤ commands.length, steps (step effect) n (.running commands state) = some (outcome.before []) := by
  induction commands generalizing state with
  | nil =>
    cases ran
    exact ⟨0, Nat.le_refl 0, rfl⟩
  | cons command rest ih =>
    simp only [run] at ran
    split at ran
    next next taken =>
      obtain ⟨n, bound, reached⟩ := ih ran
      refine ⟨n + 1, Nat.succ_le_succ bound, steps_succ.mpr ⟨.running rest next, ?_, reached⟩⟩
      simp [step, taken, Outcome.before]
    next result taken =>
      cases ran
      refine ⟨1, Nat.succ_le_succ (Nat.zero_le _), steps_succ.mpr ⟨.left result, ?_, rfl⟩⟩
      simp [step, taken, Outcome.before]
    next => cases ran

theorem steps_of_run_next {commands : List ι} {state last : σ} (ran : run effect commands state = some (.next last)) :
    steps (step effect) commands.length (.running commands state) = some (.running [] last) := by
  induction commands generalizing state with
  | nil =>
    cases ran
    rfl
  | cons command rest ih =>
    simp only [run] at ran
    split at ran
    next next taken =>
      refine steps_succ.mpr ⟨.running rest next, ?_, ih ran⟩
      simp [step, taken, Outcome.before]
    next => cases ran
    next => cases ran

end Runs

section Rules

variable {effect : ι → σ → Option (Outcome σ ρ)} {pre middle post : σ → Prop} {leave : ρ → Prop}

theorem Triple.nil : Triple effect post [] post leave := fun state holds => ⟨.next state, rfl, holds⟩

theorem Triple.command {command : ι}
    (taken : ∀ state, pre state → ∃ outcome, effect command state = some outcome ∧ outcome.Holds post leave) :
    Triple effect pre [command] post leave := by
  intro state holds
  obtain ⟨outcome, acted, reached⟩ := taken state holds
  cases outcome with
  | next next => exact ⟨.next next, run_cons_next acted, reached⟩
  | exit result => exact ⟨.exit result, run_cons_exit acted, reached⟩

theorem Triple.append {commands more : List ι} (first : Triple effect pre commands middle leave)
    (rest : Triple effect middle more post leave) : Triple effect pre (commands ++ more) post leave := by
  intro state holds
  obtain ⟨outcome, ran, reached⟩ := first state holds
  rw [run_append, ran]
  cases outcome with
  | next next => exact rest next reached
  | exit result => exact ⟨.exit result, rfl, reached⟩

theorem Triple.cons {command : ι} {rest : List ι} (first : Triple effect pre [command] middle leave)
    (others : Triple effect middle rest post leave) : Triple effect pre (command :: rest) post leave :=
  first.append others

theorem Triple.consequence {stronger weaker : σ → Prop} {elsewhere : ρ → Prop} {commands : List ι}
    (triple : Triple effect pre commands post leave) (entails : ∀ state, stronger state → pre state)
    (implied : ∀ state, post state → weaker state) (left : ∀ result, leave result → elsewhere result) :
    Triple effect stronger commands weaker elsewhere := by
  intro state holds
  obtain ⟨outcome, ran, reached⟩ := triple state (entails state holds)
  exact ⟨outcome, ran, reached.imp implied left⟩

end Rules

end Straight
