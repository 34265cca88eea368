import Cplastane.Assembly.Assemble
import Cplastane.Assembly.Parse
import Cplastane.Jit

/-! The evaluator of `main.cpp`: a text is parsed, assembled and run. Whatever fails on
the way escapes, and what has been done to memory until then is kept. -/

namespace Cplastane
open Parsec Assembly Jit

inductive EvalThrow where
  | parsing (fault : Fault Throw)
  | unwrap
  | assembling (error : Throw)
  | running (error : JitThrow)
deriving DecidableEq, Repr

def EvalThrow.what : EvalThrow → Option String
  | parsing (.thrown error) | assembling error => some error.what
  | parsing _ => none
  | unwrap => some "called unwrap on an Error value"
  | running error => some error.what

abbrev Evaluation := ExceptT EvalThrow (StateM (List Effect))

def Evaluation.onto {α : Type} (evaluation : Evaluation α) (effects : List Effect) : Except EvalThrow α × List Effect :=
  evaluation.run.run effects

/-- `Result::value`. -/
def Result.value {ε α : Type} : Except ε α → Except EvalThrow α
  | .ok value => .ok value
  | .error _ => .error .unwrap

/-- The bytes at `vector::data`; there are none behind the last one. -/
def data (bytes : List u8) (i : Nat) : u8 := bytes.getD i 0

def escaping {ε α : Type} (wrap : ε → EvalThrow) (outcome : Except ε α) : Evaluation α :=
  ExceptT.mk (pure (outcome.mapError wrap))

def eval (kernel : Kernel) (func : Nat → i64) (s : Strive) : Evaluation i64 := do
  let parsed ← escaping .parsing (parse s)
  let mnemos := (← escaping id (Result.value parsed)).data
  let bytes ← escaping .assembling (assemble mnemos)
  ExceptT.adapt .running (evalMc kernel func (data bytes) (UInt64.ofNat bytes.length))

end Cplastane
