import Cplastane.Assembly.Parse

/-! `unwrap_or_log_error` of `parse.hxx`. What has been printed before the exception is kept. -/

namespace Cplastane.Assembly
open Parsec

inductive LogThrow where
  | parsingError
deriving DecidableEq, Repr

def LogThrow.what : LogThrow → String
  | parsingError => "parsing error"

abbrev Logging := ExceptT (Fault LogThrow) (StateM (List Char))

variable {α : Type}

def Logging.onto (action : Logging α) (printed : List Char) : Except (Fault LogThrow) α × List Char := action.run.run printed

def output (text : List Char) : Logging Unit := modify (· ++ text)

def reading (result : Except (Fault LogThrow) α) : Logging α := ExceptT.mk (pure result)

/-- The loop over the characters of the cursor, from index `i` on. -/
def outputFrom (place : Strive) (i : Nat) : Logging Unit :=
  if i < place.size then do
    output [← reading (place.get i)]
    outputFrom place (i + 1)
  else return
termination_by place.size - i

def unwrapOrLogError (p : ParserResultResult α) : Logging (ParserResult α) :=
  match p with
  | .ok value => return value
  | .error error => do
    output "Parsing error:\n".toList
    output error.what.toList
    output "\n".toList
    output "Somewhere in:\n".toList
    outputFrom error.place 0
    output "\n".toList
    throw (.thrown .parsingError)

end Cplastane.Assembly
