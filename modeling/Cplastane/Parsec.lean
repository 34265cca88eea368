import Cplastane.Assembly.Mnemo

/-! The combinators of `parsec.hxx` and `parsec.cxx`. The cursor checks nothing in
the source; here every access outside of it is a fault of its own. -/

namespace Cplastane.Parsec

/-- How a run can fail to return: by an exception, by reading outside of its cursor, or by a loop
that makes no progress. The parser is shown to do neither of the last two. -/
inductive Fault (ε : Type) where
  | thrown (error : ε)
  | outOfBounds
  | diverges
deriving DecidableEq, Repr

/-- `strive`: the `size` characters of `s` from index `start` on. -/
structure Strive where
  s : List Char
  start : Nat
  size : Nat
deriving DecidableEq, Repr

namespace Strive

def ofText (s : List Char) : Strive := ⟨s, 0, s.length⟩

def ofString (s : String) : Strive := ofText s.toList

variable {ε : Type}

def empty (tail : Strive) : Bool := tail.size = 0

def get (tail : Strive) (i : Nat) : Except (Fault ε) Char :=
  if i < tail.size then
    match tail.s[tail.start + i]? with
    | some c => .ok c
    | none => .error .outOfBounds
  else .error .outOfBounds

def front (tail : Strive) : Except (Fault ε) Char := tail.get 0

def substr (tail : Strive) (i : Nat) : Except (Fault ε) Strive :=
  if i ≤ tail.size then .ok ⟨tail.s, tail.start + i, tail.size - i⟩ else .error .outOfBounds

theorem substr_size {tail rest : Strive} {i : Nat} (moved : tail.substr i = (.ok rest : Except (Fault ε) Strive)) :
    rest.size = tail.size - i := by
  unfold substr at moved
  split at moved
  · cases moved
    rfl
  · cases moved

end Strive

structure ParserResult (α : Type) where
  tail : Strive
  data : α
deriving DecidableEq, Repr

abbrev OptionParserResult (α : Type) := Option (ParserResult α)

variable {ε α : Type}

def skipWhileChar (tail : Strive) (predicate : Char → Bool) : Except (Fault ε) (ParserResult Unit) :=
  if _ : tail.empty then .ok ⟨tail, ()⟩
  else
    match tail.front with
    | .error fault => .error fault
    | .ok c =>
      if predicate c then
        match _ : (tail.substr 1 : Except (Fault ε) Strive) with
        | .error fault => .error fault
        | .ok rest => skipWhileChar rest predicate
      else .ok ⟨tail, ()⟩
termination_by tail.size
decreasing_by
  have smaller := Strive.substr_size ‹_›
  have some : ¬tail.empty := ‹_›
  simp only [Strive.empty, decide_eq_true_eq] at some
  omega

def scanChar (tail : Strive) : Except (Fault ε) (OptionParserResult Char) := do
  if tail.empty then
    return none
  return some ⟨← tail.substr 1, ← tail.front⟩

def consumePrefixChar (tail : Strive) (pre : Char) : Except (Fault ε) (OptionParserResult Unit) := do
  match ← scanChar tail with
  | some result1 =>
    let tail := result1.tail
    let c := result1.data
    if c = pre then
      return some ⟨tail, ()⟩
    else
      return none
  | none => return none

/-- The comparison loop of `consume_prefix_str`, from index `i` on. -/
def samePrefix (tail pre : Strive) (i : Nat) : Except (Fault ε) Bool :=
  if i < pre.size then do
    if (← tail.get i) ≠ (← pre.get i) then
      return false
    samePrefix tail pre (i + 1)
  else .ok true
termination_by pre.size - i

def consumePrefixStr (tail pre : Strive) (onSuccess : α) : Except (Fault ε) (OptionParserResult α) := do
  if tail.size < pre.size then
    return none
  if ¬(← samePrefix tail pre 0) then
    return none
  return some ⟨← tail.substr pre.size, onSuccess⟩

def isDecDigit (c : Char) : Bool := '0' ≤ c && c ≤ '9'

def isHexDigit (c : Char) : Bool := isDecDigit c || ('A' ≤ c && c ≤ 'F')

/-- Assumes that c is a dec digit. -/
def decDigitToInt (c : Char) : i64 := Int64.ofInt (c.toNat - '0'.toNat)

/-- Assumes that c is a hex digit. -/
def hexDigitToInt (c : Char) : i64 :=
  if isDecDigit c then decDigitToInt c else Int64.ofInt (c.toNat + 10 - 'A'.toNat)

/-- The base that `parse_positive_i64` is instantiated with. -/
inductive Base where
  | ten
  | sixteen
deriving DecidableEq, Repr

namespace Base

def isDigit : Base → Char → Bool
  | ten => isDecDigit
  | sixteen => isHexDigit

def digitToInt : Base → Char → i64
  | ten => decDigitToInt
  | sixteen => hexDigitToInt

def toInt : Base → i64
  | ten => 10
  | sixteen => 16

end Base

/-- The loop of `parse_positive_i64`. Each iteration slices off one char; the
arithmetic wraps around. -/
def parseDigits (base : Base) (tail : Strive) (result : i64) : Except (Fault ε) (ParserResult i64) :=
  if _ : tail.empty then .ok ⟨tail, result⟩
  else
    match tail.front with
    | .error fault => .error fault
    | .ok c =>
      if base.isDigit c then
        match _ : (tail.substr 1 : Except (Fault ε) Strive) with
        | .error fault => .error fault
        | .ok rest => parseDigits base rest (result * base.toInt + base.digitToInt c)
      else .ok ⟨tail, result⟩
termination_by tail.size
decreasing_by
  have smaller := Strive.substr_size ‹_›
  have some : ¬tail.empty := ‹_›
  simp only [Strive.empty, decide_eq_true_eq] at some
  omega

def parsePositiveI64 (base : Base) (tail : Strive) : Except (Fault ε) (OptionParserResult i64) := do
  if tail.empty then
    return none
  if ¬base.isDigit (← tail.front) then
    return none
  return some (← parseDigits base tail 0)

/-- The sign of `parse_i64`. -/
def consumeSign (tail : Strive) : Except (Fault ε) (Strive × i64) := do
  if (← tail.front) = '-' then
    return (← tail.substr 1, -1)
  return (tail, 1)

/-- The base of `parse_i64`. -/
def consumeBase (tail : Strive) : Except (Fault ε) (Strive × Base) := do
  if tail.size ≥ 2 then
    if (← tail.get 0) = '0' ∧ (← tail.get 1) = 'x' then
      return (← tail.substr 2, .sixteen)
  return (tail, .ten)

def parseI64 (tail : Strive) : Except (Fault ε) (OptionParserResult i64) := do
  if tail.empty then
    return none
  let (tail, sign) ← consumeSign tail
  let (tail, base) ← consumeBase tail
  match ← parsePositiveI64 base tail with
  | some a => return some ⟨a.tail, a.data * sign⟩
  | none => return none

end Cplastane.Parsec
