import Cplastane.Assembly.Grammar
import Cplastane.Assembly.Reader
import Cplastane.Exceptions

/-! Every reading is a derivation: what a reader consumes is derived by the grammar
with wrapped numerals, and the text splits into it and the rest. -/

namespace Cplastane.Assembly
open Parsec Text Exceptions

theorem isDecDigit_iff (c : Char) : isDecDigit c = true ↔ '0'.toNat ≤ c.toNat ∧ c.toNat ≤ '9'.toNat := by
  simp only [isDecDigit, Bool.and_eq_true, decide_eq_true_eq, Char.le_def, UInt32.le_iff_toNat_le]
  rfl

theorem isHexDigit_iff (c : Char) :
    isHexDigit c = true ↔ isDecDigit c = true ∨ ('A'.toNat ≤ c.toNat ∧ c.toNat ≤ 'F'.toNat) := by
  simp only [isHexDigit, Bool.or_eq_true, Bool.and_eq_true, decide_eq_true_eq, Char.le_def, UInt32.le_iff_toNat_le]
  rfl

private theorem decDigitToInt_eq {c : Char} (digit : isDecDigit c = true) :
    decDigitToInt c = Int64.ofInt (Base.digitValue c) := by
  have bound := ((isDecDigit_iff c).mp digit).1
  rw [decDigitToInt, Base.digitValue, if_pos digit, Int.ofNat_sub bound]

theorem digitToInt_eq (base : Base) {c : Char} (digit : base.isDigit c = true) :
    base.digitToInt c = Int64.ofInt (Base.digitValue c) := by
  cases base with
  | ten => exact decDigitToInt_eq digit
  | sixteen =>
    change hexDigitToInt c = _
    unfold hexDigitToInt
    by_cases decimal : isDecDigit c = true
    · rw [if_pos decimal]
      exact decDigitToInt_eq decimal
    · have bound : 'A'.toNat ≤ c.toNat := (((isHexDigit_iff c).mp digit).resolve_left decimal).1
      rw [if_neg decimal, Base.digitValue, if_neg decimal]
      congr 1
      omega

theorem toInt_eq (base : Base) : base.toInt = Int64.ofInt base.radix := by
  cases base <;> rfl

/-- The wrapping accumulation computes the positional value modulo 2 ^ 64. -/
theorem accumulate_eq (base : Base) (digits : List Char) (all : ∀ c ∈ digits, base.isDigit c = true) (start : Nat) :
    digits.foldl (fun result c => result * base.toInt + base.digitToInt c) (Int64.ofInt start) =
      Int64.ofInt (digits.foldl (fun value c => value * base.radix + Base.digitValue c) start : Nat) := by
  induction digits generalizing start with
  | nil => rfl
  | cons c digits ih =>
    have step : Int64.ofInt start * base.toInt + base.digitToInt c =
        Int64.ofInt (start * base.radix + Base.digitValue c : Nat) := by
      rw [toInt_eq, digitToInt_eq base (all c List.mem_cons_self), ← Int64.ofInt_mul, ← Int64.ofInt_add]
      push_cast
      rfl
    rw [List.foldl_cons, List.foldl_cons, step]
    exact ih (fun d member => all d (List.mem_cons_of_mem c member)) _

private theorem readDigits_sound {base : Base} {text tail : List Char} {n : i64}
    (read : readDigits base text = some (n, tail)) :
    ∃ digits, digits ≠ [] ∧ (∀ c ∈ digits, base.isDigit c = true) ∧ text = digits ++ tail ∧
      n = Int64.ofInt (base.positional digits) ∧ Stops base.isDigit tail := by
  unfold readDigits at read
  split at read
  next digit =>
    cases read
    have all : ∀ c ∈ text.takeWhile base.isDigit, base.isDigit c = true := fun c => List.mem_takeWhile_imp
    refine ⟨text.takeWhile base.isDigit, ?_, all, List.takeWhile_append_dropWhile.symm, accumulate_eq base _ all 0, ?_⟩
    · cases text with
      | nil => cases digit
      | cons c text => simp_all
    · exact stops_dropWhile _ text
  · cases read

private theorem readSign_sound (text : List Char) :
    ∃ sign factor, SignText sign factor ∧ text = sign ++ (readSign text).2 ∧ (readSign text).1 = Int64.ofInt factor := by
  unfold readSign
  split
  next rest found => exact ⟨_, _, .minus, dropPrefix_iff.mp found, rfl⟩
  next => exact ⟨_, _, .plus, rfl, rfl⟩

private theorem readBase_sound (text : List Char) : text = (readBase text).1.marker ++ (readBase text).2 := by
  unfold readBase
  split
  next rest found => exact dropPrefix_iff.mp found
  next => rfl

theorem readInt_sound {text tail : List Char} {n : i64} (read : readInt text = some (n, tail)) :
    ∃ base literal value, IntText base literal value ∧ text = literal ++ tail ∧ n = Int64.ofInt value ∧
      Stops base.isDigit tail := by
  simp only [readInt, Option.bind_eq_bind, Option.bind_eq_some_iff, Prod.exists] at read
  obtain ⟨result, rest, digitsRead, same⟩ := read
  cases same
  obtain ⟨sign, factor, signed, signSplit, factorEq⟩ := readSign_sound text
  obtain ⟨digits, some, all, split, rfl, stops⟩ := readDigits_sound digitsRead
  refine ⟨_, _, _, .literal signed some all, ?_, ?_, stops⟩
  · calc
      text = sign ++ (readSign text).2 := signSplit
      _ = sign ++ ((readBase (readSign text).2).1.marker ++ (readBase (readSign text).2).2) :=
        congrArg (sign ++ ·) (readBase_sound _)
      _ = sign ++ ((readBase (readSign text).2).1.marker ++ (digits ++ tail)) := by rw [split]
      _ = _ := by simp only [List.append_assoc]
  · rw [factorEq, Int64.ofInt_mul, Int64.mul_comm]

theorem registerNames_named : ∀ entry ∈ registerNames, entry.2 ≠ .undef := by
  decide

private theorem ofInt_eq_iff (value n : Int) : Int64.ofInt value = Int64.ofInt n ↔ value % 2 ^ 64 = n % 2 ^ 64 := by
  rw [Int64.ofInt_eq_iff_bmod_eq_toInt, Int64.toInt_ofInt]
  constructor
  · intro same
    calc
      value % 2 ^ 64 = value.bmod (2 ^ 64) % 2 ^ 64 := (Int.bmod_emod (m := 2 ^ 64)).symm
      _ = n.bmod (2 ^ 64) % 2 ^ 64 := congrArg (fun residue : Int => residue % 2 ^ 64) same
      _ = n % 2 ^ 64 := Int.bmod_emod (m := 2 ^ 64)
  · intro same
    calc
      value.bmod (2 ^ 64) = (value % (2 ^ 64 : Nat)).bmod (2 ^ 64) := (Int.emod_bmod value _).symm
      _ = (n % (2 ^ 64 : Nat)).bmod (2 ^ 64) := congrArg (Int.bmod · (2 ^ 64)) same
      _ = n.bmod (2 ^ 64) := Int.emod_bmod n _

private theorem scaleOfLiteral_wrapped (value : Int) :
    scaleOfLiteral (Int64.ofInt value) =
      if value % 2 ^ 64 = 0 then .ok .s0
      else if value % 2 ^ 64 = 1 then .ok .s1
      else if value % 2 ^ 64 = 2 then .ok .s2
      else if value % 2 ^ 64 = 4 then .ok .s4
      else if value % 2 ^ 64 = 8 then .ok .s8
      else .error .scaleLiteral := by
  have zero := propext (ofInt_eq_iff value 0)
  have one := propext (ofInt_eq_iff value 1)
  have two := propext (ofInt_eq_iff value 2)
  have four := propext (ofInt_eq_iff value 4)
  have eight := propext (ofInt_eq_iff value 8)
  unfold scaleOfLiteral
  simp only [show (0 : i64) = Int64.ofInt 0 from rfl, show (1 : i64) = Int64.ofInt 1 from rfl,
    show (2 : i64) = Int64.ofInt 2 from rfl, show (4 : i64) = Int64.ofInt 4 from rfl,
    show (8 : i64) = Int64.ofInt 8 from rfl, zero, one, two, four, eight]
  rfl

theorem scaleOfLiteral_error_iff (value : Int) :
    (∃ error, scaleOfLiteral (Int64.ofInt value) = .error error) ↔ value % 2 ^ 64 ∉ [0, 1, 2, 4, 8] := by
  rw [scaleOfLiteral_wrapped]
  repeat' split
  all_goals simp_all

theorem scaleOfLiteral_zero_iff (value : Int) :
    scaleOfLiteral (Int64.ofInt value) = .ok .s0 ↔ value % 2 ^ 64 = 0 := by
  rw [scaleOfLiteral_wrapped]
  repeat' split
  all_goals simp_all

theorem scaleOfLiteral_proper_iff (value : Int) (scale : Scale) :
    (scaleOfLiteral (Int64.ofInt value) = .ok scale ∧ scale ≠ .s0) ↔ ScaleValue (value % 2 ^ 64) scale := by
  rw [scaleOfLiteral_wrapped]
  constructor
  · intro proper
    obtain ⟨scaled, nonzero⟩ := proper
    split at scaled
    next zero =>
      cases scaled
      exact absurd rfl nonzero
    split at scaled
    next one =>
      cases scaled
      exact .inl ⟨one, rfl⟩
    split at scaled
    next two =>
      cases scaled
      exact .inr (.inl ⟨two, rfl⟩)
    split at scaled
    next four =>
      cases scaled
      exact .inr (.inr (.inl ⟨four, rfl⟩))
    split at scaled
    next eight =>
      cases scaled
      exact .inr (.inr (.inr ⟨eight, rfl⟩))
    next => cases scaled
  · intro scaled
    rcases scaled with ⟨n, rfl⟩ | ⟨n, rfl⟩ | ⟨n, rfl⟩ | ⟨n, rfl⟩ <;> rw [n] <;> exact ⟨rfl, nofun⟩

/-- What `parse_arg` reads behind a base: nothing, a register without a scale, or a
register with one; an improper scale ends the reading. -/
inductive IndexReading (text : List Char) : Except Throw ((Reg × Scale) × List Char) → Prop where
  | absent : IndexReading text (.ok ((.undef, .s0), text))
  | bare {name index rest} (known : (name, index) ∈ registerNames) (split : text = " + ".toList ++ (name.toList ++ rest)) :
      IndexReading text (.ok ((index, .s0), rest))
  | scaled {name index base literal value tail scale} (known : (name, index) ∈ registerNames)
      (number : IntText base literal value) (proper : scaleOfLiteral (Int64.ofInt value) = .ok scale)
      (split : text = " + ".toList ++ (name.toList ++ (" * ".toList ++ (literal ++ tail)))) :
      IndexReading text (.ok ((index, scale), tail))
  | improper {name index base literal value tail error} (known : (name, index) ∈ registerNames)
      (number : IntText base literal value) (stops : Stops base.isDigit tail)
      (refused : scaleOfLiteral (Int64.ofInt value) = .error error)
      (split : text = " + ".toList ++ (name.toList ++ (" * ".toList ++ (literal ++ tail)))) :
      IndexReading text (.error error)

theorem readIndex_reading (text : List Char) : IndexReading text (readIndex text) := by
  unfold readIndex
  split
  · exact .absent
  next index behind found =>
    obtain ⟨inner, plus, named⟩ := Option.bind_eq_some_iff.mp found
    obtain ⟨name, known, rfl⟩ := keyword_sound named
    split
    · exact .bare known (dropPrefix_iff.mp plus)
    next n tail found =>
      obtain ⟨_, times, number⟩ := Option.bind_eq_some_iff.mp found
      obtain ⟨base, literal, value, derived, rfl, rfl, stops⟩ := readInt_sound number
      rw [dropPrefix_iff.mp times] at plus
      cases scaled : scaleOfLiteral (Int64.ofInt value) with
      | ok scale => exact .scaled known derived scaled (dropPrefix_iff.mp plus)
      | error error => exact .improper known derived stops scaled (dropPrefix_iff.mp plus)

/-- Without a scale, or with scale 0, an index is no derivation; `arg_t::mem` will
not accept it. -/
private theorem readIndex_sound {text tail : List Char} {index : Reg} {scale : Scale}
    (read : readIndex text = .ok ((index, scale), tail)) (unscaled : scale = .s0 → index = .undef) :
    ∃ consumed, text = consumed ++ tail ∧ IndexText wrapped consumed index scale := by
  have reading := readIndex_reading text
  rw [read] at reading
  cases reading with
  | absent => exact ⟨[], rfl, .absent⟩
  | bare known split => exact absurd (unscaled rfl) (registerNames_named _ known)
  | scaled known number proper split =>
    have nonzero : scale ≠ .s0 := fun zero => registerNames_named _ known (unscaled zero)
    refine ⟨_, ?_, .present known number ((scaleOfLiteral_proper_iff _ _).mp ⟨proper, nonzero⟩)⟩
    rw [split]
    simp only [List.append_assoc]

theorem readDisp_sound (text : List Char) :
    ∃ consumed, text = consumed ++ (readDisp text).2 ∧ DispText wrapped consumed (readDisp text).1 := by
  unfold readDisp
  split
  · exact ⟨[], rfl, .absent⟩
  next n tail found =>
    obtain ⟨_, plus, number⟩ := Option.bind_eq_some_iff.mp found
    obtain ⟨base, literal, value, derived, rfl, rfl, -⟩ := readInt_sound number
    refine ⟨_, ?_, .present derived rfl⟩
    rw [dropPrefix_iff.mp plus, List.append_assoc]

theorem mem_ok {base index : Reg} {scale : Scale} {disp : Disp} {arg : Arg}
    (built : Arg.mem base index scale disp = .ok arg) :
    ∃ unscaled, arg = .memory ⟨base, index, scale, disp, unscaled⟩ := by
  unfold Arg.mem at built
  split at built
  · cases built
  · cases built
    exact ⟨_, rfl⟩

private theorem readMemory_sound {text tail : List Char} {arg : Arg} (read : readMemory text = .ok (.ok (arg, tail))) :
    ∃ consumed, text = consumed ++ tail ∧ ArgText wrapped ('[' :: consumed) arg := by
  unfold readMemory at read
  split at read
  · cases read
  next base rest named =>
    obtain ⟨name, known, rfl⟩ := keyword_sound named
    obtain ⟨⟨⟨index, scale⟩, middle⟩, indexed, read⟩ := bind_ok.mp read
    obtain ⟨dispText, split, dispDerived⟩ := readDisp_sound middle
    dsimp only at read
    generalize readDisp middle = displaced at read split dispDerived
    obtain ⟨disp, behind⟩ := displaced
    dsimp only at read
    split at read
    · cases read
    next last bracket =>
      obtain ⟨built, made, same⟩ := bind_ok.mp read
      cases same
      obtain ⟨unscaled, rfl⟩ := mem_ok made
      obtain ⟨indexText, rfl, indexDerived⟩ := readIndex_sound indexed unscaled
      refine ⟨_, ?_, .mem known indexDerived dispDerived⟩
      rw [dropPrefix_iff.mp bracket] at split
      rw [split]
      simp only [List.append_assoc]

theorem readArg_sound {text tail : List Char} {arg : Arg} (read : readArg text = .ok (.ok (arg, tail))) :
    ∃ consumed, text = consumed ++ tail ∧ ArgText wrapped consumed arg := by
  unfold readArg at read
  split at read
  next n rest number =>
    cases read
    obtain ⟨base, literal, value, derived, rfl, rfl, -⟩ := readInt_sound number
    exact ⟨literal, rfl, .int derived rfl⟩
  split at read
  next reg rest named =>
    cases read
    obtain ⟨name, known, rfl⟩ := keyword_sound named
    exact ⟨_, rfl, .reg known⟩
  split at read
  · cases read
  next inner bracket =>
    obtain ⟨consumed, rfl, derived⟩ := readMemory_sound read
    refine ⟨_, ?_, derived⟩
    rw [dropPrefix_iff.mp bracket]
    rfl

theorem readOperands_sound {text tail : List Char} {operands : Arg × Arg}
    (read : readOperands text = .ok (.ok (operands, tail))) :
    ∃ consumed, text = consumed ++ tail ∧ OperandsText wrapped consumed operands := by
  obtain ⟨result, first, read⟩ := bind_ok.mp read
  cases result with
  | error failure =>
    cases read
    exact ⟨[], rfl, .none⟩
  | ok result =>
    obtain ⟨a1, rest⟩ := result
    obtain ⟨firstText, rfl, firstDerived⟩ := readArg_sound first
    dsimp only at read
    split at read
    · cases read
      exact ⟨firstText, rfl, .one firstDerived⟩
    next inner comma =>
      obtain ⟨result, second, read⟩ := bind_ok.mp read
      cases result with
      | error failure => cases read
      | ok result =>
        cases read
        obtain ⟨secondText, rfl, secondDerived⟩ := readArg_sound second
        refine ⟨_, ?_, .two firstDerived secondDerived⟩
        rw [dropPrefix_iff.mp comma]
        simp only [List.append_assoc]

private theorem spaces_dropWhile (text : List Char) : ∃ n, text = List.replicate n ' ' ++ text.dropWhile (· = ' ') := by
  induction text with
  | nil => exact ⟨0, rfl⟩
  | cons c text ih =>
    obtain ⟨n, split⟩ := ih
    rw [List.dropWhile_cons]
    split
    next space =>
      cases of_decide_eq_true space
      exact ⟨n + 1, congrArg (' ' :: ·) split⟩
    · exact ⟨0, rfl⟩

theorem readWidth_sound (text : List Char) :
    ∃ consumed, text = consumed ++ (readWidth text).2 ∧ WidthText consumed (readWidth text).1 := by
  obtain ⟨n, split⟩ := spaces_dropWhile text
  dsimp only [readWidth]
  cases found : keyword widthNames (text.dropWhile (· = ' ')) with
  | none =>
    obtain ⟨k, spaces⟩ := spaces_dropWhile (text.dropWhile (· = ' '))
    refine ⟨List.replicate (n + k) ' ', ?_, .absent _⟩
    rw [← List.replicate_append_replicate, List.append_assoc]
    exact split.trans (congrArg (_ ++ ·) spaces)
  | some result =>
    obtain ⟨width, rest⟩ := result
    obtain ⟨name, known, named⟩ := keyword_sound found
    obtain ⟨k, spaces⟩ := spaces_dropWhile rest
    refine ⟨_, ?_, .present n k known⟩
    calc
      text = List.replicate n ' ' ++ text.dropWhile (· = ' ') := split
      _ = List.replicate n ' ' ++ (name.toList ++ rest) := by rw [named]
      _ = List.replicate n ' ' ++ (name.toList ++ (List.replicate k ' ' ++ rest.dropWhile (· = ' '))) := by rw [← spaces]
      _ = _ := by simp only [List.append_assoc, Option.getD_some]

/-- An accepted line is a line of the grammar. -/
theorem readLine_sound {text tail : List Char} {mnemo : Mnemo} (read : readLine text = .ok (.ok (mnemo, tail))) :
    ∃ line, text = line ++ tail ∧ LineText wrapped line mnemo := by
  unfold readLine at read
  split at read
  · cases read
  next tag rest named =>
    obtain ⟨name, known, rfl⟩ := keyword_sound named
    obtain ⟨widthText, split, sized⟩ := readWidth_sound rest
    generalize readWidth rest = sizing at read split sized
    obtain ⟨width, middle⟩ := sizing
    obtain ⟨result, operandsRead, read⟩ := bind_ok.mp read
    cases result with
    | error failure => cases read
    | ok result =>
      obtain ⟨operands, behind⟩ := result
      dsimp only at read
      split at read
      · cases read
      next last newline =>
        cases read
        obtain ⟨operandsText, taken, derived⟩ := readOperands_sound operandsRead
        refine ⟨_, ?_, .line known sized derived⟩
        rw [split, taken, dropPrefix_iff.mp newline]
        simp only [List.append_assoc]

end Cplastane.Assembly
