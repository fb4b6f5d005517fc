import Mathlib.Logic.Function.Iterate
import StopMotion.Frame.ClosedForm
import StopMotion.Proofs.Frame.Denotation

/-!
# Closed forms of motions

A timer moves a value by one step at every tick; the closed form answers with the value of a
frame at once. Where a tick takes exactly one frame and all constants are integers, the text of
the closed form has at every frame the value that the ticks up to it lead to.
-/

namespace StopMotion.Frame

open State
open Syntax (BinaryOp operandRank joins_add joins_subtract joins_multiply joins_remainder
  joins_strictEqual)
open Number (IsInteger isInteger_zero)

variable {counter name : String} {current base step : Int} {start : Start} {rate value : Float}

/-! ## Integers as operands -/

/-- A negative number is put in parentheses where an operand stands, and no other number is. -/
theorem isOperand_numeral (integer : Int) :
    Formula.isOperand (toString integer).toList = decide (0 ≤ integer) := by
  cases integer with
  | ofNat count =>
      have simple : (toString count).toList.all Formula.isSimple = true := by
        rw [List.all_eq_true]
        intro c member
        simp [Formula.isSimple, Char.isAlphanum, Syntax.isDigit_of_mem_numeral member]
      obtain ⟨first, more, -, split⟩ := Syntax.exists_digit count
      have filled : (toString count).toList.isEmpty = false := by rw [split]; rfl
      change Formula.isOperand (toString count).toList = true
      rw [Formula.isOperand, simple, filled]
      rfl
  | negSucc count =>
      have signed : (toString (Int.negSucc count)).toList = '-' :: (toString (count + 1)).toList :=
        String.toList_append
      rw [signed]
      rfl

/-- The numeral of an integer has no blanks around it. -/
theorem trim_numeral (integer : Int) :
    Text.trim (toString integer).toList = (toString integer).toList := by
  apply Text.trim_of_filled
  intro c member
  have digitOrSign : c.isDigit = true ∨ c = '-' := by
    cases integer with
    | ofNat count => exact .inl (Syntax.isDigit_of_mem_numeral member)
    | negSucc count =>
        have signed : (toString (Int.negSucc count)).toList =
            '-' :: (toString (count + 1)).toList := String.toList_append
        rw [signed, List.mem_cons] at member
        exact member.elim .inr fun member => .inl (Syntax.isDigit_of_mem_numeral member)
  rcases digitOrSign with digit | rfl
  · rcases Syntax.cases_of_isDigit digit with
      rfl | rfl | rfl | rfl | rfl | rfl | rfl | rfl | rfl | rfl <;> rfl
  · rfl

/-! ## Starts -/

/-- A start is an integer: its formula is one wherever an operand may stand, and its number is
that integer if it is known. -/
structure IsBase (counter : String) (start : Start) (base : Int) : Prop where
  operand : ∀ current, Denotes counter current operandRank
    (start.formula.operand.text counter) (.integer base)
  known : ∀ value, start.value = some value → IsInteger value base

/-- An integer as an operand, in parentheses if it needs them. -/
theorem denotes_operand {text : String} (small : base.natAbs < 2 ^ 53)
    (is : text = if 0 ≤ base then toString base else "(" ++ toString base ++ ")") :
    Denotes counter current operandRank text (.integer base) := by
  subst is
  split
  · exact .integer small
  · exact (Denotes.integer small).paren

theorem isBase_given (small : base.natAbs < 2 ^ 53)
    (known : ∀ value, start.value = some value → IsInteger value base)
    (written : start.formula = .given (toString base)) : IsBase counter start base := by
  refine ⟨fun current => denotes_operand small ?_, known⟩
  rw [written, Formula.operand, Formula.operandOf, trim_numeral, isOperand_numeral,
    String.ofList_toList]
  by_cases positive : 0 ≤ base
  · rw [if_pos positive, if_pos (decide_eq_true positive), Formula.text]
  · rw [if_neg positive, if_neg (by rwa [decide_eq_true_eq]), Formula.text, Formula.text]

theorem isBase_ofNumber (isInteger : IsInteger value base) (small : base.natAbs * 10000 < 2 ^ 53) :
    IsBase counter (.ofNumber value) base := by
  have numeral (counter : String) : (Formula.number value).text counter = toString base :=
    isInteger.compact_eq small
  refine ⟨fun current => denotes_operand (by omega) ?_, ?_⟩
  · change (if Formula.isOperand ((Formula.number value).text "").toList then
      Formula.number value else .paren (.number value)).text counter = _
    rw [numeral, isOperand_numeral]
    by_cases positive : 0 ≤ base
    · rw [if_pos positive, if_pos (decide_eq_true positive), numeral]
    · rw [if_neg positive, if_neg (by rwa [decide_eq_true_eq]), Formula.text, numeral]
  · rintro _ ⟨⟩
    exact isInteger

/-! ## Advances -/

theorem isInteger_magnitude (isInteger : IsInteger value base) :
    IsInteger (magnitude value) base.natAbs := by
  unfold magnitude
  by_cases negative : value < 0.0
  · rw [if_pos negative]
    rw [isInteger.lt_iff isInteger_zero] at negative
    rw [Int.ofNat_natAbs_of_nonpos (by omega)]
    exact isInteger.neg
  · rw [if_neg negative]
    rw [isInteger.lt_iff isInteger_zero] at negative
    rw [Int.natAbs_of_nonneg (by omega)]
    exact isInteger

/-- What is added up to a frame; a factor of one is left out. -/
theorem denotes_distance (isVariable : IsVariable counter) (isRate : IsInteger rate step)
    (small : step.natAbs * 10000 < 2 ^ 53) :
    Denotes counter current 11
      ((if magnitude rate == 1.0 then Formula.frame
        else .binary .multiply .frame (.number (magnitude rate))).text counter)
      (.integer (current * step.natAbs)) := by
  have isDistance := isInteger_magnitude isRate
  by_cases one : magnitude rate == 1.0
  · have isOne : (step.natAbs : Int) = 1 := (isDistance.beq_iff Number.isInteger_one).1 one
    rw [if_pos one, isOne, Int.mul_one]
    exact (Denotes.counter isVariable).mono (by decide)
  · have numeral : (Formula.number (magnitude rate)).text counter = toString (step.natAbs : Int) :=
      isDistance.compact_eq small
    rw [if_neg one, Formula.text, numeral]
    exact .binary joins_multiply (by decide) (.counter isVariable) (by decide)
      (.integer isDistance.small) (by decide) rfl

/-- An advance has at every frame the value of its start and one step for each frame. -/
theorem denotes_advance (isVariable : IsVariable counter) (isBase : IsBase counter start base)
    (isRate : IsInteger rate step) (small : step.natAbs * 10000 < 2 ^ 53) :
    Denotes counter current 10 ((advance start rate).text counter)
      (.integer (base + current * step)) := by
  have distance : Denotes counter current 11 _ (.integer (current * step.natAbs)) :=
    denotes_distance isVariable isRate small
  unfold advance
  by_cases omitted : (decide (0.0 ≤ rate) && start.value.any (· == 0.0)) = true
  · obtain ⟨rising, isZero⟩ := Bool.and_eq_true_iff.1 omitted
    have rising : 0 ≤ step := (isInteger_zero.le_iff isRate).1 (of_decide_eq_true rising)
    have zero : base = 0 := by
      cases found : start.value with
      | none =>
          rw [found] at isZero
          cases isZero
      | some value =>
          rw [found] at isZero
          exact ((isBase.known value found).beq_iff isInteger_zero).1 isZero
    rw [Int.natAbs_of_nonneg rising] at distance
    rw [zero, Int.zero_add]
    simp only [omitted, if_true]
    exact distance.mono (by decide)
  · simp only [omitted, Bool.false_eq_true, if_false]
    by_cases falling : rate < 0.0
    · have negative : step < 0 := (isRate.lt_iff isInteger_zero).1 falling
      rw [if_pos falling]
      rw [Int.ofNat_natAbs_of_nonpos (Int.le_of_lt negative)] at distance
      refine .binary joins_subtract (by decide) (isBase.operand current) (by decide) distance
        (by decide) ?_
      rw [Value.binary?, Int.mul_neg, Int.sub_neg]
    · have rising : 0 ≤ step := by
        rw [isRate.lt_iff isInteger_zero] at falling
        omega
      rw [if_neg falling]
      rw [Int.natAbs_of_nonneg rising] at distance
      exact .binary joins_add (by decide) (isBase.operand current) (by decide) distance
        (by decide) rfl

/-! ## Ticks -/

/-- A step between two ends: at the upper one a rising value starts again at the lower one, and
at the lower one a falling value at the upper one. -/
def sweep (step low high value : Int) : Int :=
  if 0 ≤ step then if high ≤ value + step then low else value + step
  else if value + step ≤ low then high else value + step

/-- A step up to a limit. -/
def approach (step limit value : Int) : Int :=
  if 0 < step then min (value + step) limit else max (value + step) limit

/-- The value behind one more tick. A value that moves between two ends starts again as soon as
it reaches one. -/
def tick? : Motion → Value → Option Value
  | .linear step, .integer value => some (.integer (value + Number.toInt step))
  | .wrap step modulus, .integer value =>
    Value.binary? .remainder (.integer (value + Number.toInt step))
      (.integer (Number.toInt modulus))
  | .bounded step low high, .integer value =>
    some (.integer (sweep (Number.toInt step) (Number.toInt low) (Number.toInt high) value))
  | .clamped step limit, .integer value =>
    some (.integer (approach (Number.toInt step) (Number.toInt limit) value))
  | .toggle, .boolean value => some (.boolean !value)
  | _, _ => none

/-- The value behind a number of ticks. -/
def ticks? (motion : Motion) (first : Value) : Nat → Option Value
  | 0 => some first
  | count + 1 => (ticks? motion first count).bind (tick? motion)

theorem add_step (base step : Int) (count : Nat) :
    base + (count + 1 : Nat) * step = base + count * step + step := by
  rw [Int.natCast_add, Int.add_mul, Int.natCast_one, Int.one_mul, Int.add_assoc]

theorem ticks?_linear (isStep : IsInteger rate step) (count : Nat) :
    ticks? (.linear rate) (.integer base) count = some (.integer (base + count * step)) := by
  induction count with
  | zero => simp [ticks?]
  | succ count inductionHypothesis =>
      rw [ticks?, inductionHypothesis, Option.bind_some, tick?, isStep.toInt_eq, add_step]

/-- A remainder behind every step is one remainder behind all steps, as no value is negative. -/
theorem ticks?_wrap {modulus : Int} {length : Float} (isStep : IsInteger rate step)
    (isLength : IsInteger length modulus) (nonzero : modulus ≠ 0) (base_nonneg : 0 ≤ base)
    (step_nonneg : 0 ≤ step) (count : Nat) :
    ticks? (.wrap rate length) (.integer base) (count + 1) =
      some (.integer ((base + (count + 1 : Nat) * step).tmod modulus)) := by
  have one (value : Int) : tick? (.wrap rate length) (.integer value) =
      some (.integer ((value + step).tmod modulus)) := by
    rw [tick?, isStep.toInt_eq, isLength.toInt_eq, Value.binary?, if_neg nonzero]
  have reached (count : Nat) : 0 ≤ base + count * step :=
    Int.add_nonneg base_nonneg (Int.mul_nonneg (Int.natCast_nonneg count) step_nonneg)
  rw [Int.tmod_eq_emod_of_nonneg (reached _)]
  induction count with
  | zero =>
      rw [ticks?, ticks?, Option.bind_some, one, ← Int.tmod_eq_emod_of_nonneg (reached _)]
      simp
  | succ count inductionHypothesis =>
      have remains : 0 ≤ (base + (count + 1 : Nat) * step) % modulus := Int.emod_nonneg _ nonzero
      rw [ticks?, inductionHypothesis, Option.bind_some, one,
        Int.tmod_eq_emod_of_nonneg (Int.add_nonneg remains step_nonneg), Int.emod_add_emod,
        ← add_step base step (count + 1)]

theorem ticks?_toggle (value : Bool) (count : Nat) :
    ticks? .toggle (.boolean value) count =
      some (.boolean (if (count : Int).tmod 2 = 0 then value else !value)) := by
  rw [Int.tmod_eq_emod_of_nonneg (Int.natCast_nonneg count)]
  induction count with
  | zero => rfl
  | succ count inductionHypothesis =>
      rw [ticks?, inductionHypothesis, Option.bind_some, tick?]
      by_cases even : (count : Int) % 2 = 0
      · have odd : ¬((count + 1 : Nat) : Int) % 2 = 0 := by omega
        rw [if_pos even, if_neg odd]
      · have even' : ((count + 1 : Nat) : Int) % 2 = 0 := by omega
        rw [if_neg even, if_pos even', Bool.not_not]

/-! ## Closed forms -/

/-- A start and a motion whose numbers are integers of at most nine digits. A value that wraps
neither starts below zero nor falls. -/
inductive Plays : Motion → Start → Value → Prop where
  | linear {start : Start} {base step : Int} {rate : Float}
      (written : start.formula = .given (toString base))
      (known : ∀ value, start.value = some value → IsInteger value base)
      (isStep : IsInteger rate step) (base_lt : base.natAbs < 10 ^ 9)
      (step_lt : step.natAbs < 10 ^ 9) :
      Plays (.linear rate) start (.integer base)
  | wrap {start : Start} {base step modulus : Int} {rate length : Float}
      (written : start.formula = .given (toString base))
      (known : ∀ value, start.value = some value → IsInteger value base)
      (isStep : IsInteger rate step) (isLength : IsInteger length modulus)
      (base_lt : base.natAbs < 10 ^ 9) (step_lt : step.natAbs < 10 ^ 9)
      (modulus_lt : modulus.natAbs < 10 ^ 9) (nonzero : modulus ≠ 0) (base_nonneg : 0 ≤ base)
      (step_nonneg : 0 ≤ step) :
      Plays (.wrap rate length) start (.integer base)
  | toggle {start : Start} {value : Bool}
      (written : start.formula = .given (if value then "true" else "false")) :
      Plays .toggle start (.boolean value)

/-- A step that takes one frame moves by itself. -/
theorem isInteger_perFrame (isStep : IsInteger rate step) : IsInteger (rate * 1.0) step := by
  have isRate := isStep.mul Number.isInteger_one (by rw [Int.mul_one]; exact isStep.small)
  rwa [Int.mul_one] at isRate

theorem not_movesByIntegers (isStep : IsInteger rate step) (value : Option Float) :
    movesByIntegers value rate 1.0 = false := by
  rw [movesByIntegers, (isInteger_perFrame isStep).isIntegral_eq, Bool.not_true, Bool.and_false]

/-- What a step at every frame has led to. -/
theorem denotes_moved (isVariable : IsVariable counter) (isBase : IsBase counter start base)
    (isStep : IsInteger rate step) (small : step.natAbs * 10000 < 2 ^ 53) (current : Int) :
    Denotes counter current 10
      ((flooredIf (movesByIntegers start.value rate 1.0) (advance start (rate * 1.0))).text counter)
      (.integer (base + current * step)) := by
  rw [not_movesByIntegers isStep, flooredIf]
  exact denotes_advance isVariable isBase (isInteger_perFrame isStep) small

theorem tmod_natAbs (left right : Int) : left.tmod right.natAbs = left.tmod right := by
  cases right with
  | ofNat => rfl
  | negSucc count => exact (Int.tmod_neg left (count + 1)).symm

/-- What a step at every frame has led to, cut off at the distance of the modulus from zero. -/
theorem denotes_wrap {modulus : Int} {length : Float} (isVariable : IsVariable counter)
    (isBase : IsBase counter start base) (isStep : IsInteger rate step)
    (small : step.natAbs * 10000 < 2 ^ 53) (rising : 0 ≤ step)
    (isLength : IsInteger length modulus) (short : modulus.natAbs * 10000 < 2 ^ 53)
    (nonzero : modulus ≠ 0) :
    ∃ formula, scalarForm? name start 1.0 (.wrap rate length) = some formula ∧ ∀ current,
      Denotes counter current 11 (formula.text counter)
        (.integer ((base + current * step).tmod modulus)) := by
  have goesUp : ¬rate * 1.0 < 0.0 := by
    rw [(isInteger_perFrame isStep).lt_iff isInteger_zero]
    omega
  have isDistance := isInteger_magnitude isLength
  have numeral : (Formula.number (magnitude length)).text counter =
      toString (modulus.natAbs : Int) := isDistance.compact_eq short
  refine ⟨_, if_neg goesUp, fun current => ?_⟩
  have moved := denotes_moved isVariable isBase isStep small current
  rw [Formula.text, numeral]
  refine .binary joins_remainder (by decide) moved.paren (by decide)
    (.integer isDistance.small) (by decide) ?_
  rw [Value.binary?, if_neg (by omega), tmod_natAbs]

/-- A flag is turned once at every frame. -/
theorem denotes_toggle {first : Bool} (isVariable : IsVariable counter)
    (written : start.formula = .given (if first then "true" else "false")) (frame : Nat) :
    Denotes counter frame 0 ((toggleForm start 1.0).text counter)
      (.boolean (if (frame : Int).tmod 2 = 0 then first else !first)) := by
  have unit : IsInteger (1.0 / 1.0) 1 :=
    IsInteger.div Number.isInteger_one Number.isInteger_one (by decide) (by decide)
  have isTwo : IsInteger 2.0 2 := ⟨by decide, false, by decide, rfl⟩
  have whole : 1.0 / 1.0 ≤ 1.0 := (unit.le_iff Number.isInteger_one).2 (by decide)
  have operand : start.formula.operand = .given (if first then "true" else "false") := by
    rw [written]
    cases first <;> rfl
  have two : (Formula.number 2.0).text counter = toString (2 : Int) := isTwo.compact_eq (by decide)
  have zero : (Formula.number 0.0).text counter = toString (0 : Int) :=
    isInteger_zero.compact_eq (by decide)
  have remainder : Denotes counter frame 11 (counter ++ " " ++ "%" ++ " " ++ toString (2 : Int))
      (.integer ((frame : Int).tmod 2)) :=
    .binary joins_remainder (by decide) (.counter isVariable) (by decide) (.integer (by decide))
      (by decide) rfl
  have isEven : Denotes counter frame 7 (counter ++ " " ++ "%" ++ " " ++ toString (2 : Int) ++
      " " ++ "===" ++ " " ++ toString (0 : Int))
      (.boolean (Value.integer ((frame : Int).tmod 2) == .integer 0)) :=
    .binary joins_strictEqual (by decide) remainder (by decide) (.integer (by decide))
      (by decide) rfl
  have text : (toggleForm start 1.0).text counter = counter ++ " " ++ "%" ++ " " ++
      toString (2 : Int) ++ " " ++ "===" ++ " " ++ toString (0 : Int) ++ " ? " ++
        (if first then "true" else "false") ++ " : " ++
          ("!" ++ if first then "true" else "false") := by
    rw [← two, ← zero, toggleForm]
    simp only [whole, if_true, operand]
    rfl
  have chosen := isEven.choice (by decide) first
  rw [text]
  by_cases even : (frame : Int).tmod 2 = 0
  · simpa [even, Value.isTruthy] using chosen
  · simpa [even, Value.isTruthy] using chosen

/-- At every frame behind the first the closed form has the value that one tick for each frame
leads to, where a frame takes exactly one tick. -/
theorem scalarForm?_eq_ticks {motion : Motion} {first : Value} {framesPerSecond intervalMs : Float}
    {frame : Nat} (isVariable : IsVariable counter) (plays : Plays motion start first)
    (oneTick : ticksPerFrame framesPerSecond intervalMs = 1.0) (behind : 1 ≤ frame) :
    ∃ formula value,
      scalarForm? name start (ticksPerFrame framesPerSecond intervalMs) motion = some formula ∧
      ticks? motion first frame = some value ∧
      valueOf? counter frame (formula.text counter) = some value := by
  rw [oneTick]
  cases plays with
  | linear written known isStep base_lt step_lt =>
      have moved := denotes_moved isVariable (isBase_given (by omega) known written) isStep
        (by omega) frame
      exact ⟨_, _, rfl, ticks?_linear isStep frame, moved.valueOf?_eq⟩
  | wrap written known isStep isLength base_lt step_lt modulus_lt nonzero base_nonneg step_nonneg =>
      obtain ⟨formula, isForm, denotes⟩ := denotes_wrap isVariable
        (isBase_given (by omega) known written) isStep (by omega) step_nonneg isLength (by omega)
        nonzero
      obtain ⟨count, rfl⟩ := Nat.exists_eq_add_of_le' behind
      exact ⟨formula, _, isForm, ticks?_wrap isStep isLength nonzero base_nonneg step_nonneg count,
        (denotes _).valueOf?_eq⟩
  | toggle written =>
      exact ⟨_, _, rfl, ticks?_toggle _ frame,
        (denotes_toggle isVariable written frame).valueOf?_eq⟩

/-- A value that starts at 5, moves by 3 and wraps at 4, four frames later. -/
theorem scalarForm?_eq_ticks_wrapping :
    IsVariable "frame" ∧
    Plays (.wrap 3.0 4.0) ⟨.given "5", some 5.0⟩ (.integer 5) ∧
    ticksPerFrame 50.0 20.0 = 1.0 ∧ 1 ≤ 4 ∧
    ∃ formula value,
      scalarForm? "angle" ⟨.given "5", some 5.0⟩ (ticksPerFrame 50.0 20.0) (.wrap 3.0 4.0) =
        some formula ∧
      ticks? (.wrap 3.0 4.0) (.integer 5) 4 = some value ∧
      valueOf? "frame" (4 : Nat) (formula.text "frame") = some value := by
  have isVariable : IsVariable "frame" :=
    ⟨⟨by decide, by decide⟩, by decide, by decide, by decide⟩
  have isFive : IsInteger 5.0 5 := ⟨by decide, false, by decide, rfl⟩
  have isThree : IsInteger 3.0 3 := ⟨by decide, false, by decide, rfl⟩
  have isFour : IsInteger 4.0 4 := ⟨by decide, false, by decide, rfl⟩
  have plays : Plays (.wrap 3.0 4.0) ⟨.given "5", some 5.0⟩ (.integer 5) := by
    refine .wrap rfl ?_ isThree isFour (by decide) (by decide) (by decide) (by decide) (by decide)
      (by decide)
    rintro _ ⟨⟩
    exact isFive
  have oneTick : ticksPerFrame 50.0 20.0 = 1.0 := by decide +kernel
  exact ⟨isVariable, plays, oneTick, by decide,
    scalarForm?_eq_ticks isVariable plays oneTick (by decide)⟩

end StopMotion.Frame
