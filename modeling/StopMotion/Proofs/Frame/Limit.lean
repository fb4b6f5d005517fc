import StopMotion.Proofs.Frame.ClosedForm

/-!
# Closed forms of motions with limits

The closed form of a value that settles at a limit has the value of the ticks at every frame
behind the first, unless its step is zero. That of a value between two ends has it where the
steps meet the end: there the remainder by the distance of the ends is the way gone since the
last start.
-/

namespace StopMotion.Frame

open State
open Syntax (BinaryOp operandRank joins_add joins_subtract joins_remainder)
open Number (IsInteger isInteger_zero)

variable {counter name : String} {base step limit low high : Int} {start : Start}
  {rate bound bottom top : Float} {framesPerSecond intervalMs : Float} {frame : Nat}

/-! ## A limit -/

/-- A value on its way to a limit stays there. -/
theorem ticks?_clamped (isStep : IsInteger rate step) (isLimit : IsInteger bound limit)
    (count : Nat) :
    ticks? (.clamped rate bound) (.integer base) (count + 1) =
      some (.integer (if 0 < step then min (base + (count + 1 : Nat) * step) limit
        else max (base + (count + 1 : Nat) * step) limit)) := by
  have one (value : Int) : tick? (.clamped rate bound) (.integer value) =
      some (.integer (approach step limit value)) := by
    rw [tick?, isStep.toInt_eq, isLimit.toInt_eq]
  induction count with
  | zero =>
      rw [ticks?, ticks?, Option.bind_some, one, approach]
      simp
  | succ count inductionHypothesis =>
      rw [ticks?, inductionHypothesis, Option.bind_some, one, approach,
        add_step base step (count + 1)]
      split
      · congr 2
        omega
      · congr 2
        omega

/-- A number as an argument. -/
theorem denotes_number {current : Int} (isInteger : IsInteger bound limit)
    (small : limit.natAbs * 10000 < 2 ^ 53) :
    Denotes counter current operandRank ((Formula.number bound).text counter) (.integer limit) := by
  have numeral : (Formula.number bound).text counter = toString limit := isInteger.compact_eq small
  rw [numeral]
  exact .integer isInteger.small

/-- The closed form of a value that settles at a limit. -/
theorem clamped_eq_ticks (isVariable : IsVariable counter) (isBase : IsBase counter start base)
    (isStep : IsInteger rate step) (isLimit : IsInteger bound limit)
    (step_lt : step.natAbs < 10 ^ 9) (limit_lt : limit.natAbs < 10 ^ 9) (moves : step ≠ 0)
    (oneTick : ticksPerFrame framesPerSecond intervalMs = 1.0) (behind : 1 ≤ frame) :
    ∃ formula value,
      scalarForm? name start (ticksPerFrame framesPerSecond intervalMs) (.clamped rate bound) =
        some formula ∧
      ticks? (.clamped rate bound) (.integer base) frame = some value ∧
      valueOf? counter frame (formula.text counter) = some value := by
  obtain ⟨count, rfl⟩ := Nat.exists_eq_add_of_le' behind
  have moved := denotes_moved isVariable isBase isStep (by omega) (count + 1 : Nat)
  have isLast : Denotes counter (count + 1 : Nat) operandRank
      ((Formula.number bound).text counter) (.integer limit) := denotes_number isLimit (by omega)
  have goesUp : 0.0 ≤ rate ↔ 0 < step := by
    rw [isInteger_zero.le_iff isStep]
    omega
  rw [oneTick, scalarForm?]
  by_cases rising : 0 < step
  · refine ⟨_, _, if_pos (goesUp.2 rising), ticks?_clamped isStep isLimit count, ?_⟩
    rw [if_pos rising]
    exact (Denotes.call .least moved isLast rfl).valueOf?_eq
  · refine ⟨_, _, if_neg (goesUp.not.2 rising), ticks?_clamped isStep isLimit count, ?_⟩
    rw [if_neg rising]
    exact (Denotes.call .greatest moved isLast rfl).valueOf?_eq

/-! ## Two ends -/

/-- A rising value is as far from the lower end as the way gone leaves behind whole rounds. -/
theorem sweep_rising {way : Int} (rising : 0 < step) (filled : low < high)
    (meets : step ∣ high - low) (onWay : step ∣ way) :
    sweep step low high (low + way % (high - low)) = low + (way + step) % (high - low) := by
  have least := Int.emod_nonneg way (show high - low ≠ 0 by omega)
  have most := Int.emod_lt_of_pos way (show 0 < high - low by omega)
  have left : step ∣ high - low - way % (high - low) := by
    rw [Int.emod_def]
    exact Int.dvd_sub meets (Int.dvd_sub onWay (Int.dvd_mul_of_dvd_left meets))
  have whole := Int.le_of_dvd (by omega) left
  rw [sweep, if_pos (by omega), ← Int.emod_add_emod]
  by_cases arrives : way % (high - low) + step = high - low
  · rw [if_pos (by omega), arrives, Int.emod_self, Int.add_zero]
  · have next : (way % (high - low) + step) % (high - low) = way % (high - low) + step :=
      Int.emod_eq_of_lt (by omega) (by omega)
    rw [if_neg (by omega), next, Int.add_assoc]

/-- Falling is rising with the signs changed. -/
theorem sweep_neg (falling : step < 0) (value : Int) :
    sweep step low high value = -sweep (-step) (-high) (-low) (-value) := by
  unfold sweep
  split <;> split <;> omega

theorem sweep_falling {way : Int} (falling : step < 0) (filled : low < high)
    (meets : step ∣ high - low) (onWay : step ∣ way) :
    sweep step low high (high - way % (high - low)) = high - (way + -step) % (high - low) := by
  have length : -low - -high = high - low := by omega
  have mirrored : sweep (-step) (-high) (-low) (-high + way % (-low - -high)) =
      -high + (way + -step) % (-low - -high) :=
    sweep_rising (by omega) (by omega) (by rw [length]; exact Int.neg_dvd.2 meets)
      (Int.neg_dvd.2 onWay)
  rw [length] at mirrored
  rw [sweep_neg falling, show -(high - way % (high - low)) = -high + way % (high - low) by omega,
    mirrored]
  omega

theorem ticks?_rising (isStep : IsInteger rate step) (isLow : IsInteger bottom low)
    (isHigh : IsInteger top high) (rising : 0 < step) (low_le : low ≤ base) (lt_high : base < high)
    (meets : step ∣ high - low) (onWay : step ∣ base - low) (count : Nat) :
    ticks? (.bounded rate bottom top) (.integer base) count =
      some (.integer (low + (base - low + count * step) % (high - low))) := by
  induction count with
  | zero =>
      have start : (base - low) % (high - low) = base - low :=
        Int.emod_eq_of_lt (by omega) (by omega)
      simp [ticks?, start]
  | succ count inductionHypothesis =>
      have onWay : step ∣ base - low + count * step :=
        Int.dvd_add onWay (Int.dvd_mul_left _ _)
      rw [ticks?, inductionHypothesis, Option.bind_some, tick?, isStep.toInt_eq, isLow.toInt_eq,
        isHigh.toInt_eq, sweep_rising rising (by omega) meets onWay, add_step]

theorem ticks?_falling (isStep : IsInteger rate step) (isLow : IsInteger bottom low)
    (isHigh : IsInteger top high) (falling : step < 0) (low_lt : low < base) (le_high : base ≤ high)
    (meets : step ∣ high - low) (onWay : step ∣ high - base) (count : Nat) :
    ticks? (.bounded rate bottom top) (.integer base) count =
      some (.integer (high - (high - base + count * -step) % (high - low))) := by
  induction count with
  | zero =>
      have start : (high - base) % (high - low) = high - base :=
        Int.emod_eq_of_lt (by omega) (by omega)
      simp [ticks?, start]
  | succ count inductionHypothesis =>
      have onWay : step ∣ high - base + count * -step :=
        Int.dvd_add onWay (Int.dvd_mul_of_dvd_right (Int.dvd_neg.2 (Int.dvd_refl step)))
      rw [ticks?, inductionHypothesis, Option.bind_some, tick?, isStep.toInt_eq, isLow.toInt_eq,
        isHigh.toInt_eq, sweep_falling falling (by omega) meets onWay, add_step]

/-- The way gone since the last start, in parentheses. -/
theorem denotes_round {value length : Float} {way gone : Int} (isVariable : IsVariable counter)
    (isGone : IsInteger value gone) (isStep : IsInteger rate step) (isLength : IsInteger length way)
    (gone_lt : gone.natAbs < 2 * 10 ^ 9) (step_lt : step.natAbs < 10 ^ 9)
    (way_lt : way.natAbs < 2 * 10 ^ 9) (gone_nonneg : 0 ≤ gone) (step_nonneg : 0 ≤ step)
    (filled : 0 < way) :
    Denotes counter frame 11
      ((Formula.binary .remainder (.paren (flooredIf false (advance (.ofNumber value) rate)))
        (.number length)).text counter)
      (.integer ((gone + frame * step) % way)) := by
  have moved : Denotes counter frame 10 _ (.integer (gone + frame * step)) :=
    denotes_advance isVariable (isBase_ofNumber isGone (by omega)) isStep (by omega)
  have isRound : Denotes counter frame operandRank _ (.integer way) :=
    denotes_number isLength (by omega)
  have nonneg : 0 ≤ gone + frame * step :=
    Int.add_nonneg gone_nonneg (Int.mul_nonneg (Int.natCast_nonneg frame) step_nonneg)
  refine .binary joins_remainder (by decide) moved.paren (by decide) isRound (by decide) ?_
  rw [Value.binary?, if_neg (by omega), Int.tmod_eq_emod_of_nonneg nonneg]

/-- The steps from a value between two ends meet the end that they lead to. -/
inductive Meets (step low high base : Int) : Prop where
  | rising (positive : 0 < step) (low_le : low ≤ base) (lt_high : base < high)
      (meets : step ∣ high - low) (onWay : step ∣ base - low)
  | falling (negative : step < 0) (low_lt : low < base) (le_high : base ≤ high)
      (meets : step ∣ high - low) (onWay : step ∣ high - base)

/-- The closed form of a value between two ends that its steps meet. -/
theorem bounded_eq_ticks {formula : Formula} {value : Float} (isVariable : IsVariable counter)
    (isFirst : IsInteger value base) (isStep : IsInteger rate step) (isLow : IsInteger bottom low)
    (isHigh : IsInteger top high) (step_lt : step.natAbs < 10 ^ 9)
    (low_lt : low.natAbs < 10 ^ 9) (high_lt : high.natAbs < 10 ^ 9)
    (meets : Meets step low high base)
    (oneTick : ticksPerFrame framesPerSecond intervalMs = 1.0) :
    ∃ result last,
      scalarForm? name ⟨formula, some value⟩ (ticksPerFrame framesPerSecond intervalMs)
        (.bounded rate bottom top) = some result ∧
      ticks? (.bounded rate bottom top) (.integer base) frame = some last ∧
      valueOf? counter frame (result.text counter) = some last := by
  have isRate := isInteger_perFrame isStep
  have isLength := isHigh.sub isLow (by omega)
  have goesUp : 0.0 ≤ rate * 1.0 ↔ 0 ≤ step := isInteger_zero.le_iff isRate
  have isBottom : Denotes counter frame operandRank _ (.integer low) :=
    denotes_number isLow (by omega)
  have isTop : Denotes counter frame operandRank _ (.integer high) :=
    denotes_number isHigh (by omega)
  rw [oneTick, scalarForm?, boundedForm]
  simp only [not_movesByIntegers isStep, Bool.false_and]
  cases meets with
  | rising positive low_le lt_high meets onWay =>
      have round : Denotes counter frame 11 _
          (.integer ((base - low + frame * step) % (high - low))) :=
        denotes_round isVariable (isFirst.sub isLow (by omega)) isRate isLength (by omega) step_lt
          (by omega) (by omega) (by omega) (by omega)
      refine ⟨_, _, rfl,
        ticks?_rising isStep isLow isHigh positive low_le lt_high meets onWay frame, ?_⟩
      rw [if_pos (goesUp.2 (by omega))]
      by_cases fromZero : bottom == 0.0
      · have zero : low = 0 := (isLow.beq_iff isInteger_zero).1 fromZero
        rw [zero] at round
        rw [if_pos fromZero, zero, Int.zero_add]
        exact round.valueOf?_eq
      · rw [if_neg fromZero]
        exact (Denotes.binary joins_add (by decide) isBottom (by decide) round.paren (by decide)
          rfl).valueOf?_eq
  | falling negative low_lt le_high meets onWay =>
      have round : Denotes counter frame 11 _
          (.integer ((high - base + frame * -step) % (high - low))) :=
        denotes_round isVariable (isHigh.sub isFirst (by omega)) isRate.neg isLength (by omega)
          (by omega) (by omega) (by omega) (by omega) (by omega)
      refine ⟨_, _, rfl,
        ticks?_falling isStep isLow isHigh negative low_lt le_high meets onWay frame, ?_⟩
      rw [if_neg (goesUp.not.2 (by omega))]
      exact (Denotes.binary joins_subtract (by decide) isTop (by decide) round.paren (by decide)
        rfl).valueOf?_eq

end StopMotion.Frame
