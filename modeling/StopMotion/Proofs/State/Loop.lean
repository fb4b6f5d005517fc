import StopMotion.Proofs.Frame.Value
import StopMotion.State.Collection

/-!
# Loops that fill an array

A `for` loop over an integer counter, run by its test and its update. How often its body runs
follows from where the counter starts and by how much it moves. The number of elements that is
recognised is read off the test alone: it is the number of runs for a counter that starts at zero
and goes up by one.

The update alone moves the counter: what the body does to it is not considered.
-/

namespace StopMotion.State

open StopMotion.Syntax
open StopMotion.Frame (Value)
open Number (IsInteger)

/-! ## Running a loop -/

/-- An expression that is one integer all the time that a loop runs. -/
def IsConstant (locals : Locals) (bound : Bound) (expr : Expr) (integer : Int) : Prop :=
  ∃ value, boundNumber? locals bound expr = some value ∧ IsInteger value integer

/-- What the test of a loop comes to for a value of the counter: it compares the counter with an
integer. -/
def TestIs (locals : Locals) (bound : Bound) (counter : String) (test : Expr) (current : Int)
    (result : Bool) : Prop :=
  ∃ span op left right limit, test.bare = .binary span op left right ∧
    isName left counter = true ∧ IsConstant locals bound right limit ∧
    Value.binary? op (.integer current) (.integer limit) = some (.boolean result)

/-- By how much the update of a loop moves the counter. -/
inductive Moves (locals : Locals) (bound : Bound) (counter : String) : Expr → Int → Prop where
  | increment {span isBefore operand} (isCounter : isName operand counter = true) :
      Moves locals bound counter (.update span .increment isBefore operand) 1
  | decrement {span isBefore operand} (isCounter : isName operand counter = true) :
      Moves locals bound counter (.update span .decrement isBefore operand) (-1)
  | add {span target value step} (isCounter : boundName? target = some counter)
      (isStep : IsConstant locals bound value step) :
      Moves locals bound counter (.assign span .add target value) step
  | subtract {span target value step} (isCounter : boundName? target = some counter)
      (isStep : IsConstant locals bound value step) :
      Moves locals bound counter (.assign span .subtract target value) (-step)
  | assignSum {span span' target value left right step}
      (isCounter : boundName? target = some counter)
      (isSum : value.bare = .binary span' .add left right)
      (reads : isName left counter = true) (isStep : IsConstant locals bound right step) :
      Moves locals bound counter (.assign span .assign target value) step

/-- From a value of the counter, the body of a loop runs so many times until the test fails. -/
inductive Runs (locals : Locals) (bound : Bound) (counter : String) (test update : Expr) :
    Int → Nat → Prop where
  | done {current} (fails : TestIs locals bound counter test current false) :
      Runs locals bound counter test update current 0
  | again {current step count} (holds : TestIs locals bound counter test current true)
      (moves : Moves locals bound counter update step)
      (rest : Runs locals bound counter test update (current + step) count) :
      Runs locals bound counter test update current (count + 1)

/-- A loop whose start, bound and step are integers: its head starts the counter at `first`, and
its update moves it by `step`. -/
inductive Counts (locals : Locals) (bound : Bound) : Stmt → Int → Int → Prop where
  | forStmt {span span' kind target start others test update body counter first step result}
      (names : boundName? target = some counter) (starts : IsConstant locals bound start first)
      (compares : TestIs locals bound counter test first result)
      (moves : Moves locals bound counter update step) :
      Counts locals bound (.forStmt span
        (.present (.headVar kind (.cons (.declares span' target (.present start)) others)))
        (.present test) (.present update) body) first step

/-- From where the head starts the counter, the body of a loop runs so many times. -/
inductive RunsBody (locals : Locals) (bound : Bound) : Stmt → Nat → Prop where
  | forStmt {span span' kind target start others test update body counter first count}
      (names : boundName? target = some counter) (starts : IsConstant locals bound start first)
      (runs : Runs locals bound counter test update first count) :
      RunsBody locals bound (.forStmt span
        (.present (.headVar kind (.cons (.declares span' target (.present start)) others)))
        (.present test) (.present update) body) count

/-! ## One value each -/

variable {module : Module} {locals : Locals} {bound : Bound} {counter array : String}
  {collection : Collection} {expr test update : Expr} {stmt : Stmt} {first step current : Int}
  {count : Nat}

theorem IsConstant.unique {integer integer' : Int} (isOne : IsConstant locals bound expr integer)
    (isOther : IsConstant locals bound expr integer') : integer = integer' := by
  obtain ⟨value, isValue, isOne⟩ := isOne
  obtain ⟨value', isValue', isOther⟩ := isOther
  obtain rfl : value = value' := Option.some.inj (isValue.symm.trans isValue')
  exact isOne.toInt_eq.symm.trans isOther.toInt_eq

theorem TestIs.unique {result result' : Bool}
    (isOne : TestIs locals bound counter test current result)
    (isOther : TestIs locals bound counter test current result') : result = result' := by
  obtain ⟨span, op, left, right, limit, isTest, -, isLimit, compares⟩ := isOne
  obtain ⟨_, _, _, _, limit', isTest', -, isLimit', compares'⟩ := isOther
  cases isTest.symm.trans isTest'
  cases isLimit.unique isLimit'
  cases compares.symm.trans compares'
  rfl

theorem Moves.unique {step' : Int} (isOne : Moves locals bound counter update step)
    (isOther : Moves locals bound counter update step') : step = step' := by
  cases isOne with
  | increment => cases isOther; rfl
  | decrement => cases isOther; rfl
  | add _ isStep => cases isOther with | add _ isStep' => exact isStep.unique isStep'
  | subtract _ isStep =>
      cases isOther with | subtract _ isStep' => rw [isStep.unique isStep']
  | assignSum _ isSum _ isStep =>
      cases isOther with
      | assignSum _ isSum' _ isStep' =>
          cases isSum.symm.trans isSum'
          exact isStep.unique isStep'

/-! ## The number of runs -/

/-- The runs of a loop whose counter goes up to a bound: the distance by the step, rounded up. -/
theorem Runs.count_eq {limit : Int}
    (tests : ∀ current, TestIs locals bound counter test current (decide (current < limit)))
    (moves : Moves locals bound counter update step) (rising : 0 < step)
    (runs : Runs locals bound counter test update first count) :
    count = ((limit - first + step - 1) / step).toNat := by
  induction runs with
  | @done current fails =>
      have reached : ¬ current < limit := of_decide_eq_false ((tests current).unique fails)
      have short : (limit - current + step - 1) / step < 1 :=
        Int.ediv_lt_of_lt_mul rising (by omega)
      omega
  | @again current step' count holds moves' rest inductionHypothesis =>
      cases moves.unique moves'
      have below : current < limit := of_decide_eq_true ((tests current).unique holds)
      have distance : limit - current + step - 1 =
          limit - (current + step) + step - 1 + 1 * step := by omega
      have left : 0 ≤ (limit - (current + step) + step - 1) / step :=
        Int.ediv_nonneg (by omega) (by omega)
      rw [distance, Int.add_mul_ediv_right _ _ (by omega), inductionHypothesis]
      omega

/-- A counter that goes up reaches its bound. -/
theorem exists_runs {limit : Int}
    (tests : ∀ current, TestIs locals bound counter test current (decide (current < limit)))
    (moves : Moves locals bound counter update step) (rising : 0 < step) (first : Int) :
    ∃ count, Runs locals bound counter test update first count := by
  by_cases below : first < limit
  · obtain ⟨count, rest⟩ := exists_runs tests moves rising (first + step)
    exact ⟨count + 1, .again (decide_eq_true below ▸ tests first) moves rest⟩
  · exact ⟨0, .done (decide_eq_false below ▸ tests first)⟩
termination_by (limit - first).toNat

/-- A counter that does not go up never reaches a bound above it. -/
theorem not_runs {limit : Int}
    (tests : ∀ current, TestIs locals bound counter test current (decide (current < limit)))
    (moves : Moves locals bound counter update step) (falling : step ≤ 0) (below : first < limit) :
    ¬ Runs locals bound counter test update first count := by
  intro runs
  induction runs with
  | @done current fails => exact of_decide_eq_false ((tests current).unique fails) below
  | @again current step' count _ moves' _ inductionHypothesis =>
      cases moves.unique moves'
      exact inductionHypothesis (by omega)

/-! ## Recognised loops -/

/-- A bound that is an integer is counted as it is. -/
theorem count?_eq {integer : Int} (isConstant : IsConstant locals bound expr integer)
    (found : count? locals bound expr = some count) : (count : Int) = integer := by
  obtain ⟨value, isValue, isInteger⟩ := isConstant
  rw [count?, isValue] at found
  simp only [Option.ite_none_right_eq_some, Bool.and_eq_true, decide_eq_true_eq,
    Option.some.injEq] at found
  obtain ⟨⟨⟨-, least⟩, -⟩, rfl⟩ := found
  rw [Number.isInteger_zero.le_iff isInteger] at least
  rw [isInteger.toInt_eq, Int.toNat_of_nonneg least]

/-- The test of a recognised loop holds below the number that is read off it. -/
theorem testIs_of_loopCount? {result : Bool}
    (found : loopCount? locals bound counter test = some count)
    (compares : TestIs locals bound counter test first result) (current : Int) :
    TestIs locals bound counter test current (decide (current < count)) := by
  obtain ⟨span, op, left, right, limit, isTest, isCounter, isLimit, compares⟩ := compares
  refine ⟨span, op, left, right, limit, isTest, isCounter, isLimit, ?_⟩
  rw [loopCount?, isTest] at found
  cases op with
  | less =>
      simp only [isCounter, ↓reduceIte] at found
      rw [count?_eq isLimit found]
      rfl
  | lessEqual =>
      simp only [isCounter, ↓reduceIte] at found
      obtain ⟨most, isMost, rfl⟩ := Option.map_eq_some_iff.mp found
      rw [Nat.cast_succ, count?_eq isLimit isMost]
      simp only [Value.binary?, Int.lt_add_one_iff]
  | _ => cases found

/-- A recognised loop over integers runs while its counter is below the number of elements. -/
theorem exists_tests_of_ofLoop? (found : ofLoop? module locals bound array stmt = some collection)
    (counts : Counts locals bound stmt first step) : ∃ counter test update,
      (∀ current, TestIs locals bound counter test current (decide (current < collection.count))) ∧
      Moves locals bound counter update step ∧
      ∀ count, RunsBody locals bound stmt count ↔
        Runs locals bound counter test update first count := by
  obtain ⟨names, starts, compares, moves⟩ := counts
  obtain ⟨counter, isCounter, found⟩ := Option.bind_eq_some_iff.mp found
  cases isCounter.symm.trans names
  obtain ⟨limit, isLimit, found⟩ := Option.bind_eq_some_iff.mp found
  obtain ⟨value, -, found⟩ := Option.bind_eq_some_iff.mp found
  obtain ⟨element, -, same⟩ := Option.bind_eq_some_iff.mp found
  cases same
  refine ⟨_, _, _, testIs_of_loopCount? isLimit compares, moves, fun count => ⟨?_, ?_⟩⟩
  · rintro ⟨names', starts', runs⟩
    cases names.symm.trans names'
    cases starts.unique starts'
    exact runs
  · exact .forStmt names starts

/-- How often the body of a recognised loop runs: as far as the counter is from the number of
elements, by the step and rounded up. -/
theorem runsBody_iff_of_rising (found : ofLoop? module locals bound array stmt = some collection)
    (counts : Counts locals bound stmt first step) (rising : 0 < step) (count : Nat) :
    RunsBody locals bound stmt count ↔
      count = ((collection.count - first + step - 1) / step).toNat := by
  obtain ⟨counter, test, update, tests, moves, sameRuns⟩ := exists_tests_of_ofLoop? found counts
  rw [sameRuns]
  constructor
  · exact Runs.count_eq tests moves rising
  · rintro rfl
    obtain ⟨count, runs⟩ := exists_runs tests moves rising first
    exact runs.count_eq tests moves rising ▸ runs

/-- A recognised loop over `0, 1, 2, …` runs its body once for each element. -/
theorem runsBody_iff_eq_count (found : ofLoop? module locals bound array stmt = some collection)
    (counts : Counts locals bound stmt 0 1) (count : Nat) :
    RunsBody locals bound stmt count ↔ count = collection.count := by
  rw [runsBody_iff_of_rising found counts (by decide)]
  simp

/-- A recognised loop whose counter does not go up does not end, unless its test fails at once. -/
theorem not_runsBody_of_falling
    (found : ofLoop? module locals bound array stmt = some collection)
    (counts : Counts locals bound stmt first step) (falling : step ≤ 0)
    (below : first < collection.count) (count : Nat) : ¬ RunsBody locals bound stmt count := by
  obtain ⟨counter, test, update, tests, moves, sameRuns⟩ := exists_tests_of_ofLoop? found counts
  rw [sameRuns]
  exact not_runs tests moves falling below

end StopMotion.State
