import StopMotion.Syntax.Operator
import StopMotion.Syntax.Tree

/-!
# Groupings of operands

Operands in a row, with operators between them, can be grouped in many ways. In a ranked grouping
every operator stands between operands whose own operators bind tighter, equal ones to the left and
powers to the right. There is one ranked grouping of a row at most: of two operators, how they bind
tells which of them stands within an operand of the other.
-/

namespace StopMotion.Syntax

/-! ## Operators -/

namespace BinaryOp

/-- An operator may be the root of the left operand of `op`: it binds at least as tightly, and more
so before a power. -/
def KeepsLeft (op root : BinaryOp) : Prop :=
  op.precedence ≤ root.precedence ∧ (op = power → op.precedence < root.precedence)

/-- An operator may be the root of the right operand of `op`: it binds tighter, or both are
powers. -/
def KeepsRight (op root : BinaryOp) : Prop :=
  op.precedence < root.precedence ∨ (op = power ∧ root = power)

theorem precedence_le (op : BinaryOp) : op.precedence ≤ power.precedence := by
  cases op <;> decide

/-- Nothing binds as tightly as a power. -/
theorem eq_power {op : BinaryOp} (tight : power.precedence ≤ op.precedence) : op = power := by
  cases op <;> first | rfl | exact absurd tight (by decide)

theorem rightPrecedence_of_ne {op : BinaryOp} (other : op ≠ power) :
    op.rightPrecedence = op.precedence + 1 :=
  if_neg other

theorem precedence_lt_of_ne {op : BinaryOp} (other : op ≠ power) :
    op.precedence < power.precedence :=
  Nat.lt_of_not_le fun tight => other (eq_power tight)

theorem keepsRight_iff {op root : BinaryOp} :
    op.KeepsRight root ↔ op.rightPrecedence ≤ root.precedence := by
  unfold KeepsRight
  by_cases isPower : op = power
  · subst isPower
    have most := root.precedence_le
    constructor
    · rintro (tighter | ⟨-, rfl⟩)
      · omega
      · exact Nat.le_refl _
    · exact fun tight => .inr ⟨rfl, eq_power tight⟩
  · rw [rightPrecedence_of_ne isPower]
    simp only [isPower, false_and, or_false]
    exact Iff.rfl

theorem keepsLeft_iff {op root : BinaryOp} :
    op.KeepsLeft root ↔ op.precedence < root.rightPrecedence := by
  unfold KeepsLeft
  by_cases isPower : root = power
  · subst isPower
    have most := op.precedence_le
    constructor
    · rintro ⟨-, other⟩
      exact precedence_lt_of_ne fun same => Nat.lt_irrefl _ (same ▸ other same)
    · intro less
      exact ⟨most, fun _ => less⟩
  · rw [rightPrecedence_of_ne isPower, Nat.lt_succ_iff]
    refine ⟨And.left, fun le => ⟨le, fun same => ?_⟩⟩
    subst same
    exact absurd (eq_power le) isPower

/-- What binds tighter lets bind what binds tighter. -/
theorem rightPrecedence_mono {op op' : BinaryOp} (le : op.precedence ≤ op'.precedence) :
    op.rightPrecedence ≤ op'.rightPrecedence := by
  by_cases isPower : op = power
  · subst isPower
    obtain rfl := eq_power le
    exact Nat.le_refl _
  · rw [rightPrecedence_of_ne isPower]
    by_cases isPower' : op' = power
    · subst isPower'
      exact precedence_lt_of_ne isPower
    · rw [rightPrecedence_of_ne isPower']
      exact Nat.succ_le_succ le

theorem precedence_le_rightPrecedence (op : BinaryOp) : op.precedence ≤ op.rightPrecedence := by
  cases op <;> decide

end BinaryOp

/-! ## Groupings -/

/-- An operand of a row: what it is read as, where it starts and where it stops. -/
structure Operand where
  expr : Expr
  start : Nat
  stop : Nat

/-- Operands of a row that are grouped by the operators between them. -/
inductive Grouping where
  | operand (one : Operand)
  | join (op : BinaryOp) (left right : Grouping)

namespace Grouping

/-- Where the first operand starts. -/
def start : Grouping → Nat
  | operand one => one.start
  | join _ left _ => left.start

/-- Where the last operand stops. -/
def stop : Grouping → Nat
  | operand one => one.stop
  | join _ _ right => right.stop

/-- The expression that is grouped in this way. -/
def expr : Grouping → Expr
  | operand one => one.expr
  | join op left right => .binary ⟨left.start, right.stop⟩ op left.expr right.expr

/-- The first operand in order. -/
def first : Grouping → Operand
  | operand one => one
  | join _ left _ => left.first

/-- The operators in order, each with the operand behind it. -/
def rest : Grouping → List (BinaryOp × Operand)
  | operand _ => []
  | join op left right => left.rest ++ (op, right.first) :: right.rest

/-- The operator at the root, if there is one. -/
def root? : Grouping → Option BinaryOp
  | operand _ => none
  | join op _ _ => some op

/-- At every operator the operands are what it may stand between. -/
def Ranked : Grouping → Prop
  | operand _ => True
  | join op left right =>
    ((∀ root ∈ left.root?, op.KeepsLeft root) ∧ ∀ root ∈ right.root?, op.KeepsRight root) ∧
      left.Ranked ∧ right.Ranked

/-- In a ranked grouping nothing binds less tightly than the root. -/
theorem Ranked.root_le {grouping : Grouping} {bound : Nat} (ranked : grouping.Ranked)
    (least : ∀ root ∈ grouping.root?, bound ≤ root.precedence) :
    ∀ next ∈ grouping.rest, bound ≤ next.1.precedence := by
  induction grouping generalizing bound with
  | operand one => simp [rest]
  | join op left right leftHypothesis rightHypothesis =>
      obtain ⟨⟨keepsLeft, keepsRight⟩, leftRanked, rightRanked⟩ := ranked
      have here : bound ≤ op.precedence := least op rfl
      have inLeft := leftHypothesis leftRanked fun root isRoot =>
        Nat.le_trans here (keepsLeft root isRoot).1
      have inRight := rightHypothesis rightRanked fun root isRoot =>
        Nat.le_trans here (Nat.le_trans op.precedence_le_rightPrecedence
          (BinaryOp.keepsRight_iff.mp (keepsRight root isRoot)))
      intro next member
      simp only [rest, List.mem_append, List.mem_cons] at member
      rcases member with member | rfl | member
      · exact inLeft next member
      · exact here
      · exact inRight next member

/-- Every operator of the left operand of a ranked grouping could be its root, as far as the
operator behind it goes. -/
theorem Ranked.keepsLeft {op : BinaryOp} {left right : Grouping}
    (ranked : (join op left right).Ranked) : ∀ next ∈ left.rest, op.KeepsLeft next.1 := by
  obtain ⟨⟨keepsLeft, -⟩, leftRanked, -⟩ := ranked
  intro next member
  cases left with
  | operand one => cases member
  | join root inner other =>
      have tight : root.precedence ≤ next.1.precedence := leftRanked.root_le (fun _ same => by
        cases same
        exact Nat.le_refl _) next member
      rw [BinaryOp.keepsLeft_iff]
      exact Nat.lt_of_lt_of_le (BinaryOp.keepsLeft_iff.mp (keepsLeft root rfl))
        (BinaryOp.rightPrecedence_mono tight)

theorem Ranked.keepsRight {op : BinaryOp} {left right : Grouping}
    (ranked : (join op left right).Ranked) : ∀ next ∈ right.rest, op.KeepsRight next.1 := by
  obtain ⟨⟨-, keepsRight⟩, -, rightRanked⟩ := ranked
  intro next member
  rw [BinaryOp.keepsRight_iff]
  exact rightRanked.root_le (fun root isRoot => BinaryOp.keepsRight_iff.mp (keepsRight root isRoot))
    next member

/-- Of two operators of a row, one cannot be in the right operand of the other in one ranked
grouping and have it in its left operand in another one. -/
theorem Ranked.not_crossed {op op' : BinaryOp} {left right left' right' : Grouping}
    {one other : Operand} (ranked : (join op left right).Ranked)
    (ranked' : (join op' left' right').Ranked) (inRight : (op', one) ∈ right.rest)
    (inLeft : (op, other) ∈ left'.rest) : False := by
  have tighter := BinaryOp.keepsRight_iff.mp (ranked.keepsRight _ inRight)
  have looser := BinaryOp.keepsLeft_iff.mp (ranked'.keepsLeft _ inLeft)
  exact Nat.lt_irrefl _ (Nat.lt_of_lt_of_le looser tighter)

/-- There is one ranked grouping of a row at most. -/
theorem Ranked.unique {grouping grouping' : Grouping} (ranked : grouping.Ranked)
    (ranked' : grouping'.Ranked) (first : grouping.first = grouping'.first)
    (rest : grouping.rest = grouping'.rest) : grouping = grouping' := by
  induction grouping generalizing grouping' with
  | operand one =>
      cases grouping' with
      | operand other => exact congrArg operand first
      | join op left right => simp [Grouping.rest] at rest
  | join op left right leftHypothesis rightHypothesis =>
      cases grouping' with
      | operand other => simp [Grouping.rest] at rest
      | join op' left' right' =>
          -- The roots stand at the same place, or each is within an operand of the other.
          rcases List.append_eq_append_iff.mp rest with
            ⟨between, isLeft, isRight⟩ | ⟨between, isLeft, isRight⟩ <;>
            rcases between with _ | ⟨next, between⟩
          case inl.nil | inr.nil =>
            simp only [List.append_nil, List.nil_append, List.cons.injEq, Prod.mk.injEq]
              at isLeft isRight
            obtain ⟨⟨rfl, sameFirst⟩, sameRest⟩ := isRight
            rw [leftHypothesis ranked.2.1 ranked'.2.1 first (by rw [isLeft]),
              rightHypothesis ranked.2.2 ranked'.2.2 (by rw [sameFirst]) (by rw [sameRest])]
          case inl.cons =>
            obtain ⟨rfl, behind⟩ := List.cons.inj isRight
            have inRight : (op', right'.first) ∈ right.rest :=
              behind ▸ List.mem_append_right _ List.mem_cons_self
            have inLeft : (op, right.first) ∈ left'.rest :=
              isLeft ▸ List.mem_append_right _ List.mem_cons_self
            exact (ranked.not_crossed ranked' inRight inLeft).elim
          case inr.cons =>
            obtain ⟨rfl, behind⟩ := List.cons.inj isRight
            have inRight : (op, right.first) ∈ right'.rest :=
              behind ▸ List.mem_append_right _ List.mem_cons_self
            have inLeft : (op', right'.first) ∈ left.rest :=
              isLeft ▸ List.mem_append_right _ List.mem_cons_self
            exact (ranked'.not_crossed ranked inRight inLeft).elim

end Grouping

end StopMotion.Syntax
