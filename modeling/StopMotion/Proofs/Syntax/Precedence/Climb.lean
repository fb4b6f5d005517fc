import StopMotion.Proofs.Syntax.Depth.Reads
import StopMotion.Proofs.Syntax.Precedence.Grouping
import StopMotion.Proofs.Syntax.Run.Operator

/-!
# Reading operands joined by operators

Operands in a row are read as their ranked grouping. A chain grows round by round: its grouping so
far is ranked, and the operator behind it keeps it on its left. A round ends the chain before an
operator that binds too loosely, or reads the right operand as a chain of what binds tighter.
-/

namespace StopMotion.Syntax

open Filter
open Parse (pass repeatAtMost Runs)
open Rules (Infix infixOf?)

/-! ## Rows of operands -/

/-- An operand stands where a reading is: it is read there as a unary expression, up to `next`. -/
structure Operand.ReadAt (operand : Operand) (state next : ParseState) : Prop where
  reads : Reads Rules.unaryExpr state operand.expr next
  start : operand.start = state.token.span.start
  stop : operand.stop = next.lastEnd

/-- Operators that stand one behind the other from a reading on, each with an operand behind it, up
to a token that is nothing between operands. -/
inductive Onwards (noIn : Bool) : ParseState → List (BinaryOp × Operand) → ParseState → Prop where
  | ends {state} (stops : infixOf? noIn state.token = none) : Onwards noIn state [] state
  | goesOn {state behind next last op operand rest}
      (isInfix : infixOf? noIn state.token = some (.operator op))
      (passes : pass state = .ok ((), behind)) (readAt : operand.ReadAt behind next)
      (onwards : Onwards noIn next rest last) : Onwards noIn state ((op, operand) :: rest) last

variable {source : List Char} {bound least : Nat} {noIn : Bool}
  {state behind next last : ParseState} {rest : List (BinaryOp × Operand)}

theorem goesOn_of_infixOf? {token : Token} {found : Infix}
    (isInfix : infixOf? noIn token = some found) : token.kind.isEnd = false := by
  cases kind : token.kind <;> first | rfl | simp [infixOf?, kind] at isInfix

/-- An operand is passed over. -/
theorem Operand.ReadAt.consumes {operand : Operand} (readAt : operand.ReadAt state next)
    (ready : Ready source bound state) : Consumes source bound state next :=
  (readAt.reads.holds grows_unaryExpr fun depth (le : bound ≤ depth) =>
    (Rules.sound_ofDepth depth).unaryExpr state ready le).consumes

theorem pass_consumes (ready : Ready source bound state) (goesOn : state.token.kind.isEnd = false)
    (passes : pass state = .ok ((), next)) : Consumes source bound state next :=
  ((Parse.pass_yields ready goesOn).of_run passes).toConsumes

/-- There are no more operators than characters that are left to read. -/
theorem Onwards.length_le (onwards : Onwards noIn state rest last)
    (ready : Ready source bound state) : rest.length ≤ state.left := by
  induction onwards with
  | ends => exact Nat.zero_le _
  | goesOn isInfix passes readAt _ inductionHypothesis =>
      have passed := pass_consumes ready (goesOn_of_infixOf? isInfix) passes
      have consumes := passed.trans (readAt.consumes passed.ready).follows
      have := inductionHypothesis consumes.ready
      have := consumes.left_lt
      rw [List.length_cons]
      omega

/-! ## A round -/

namespace Rules

variable {rules : Rules} {start : Nat} {left : Expr}

/-- Before what binds too loosely a chain ends. -/
theorem binaryRound_ends
    (loose : ∀ found, infixOf? noIn state.token = some found → found.precedence < least) :
    Runs (rules.binaryRound start least noIn left) state fun answer after =>
      answer = .inr left ∧ after = state := by
  unfold binaryRound binaryStep
  rw [bind_assoc, Parse.runs_token]
  cases isInfix : infixOf? noIn state.token with
  | none => exact .pure ⟨rfl, rfl⟩
  | some found =>
      simp only [loose found isInfix, if_true]
      exact .pure ⟨rfl, rfl⟩

/-- A chain goes on with an operator that binds tightly enough and what is read behind it. -/
theorem binaryRound_joins {op : BinaryOp} {right : Expr}
    (isInfix : infixOf? noIn state.token = some (.operator op)) (tight : least ≤ op.precedence)
    (passes : pass state = .ok ((), behind))
    (reads : Runs (rules.binary op.rightPrecedence noIn) behind fun value after =>
      value = right ∧ after = next) :
    Runs (rules.binaryRound start least noIn left) state fun answer after =>
      answer = .inl (.binary ⟨start, next.lastEnd⟩ op left right) ∧ after = next := by
  unfold binaryRound binaryStep
  rw [bind_assoc, Parse.runs_token]
  simp only [isInfix]
  have notLoose : ¬ (Infix.operator op).precedence < least := Nat.not_lt_of_le tight
  rw [if_neg notLoose, bind_assoc]
  have passing : Runs pass state fun _ after => after = behind := ⟨_, _, passes, rfl⟩
  refine passing.bind ?_
  rintro _ _ rfl
  rw [bind_assoc]
  refine reads.bind ?_
  rintro _ _ ⟨rfl, rfl⟩
  rw [bind_assoc, Parse.runs_spanFrom]
  exact .pure ⟨rfl, rfl⟩

end Rules

/-! ## Chains -/

/-- How far a chain was read: how it is grouped, which operators are left, and where the reading
is. -/
structure Climb where
  grouping : Grouping
  left : List (BinaryOp × Operand)
  state : ParseState

namespace Climb

/-- All operators of the row, each with the operand behind it. -/
def row (climb : Climb) : List (BinaryOp × Operand) := climb.grouping.rest ++ climb.left

/-- What holds of a chain before each of its rounds. -/
structure Sound (source : List Char) (bound least : Nat) (noIn : Bool) (last : ParseState)
    (climb : Climb) : Prop where
  ranked : climb.grouping.Ranked
  tight : ∀ root ∈ climb.grouping.root?, least ≤ root.precedence
  keeps : ∀ root ∈ climb.grouping.root?, ∀ next ∈ climb.left.head?, next.1.KeepsLeft root
  stop : climb.grouping.stop = climb.state.lastEnd
  ready : Ready source bound climb.state
  onwards : Onwards noIn climb.state climb.left last

/-- A chain is read on as far as its operators bind tightly enough, and has the same first operand
and row then. -/
structure Tops (source : List Char) (bound least : Nat) (noIn : Bool) (last : ParseState)
    (climb top : Climb) : Prop where
  sound : top.Sound source bound least noIn last
  loose : ∀ next ∈ top.left.head?, next.1.precedence < least
  first : top.grouping.first = climb.grouping.first
  row : top.row = climb.row
  fewer : top.left.length ≤ climb.left.length
  runs : ∀ᶠ depth in atTop, ∀ few, climb.left.length < few →
    Runs (repeatAtMost ((Rules.ofDepth depth).binaryRound climb.grouping.start least noIn) few
        climb.grouping.expr) climb.state fun value after =>
      value = top.grouping.expr ∧ after = top.state

/-- Where no operator is left, or one that binds too loosely, a chain has come to its end. -/
theorem Sound.tops_self {climb : Climb} (sound : climb.Sound source bound least noIn last)
    (loose : ∀ next ∈ climb.left.head?, next.1.precedence < least) :
    climb.Tops source bound least noIn last climb where
  sound := sound
  loose := loose
  first := rfl
  row := rfl
  fewer := Nat.le_refl _
  runs := by
    refine .of_forall fun depth few less => ?_
    obtain ⟨few, rfl⟩ : ∃ more, few = more + 1 := ⟨few - 1, by omega⟩
    apply Parse.repeatAtMost_succ
    have ends : ∀ found, infixOf? noIn climb.state.token = some found →
        found.precedence < least := by
      intro found isInfix
      obtain ⟨grouping, left, state⟩ := climb
      cases sound.onwards with
      | ends stops => simp [stops] at isInfix
      | goesOn isOp =>
          cases isOp.symm.trans isInfix
          exact loose _ rfl
    refine (Rules.binaryRound_ends ends).mono ?_
    rintro _ _ ⟨rfl, rfl⟩
    exact ⟨rfl, rfl⟩

/-- An operand alone begins a chain. -/
theorem sound_operand {operand : Operand} (ready : Ready source bound next)
    (stop : operand.stop = next.lastEnd) (onwards : Onwards noIn next rest last) :
    Sound source bound least noIn last ⟨.operand operand, rest, next⟩ where
  ranked := trivial
  tight := fun _ none => by cases none
  keeps := fun _ none => by cases none
  stop := stop
  ready := ready
  onwards := onwards

/-- A chain with an operator and the right operand that was read behind it. -/
theorem Sound.join {climb right : Climb} {op : BinaryOp} {operand : Operand}
    (sound : climb.Sound source bound least noIn last) (isLeft : climb.left = (op, operand) :: rest)
    (tight : least ≤ op.precedence)
    (rightSound : right.Sound source bound op.rightPrecedence noIn last)
    (loose : ∀ next ∈ right.left.head?, next.1.precedence < op.rightPrecedence) :
    Sound source bound least noIn last
      ⟨.join op climb.grouping right.grouping, right.left, right.state⟩ where
  ranked := by
    refine ⟨⟨fun root isRoot => sound.keeps root isRoot (op, operand) ?_, fun root isRoot => ?_⟩,
      sound.ranked, rightSound.ranked⟩
    · rw [isLeft]
      rfl
    · exact BinaryOp.keepsRight_iff.mpr (rightSound.tight root isRoot)
  tight := by
    rintro _ ⟨⟩
    exact tight
  keeps := by
    rintro _ ⟨⟩ next isNext
    exact BinaryOp.keepsLeft_iff.mpr (loose next isNext)
  stop := rightSound.stop
  ready := rightSound.ready
  onwards := rightSound.onwards

/-- A chain that begins with an operand is what the rule for expressions reads there. -/
theorem Tops.reads {operand : Operand} {top : Climb} (readAt : operand.ReadAt state next)
    (ready : Ready source bound next) (onwards : Onwards noIn next rest last)
    (tops : Tops source bound least noIn last ⟨.operand operand, rest, next⟩ top) :
    Reads (fun rules => rules.binaryExpr least noIn) state top.grouping.expr top.state := by
  apply Reads.of_runs
  filter_upwards [readAt.reads.runs grows_unaryExpr, tops.runs] with depth first runs
  rw [Rules.binaryExpr_eq, Parse.runs_here]
  refine first.bind ?_
  rintro _ after ⟨rfl, rfl⟩
  refine Parse.repeating_runs (rest.length + 1) ?_ ?_
  · have := onwards.length_le ready
    have := after.left_le
    omega
  · rw [← readAt.start]
    exact runs (rest.length + 1) (Nat.lt_succ_self _)

/-- Where the right operand of the operator behind a chain is read, the chain comes to where the
one comes to that is joined with it. -/
theorem Tops.of_join {op : BinaryOp} {operand : Operand} {grouping : Grouping} {right top : Climb}
    (isInfix : infixOf? noIn state.token = some (.operator op)) (tight : least ≤ op.precedence)
    (passes : pass state = .ok ((), behind)) (readAt : operand.ReadAt behind next)
    (ready : Ready source bound next) (onwards : Onwards noIn next rest last)
    (rightTops : Tops source bound op.rightPrecedence noIn last ⟨.operand operand, rest, next⟩ right)
    (tops : Tops source bound least noIn last
      ⟨.join op grouping right.grouping, right.left, right.state⟩ top) :
    Tops source bound least noIn last ⟨grouping, (op, operand) :: rest, state⟩ top where
  sound := tops.sound
  loose := tops.loose
  first := tops.first
  row := by
    have sameFirst : right.grouping.first = operand := rightTops.first
    have sameRow : right.grouping.rest ++ right.left = rest := rightTops.row
    rw [tops.row]
    change (grouping.rest ++ (op, right.grouping.first) :: right.grouping.rest) ++ right.left =
      grouping.rest ++ (op, operand) :: rest
    rw [List.append_assoc, List.cons_append, sameFirst, sameRow]
  fewer := Nat.le_succ_of_le (Nat.le_trans tops.fewer rightTops.fewer)
  runs := by
    have called : Reads (fun rules => rules.binary op.rightPrecedence noIn) behind
        right.grouping.expr right.state := (rightTops.reads readAt ready onwards).called fun _ => rfl
    filter_upwards [called.runs grows_binary, tops.runs] with depth reads runs few less
    obtain ⟨few, rfl⟩ : ∃ more, few = more + 1 := ⟨few - 1, by omega⟩
    apply Parse.repeatAtMost_succ
    refine (Rules.binaryRound_joins isInfix tight passes reads).mono ?_
    rintro _ _ ⟨rfl, rfl⟩
    have fewer := rightTops.fewer
    rw [← rightTops.sound.stop]
    exact runs few (Nat.lt_of_le_of_lt fewer (Nat.lt_of_succ_lt_succ less))

/-- Every chain is read on to its end. The induction is on the operators left: the chain behind an
operator has fewer, and so has the one that goes on with it. -/
theorem Sound.exists_tops {climb : Climb} (sound : climb.Sound source bound least noIn last) :
    ∃ top, climb.Tops source bound least noIn last top := by
  induction count : climb.left.length using Nat.strongRecOn generalizing climb least with
  | _ count inductionHypothesis =>
      subst count
      obtain ⟨grouping, left, state⟩ := climb
      cases sound.onwards with
      | ends stops => exact ⟨_, sound.tops_self (by simp)⟩
      | @goesOn _ behind next _ op operand rest isInfix passes readAt onwards =>
          by_cases tight : least ≤ op.precedence
          · have passed := pass_consumes sound.ready (goesOn_of_infixOf? isInfix) passes
            have ready := (readAt.consumes passed.ready).ready
            obtain ⟨right, rightTops⟩ := inductionHypothesis rest.length (Nat.lt_succ_self _)
              (sound_operand ready readAt.stop onwards) rfl
            obtain ⟨top, tops⟩ := inductionHypothesis right.left.length
              (Nat.lt_succ_of_le rightTops.fewer)
              (sound.join rfl tight rightTops.sound rightTops.loose) rfl
            exact ⟨top, .of_join isInfix tight passes readAt ready onwards rightTops tops⟩
          · exact ⟨_, sound.tops_self (by simpa using tight)⟩

end Climb

/-- Operands joined by binary operators, wherever each of them is read as a unary expression behind
its operator, are read as the one ranked grouping that there is of them, up to the token that is
nothing between operands. -/
theorem binaryExpr_reads_ranked {first : Operand} (ready : Ready source bound state)
    (readAt : first.ReadAt state next) (onwards : Onwards noIn next rest last) :
    ∃ grouping : Grouping,
      (∀ other : Grouping, other.Ranked ∧ other.first = first ∧ other.rest = rest ↔
        other = grouping) ∧
      Reads (fun rules => rules.binaryExpr 1 noIn) state grouping.expr last := by
  have readyNext := (readAt.consumes ready).ready
  have sound : Climb.Sound source bound 1 noIn last ⟨.operand first, rest, next⟩ :=
    Climb.sound_operand readyNext readAt.stop onwards
  obtain ⟨top, tops⟩ := sound.exists_tops
  have reads := tops.reads readAt readyNext onwards
  have whole := tops.row
  obtain ⟨grouping, left, here⟩ := top
  cases tops.sound.onwards with
  | ends =>
      have isRest : grouping.rest = rest := by simpa [Climb.row, Grouping.rest] using whole
      refine ⟨grouping, fun other => ⟨?_, ?_⟩, reads⟩
      · rintro ⟨ranked, isFirst, isRest'⟩
        exact ranked.unique tops.sound.ranked (isFirst.trans tops.first.symm)
          (isRest'.trans isRest.symm)
      · rintro rfl
        exact ⟨tops.sound.ranked, tops.first, isRest⟩
  | @goesOn _ _ _ _ op =>
      -- Nothing binds too loosely for a chain from the loosest operators on.
      exact absurd (tops.loose _ rfl) (Nat.not_lt_of_le op.one_le_precedence)

end StopMotion.Syntax
