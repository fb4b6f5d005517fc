import Mathlib.Order.Filter.AtTopBot.Basic
import StopMotion.Proofs.Syntax.Depth.Grammar
import StopMotion.Proofs.Syntax.Grammar
import StopMotion.Proofs.Syntax.Run

/-!
# What rules read at any depth

What the rules of one depth answer, those of every greater depth answer, so a rule `Reads`
something or it does not, whatever its depth. The reading of a source is not given up at the depth
that it has, and more depth would not change it.
-/

namespace StopMotion.Syntax

open Filter
open Parse (Deepens)

namespace Rules

/-- Rules that refuse everything for their depth deepen to all others. -/
theorem deepen_bottom (rules : Rules) : bottom.Deepen rules := by
  have givenUp {α : Type} {deep : Parse α} :
      Deepens (do Parse.fail (← Parse.token).span .nestedTooDeeply) deep :=
    .of_givenUp fun state => ⟨⟨state.token.span, .nestedTooDeeply⟩, rfl, rfl⟩
  exact
    { statement := givenUp
      assignment := fun _ => givenUp
      binary := fun _ _ => givenUp
      unary := givenUp
      access := givenUp
      construction := givenUp
      target := givenUp
      element := fun _ => givenUp }

/-- Rules one level above deepen with those below. -/
theorem Deepen.next {shallow deep : Unit → Rules} (deepen : (shallow ()).Deepen (deep ())) :
    (Rules.next shallow).Deepen (Rules.next deep) where
  statement := deepen.anyStmt
  assignment := deepen.assignmentExpr
  binary := deepen.binaryExpr
  unary := deepen.unaryExpr
  access := deepen.accessChain
  construction := deepen.newExpr
  target := deepen.bindingTarget
  element := deepen.jsxElement

theorem deepen_ofDepth {shallow deep : Nat} (le : shallow ≤ deep) :
    (ofDepth shallow).Deepen (ofDepth deep) := by
  induction shallow generalizing deep with
  | zero => exact deepen_bottom _
  | succ shallow inductionHypothesis =>
      obtain ⟨deep, rfl⟩ : ∃ more, deep = more + 1 := ⟨deep - 1, by omega⟩
      exact .next (inductionHypothesis (by omega))

end Rules

/-! ## Answers at any depth -/

section

variable {α β : Type} {rule : Rules → Parse α} {state next : ParseState} {value : α}

/-- A rule that deepens with the rules that it calls. -/
def Grows (rule : Rules → Parse α) : Prop :=
  ∀ ⦃shallow deep : Rules⦄, shallow.Deepen deep → Deepens (rule shallow) (rule deep)

theorem grows_unaryExpr : Grows Rules.unaryExpr := fun _ _ deepen => deepen.unaryExpr

theorem grows_binary {least : Nat} {noIn : Bool} : Grows fun rules => rules.binary least noIn :=
  fun _ _ deepen => deepen.binary least noIn

theorem grows_binaryExpr {least : Nat} {noIn : Bool} :
    Grows fun rules => rules.binaryExpr least noIn :=
  fun _ _ deepen => deepen.binaryExpr least noIn

theorem grows_conditionalExpr {noIn : Bool} : Grows fun rules => rules.conditionalExpr noIn :=
  fun _ _ deepen => deepen.conditionalExpr noIn

theorem grows_arrow? {noIn : Bool} : Grows fun rules => rules.arrow? noIn :=
  fun _ _ deepen => deepen.arrow? noIn

theorem grows_assignment {noIn : Bool} : Grows fun rules => rules.assignment noIn :=
  fun _ _ deepen => deepen.assignment noIn

theorem grows_expression {noIn : Bool} : Grows fun rules => rules.expression noIn :=
  fun _ _ deepen => deepen.expression noIn

theorem grows_statement : Grows Rules.statement := fun _ _ deepen => deepen.statement

/-- A rule answers a value, with some depth to do so, and leaves the reading where `next` is. -/
def Reads (rule : Rules → Parse α) (state : ParseState) (value : α) (next : ParseState) : Prop :=
  ∃ depth, rule (Rules.ofDepth depth) state = .ok (value, next)

/-- What is answered at a depth is answered at all greater ones. -/
theorem Reads.eventually (grows : Grows rule) (reads : Reads rule state value next) :
    ∀ᶠ depth in atTop, rule (Rules.ofDepth depth) state = .ok (value, next) := by
  obtain ⟨depth, run⟩ := reads
  filter_upwards [eventually_ge_atTop depth] with deeper le
  exact (grows (Rules.deepen_ofDepth le)).of_ok run

theorem Reads.runs (grows : Grows rule) (reads : Reads rule state value next) :
    ∀ᶠ depth in atTop, Parse.Runs (rule (Rules.ofDepth depth)) state fun answer after =>
      answer = value ∧ after = next := by
  filter_upwards [reads.eventually grows] with depth run
  exact ⟨value, next, run, rfl, rfl⟩

theorem Reads.of_runs
    (runs : ∀ᶠ depth in atTop, Parse.Runs (rule (Rules.ofDepth depth)) state fun answer after =>
      answer = value ∧ after = next) : Reads rule state value next := by
  obtain ⟨depth, _, _, run, rfl, rfl⟩ := runs.exists
  exact ⟨depth, run⟩

/-- What a rule reads, the call of it reads. -/
theorem Reads.called {call : Rules → Parse α} (reads : Reads rule state value next)
    (calls : ∀ depth, call (Rules.ofDepth (depth + 1)) = rule (Rules.ofDepth depth)) :
    Reads call state value next := by
  obtain ⟨depth, run⟩ := reads
  exact ⟨depth + 1, by rw [calls, run]⟩

/-- A rule answers one thing, whatever the depth. -/
theorem Reads.unique {value' : α} {next' : ParseState} (grows : Grows rule)
    (reads : Reads rule state value next) (reads' : Reads rule state value' next') :
    value = value' ∧ next = next' := by
  obtain ⟨depth, run, run'⟩ := ((reads.eventually grows).and (reads'.eventually grows)).exists
  rw [run] at run'
  cases run'
  exact ⟨rfl, rfl⟩

/-- What is said of a step where its source fits some depth holds of all that the rule reads. -/
theorem Reads.holds {limit : Nat} {holds : α → ParseState → Prop}
    (grows : Grows rule) (reads : Reads rule state value next)
    (yields : ∀ ⦃depth⦄, limit ≤ depth → Parse.Yields (rule (Rules.ofDepth depth)) state holds) :
    holds value next := by
  obtain ⟨depth, run, le⟩ :=
    ((reads.eventually grows).and (eventually_ge_atTop limit)).exists
  exact (yields le).of_run run

end

/-- The reading of a source is the same with any depth that is no smaller than its own. -/
theorem readStatements_eq {source : List Char} {depth : Nat} (le : 3 * source.length + 3 ≤ depth) :
    readStatements source = (do
      let (first, cursor) ← readToken true (Cursor.start source)
      let (body, _) ← (Parse.many Parse.atEnd? (Rules.ofDepth depth).statement).run
        ⟨source, cursor, first, 0, false⟩
      return body) := by
  unfold readStatements
  cases firstRead : readToken true (Cursor.start source) with
  | error error => rfl
  | ok answer =>
      obtain ⟨first, cursor⟩ := answer
      have yields := Parse.statements_yields (Parse.ready_start firstRead)
      have deepens : Deepens
          (Parse.many Parse.atEnd? (Rules.ofDepth (3 * source.length + 3)).statement)
          (Parse.many Parse.atEnd? (Rules.ofDepth depth).statement) :=
        (Rules.deepen_ofDepth le).statement.many
      rcases deepens ⟨source, cursor, first, 0, false⟩ with ⟨error, refused, givenUp⟩ | same
      · exact absurd givenUp (by rw [yields.of_error refused]; decide)
      · change Except.bind (Parse.many Parse.atEnd? (Rules.ofDepth (3 * source.length + 3)).statement
            ⟨source, cursor, first, 0, false⟩) _ =
          Except.bind (Parse.many Parse.atEnd? (Rules.ofDepth depth).statement
            ⟨source, cursor, first, 0, false⟩) _
        rw [same]

end StopMotion.Syntax
