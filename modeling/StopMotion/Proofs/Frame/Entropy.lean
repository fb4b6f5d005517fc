import StopMotion.Frame.Drive
import StopMotion.Proofs.Frame.Removal
import StopMotion.Validation.Misuse

/-!
# Recognised entropy

The validator and the rewriter each recognise chance, clocks and timers by a function of
their own. What the validator reports the rewriter knows too, but for a clock or a draw that
is given arguments and for the clock of the window. All that it knows is taken up by an edit.
-/

namespace StopMotion.Frame

open StopMotion.Syntax StopMotion.State StopMotion.Validation

/-! ## Two recognisers -/

/-- Whether a problem is one of chance, of a clock or of a timer. -/
def isResidual : Problem → Bool
  | .nondeterministic _ | .wallClock _ => true
  | _ => false

/-- Whether an expression is a call that the validator reports and the rewriter passes over:
of a clock or a draw with arguments, or of the clock of the window. -/
def isPassedOver : Expr → Bool
  | .call _ callee arguments _ =>
    callee.dotted? == some "window.performance.now" ||
      (callee.dotted?.any ["Math.random", "Date.now", "performance.now"].contains &&
        !arguments.toList.isEmpty)
  | _ => false

/-- What the validator reports about a call by name is chance, a clock or a timer only for
some names. -/
theorem name_of_callProblem? {name : String} {arguments : List Expr} {problem : Problem}
    (found : callProblem? name arguments = some problem) (residual : isResidual problem = true) :
    name = "Math.random" ∨ name ∈ clocks ∨ name ∈ schedulers := by
  unfold callProblem? at found
  split at found
  · exact .inl ‹_›
  split at found
  · rename_i clock
    exact .inr (.inl (by simpa using clock))
  split at found
  · rename_i scheduler
    exact .inr (.inr (by simpa using scheduler))
  -- The rules about ranges and rates are no residuals.
  have range {arguments : List Expr} (found : interpolateProblem? arguments = some problem) :
      False := by
    unfold interpolateProblem? at found
    split at found
    · split at found
      · dsimp only at found
        split at found <;> cases found
        cases residual
      · cases found
    · cases found
      cases residual
  have rate {arguments : List Expr} (found : springProblem? arguments = some problem) : False := by
    unfold springProblem? at found
    split at found
    · split at found <;> cases found
      cases residual
    · cases found
  split at found
  · exact (range found).elim
  · exact (rate found).elim
  · cases found

/-- A function that the validator takes for a scheduler is known as a timer. -/
theorem isSome_ofCallee?_of_mem_schedulers {callee : Expr} {name : String}
    (dotted : callee.dotted? = some name) (scheduler : name ∈ schedulers) :
    (TimerFunction.ofCallee? callee).isSome = true := by
  have known : ∀ name ∈ schedulers, (TimerFunction.all.find? fun timer =>
      timer.text == (Text.afterString? "window." name).getD name).isSome = true := by
    decide +kernel
  rw [TimerFunction.ofCallee?, dotted]
  exact known name scheduler

/-- What the validator reports as chance, a clock or a timer the rewriter knows as entropy, if
it is no call that it passes over. -/
theorem isSome_entropy?_of_problem {calls : CounterCalls} {expr : Expr} {problem : Problem}
    (found : exprProblem? calls expr = some problem) (residual : isResidual problem = true)
    (known : isPassedOver expr = false) : (entropy? expr).isSome = true := by
  cases expr with
  | call span callee arguments isOptional =>
      simp only [exprProblem?] at found
      split at found
      · split at found <;> cases found
        cases residual
      obtain ⟨name, dotted, found⟩ := Option.bind_eq_some_iff.mp found
      simp only [isPassedOver, dotted, Option.any_some, Bool.or_eq_false_iff, beq_eq_false_iff_ne,
        ne_eq, Option.some.injEq, Bool.and_eq_false_imp, Bool.not_eq_false'] at known
      obtain ⟨notWindow, bare⟩ := known
      simp only [entropy?]
      rcases name_of_callProblem? found residual with rfl | clock | scheduler
      · have draws : isRandomCall (.call span callee arguments isOptional) = true := by
          have none : arguments.toList = [] := by simpa using bare (by decide)
          simp [isRandomCall, call?, none, dotted]
        rw [if_pos draws]
        rfl
      · have clock : name = "Date.now" ∨ name = "performance.now" := by
          simpa [clocks, notWindow] using clock
        have none : arguments.toList.isEmpty = true :=
          bare (by rcases clock with rfl | rfl <;> decide)
        have isClock : (["Date.now", "performance.now"].contains name) = true := by
          rcases clock with rfl | rfl <;> decide
        split
        · rfl
        · rw [if_pos (by simp [none, dotted] at isClock ⊢; exact isClock)]
          rfl
      · split
        · rfl
        split
        · rfl
        · rw [if_pos (isSome_ofCallee?_of_mem_schedulers dotted scheduler)]
          rfl
  | newCall span callee arguments =>
      cases arguments with
      | cons => cases found
      | nil =>
          simp only [exprProblem?] at found
          split at found
          · rename_i isDate
            simp [entropy?, isDate]
          · cases found
  | name span name =>
      simp only [exprProblem?] at found
      split at found <;> cases found
      cases residual
  | _ => cases found

/-! ## Sites -/

variable {module : Module} {removed : List Edit}

/-- Every site of entropy is an expression of the module that is one. -/
theorem exists_of_mem_entropySites {site : EntropySite}
    (member : site ∈ entropySites removed module) :
    ∃ expr : Expr, module.Holds ⟨_, expr⟩ ∧ expr.span = site.span ∧
      entropy? expr = some site.entropy := by
  obtain ⟨node, held, _, found⟩ := Module.exists_of_mem_visit member
  simp only [pickEntropy] at found
  cases isExpr : node.2.asExpr? with
  | none => cases isStmt : node.2.asStmt? <;> simp [isExpr, isStmt] at found
  | some expr =>
      simp only [isExpr] at found
      rw [Node.eq_of_asExpr? isExpr] at held
      split at found
      · cases found
      · cases entropy : entropy? expr with
        | none =>
            rw [entropy] at found
            cases found
        | some _ =>
            rw [entropy] at found
            obtain rfl := List.mem_singleton.mp found
            exact ⟨expr, held, rfl, entropy⟩

/-- Some replacement takes up a place. -/
def TakenUp (edits : List Edit) (span : Span) : Prop :=
  ∃ edit ∈ edits, edit.isInsertion = false ∧ edit.span.contains span = true

theorem takenUp_of_covers {edits : List Edit} {span : Span}
    (covered : Edit.covers edits span = true) : TakenUp edits span := by
  simpa [Edit.covers, TakenUp] using covered

theorem TakenUp.of_contains {edits : List Edit} {outer inner : Span}
    (takenUp : TakenUp edits outer) (inside : outer.contains inner = true) :
    TakenUp edits inner := by
  obtain ⟨edit, member, replaces, contains⟩ := takenUp
  exact ⟨edit, member, replaces, Span.contains_trans contains inside⟩

/-- Every entropy of a module is removed already or lies at a site. -/
theorem takenUp_or_site {expr : Expr} (laid : module.Laid) (held : module.Holds ⟨_, expr⟩)
    (entropic : (entropy? expr).isSome = true) :
    TakenUp removed expr.span ∨
      ∃ site ∈ entropySites removed module, site.span.contains expr.span = true := by
  obtain ⟨middle, inside, middleHeld, _, found, reached⟩ :=
    held.exists_visited (fun node => pickEntropy removed node) rfl
  obtain ⟨_, shape⟩ := expr.outline_expr
  have within {role : Role} {span : Span} {forest : Forest}
      (around : middle.2.outline = .one role span forest) : span.contains expr.span = true :=
    laid.contains_of_inside middleHeld around shape inside
  -- Where the visit stops, the node is removed, or it is an entropy itself.
  have atExpr {outer : Expr} (same : middle = ⟨_, outer⟩)
      (stop : Edit.covers removed outer.span = true ∨ (entropy? outer).isSome = true) :
      TakenUp removed expr.span ∨
        ∃ site ∈ entropySites removed module, site.span.contains expr.span = true := by
    subst same
    obtain ⟨_, around⟩ := outer.outline_expr
    by_cases covered : Edit.covers removed outer.span = true
    · exact .inl ((takenUp_of_covers covered).of_contains (within around))
    · obtain ⟨entropy, isEntropy⟩ := Option.isSome_iff_exists.mp (stop.resolve_left covered)
      refine .inr ⟨⟨outer.span, entropy⟩, found _ ?_, within around⟩
      simp [pickEntropy, Node.asExpr?, covered, isEntropy]
  rcases reached with same | stops
  · exact atExpr same (.inr entropic)
  · simp only [pickEntropy] at stops
    cases isExpr : middle.2.asExpr? with
    | some outer =>
        apply atExpr (Node.eq_of_asExpr? isExpr)
        simp only [isExpr] at stops
        split at stops
        · exact .inl ‹_›
        · cases entropy : entropy? outer with
          | none =>
              rw [entropy] at stops
              cases stops
          | some _ => exact .inr rfl
    | none =>
        cases isStmt : middle.2.asStmt? with
        | none =>
            rw [isExpr, isStmt] at stops
            cases stops
        | some stmt =>
            rw [isExpr, isStmt] at stops
            obtain rfl := Node.eq_of_asStmt? isStmt
            obtain ⟨_, _, around, _⟩ := stmt.outline_stmt
            exact .inl ((takenUp_of_covers (by simpa using stops)).of_contains (within around))

end StopMotion.Frame
