import StopMotion.Validation.Report

/-!
# Valid reports

A report is valid if nothing in it blocks. A source that cannot be read blocks, and so do names
that nothing declares and misuses of the renderer, whatever a type checker says: what has a valid
report can be read, and has neither.
-/

namespace StopMotion.Validation

open StopMotion.Syntax StopMotion.State StopMotion.Checker

variable {m : Type → Type} [Monad m]

/-! ## Problems of the renderer -/

section

variable {arguments : List Expr} {problem : Problem}

theorem layer_of_interpolateProblem? (found : interpolateProblem? arguments = some problem) :
    problem.layer = .domain := by
  unfold interpolateProblem? at found
  split at found
  · split at found
    · dsimp only at found
      split at found <;> cases found
      rfl
    · cases found
  · cases found
    rfl

theorem layer_of_springProblem? (found : springProblem? arguments = some problem) :
    problem.layer = .domain := by
  unfold springProblem? at found
  split at found
  · split at found <;> cases found
    rfl
  · cases found

theorem layer_of_callProblem? {name : String}
    (found : callProblem? name arguments = some problem) : problem.layer = .domain := by
  unfold callProblem? at found
  split at found
  · cases found
    rfl
  split at found
  · cases found
    rfl
  split at found
  · cases found
    rfl
  split at found
  · exact layer_of_interpolateProblem? found
  · exact layer_of_springProblem? found
  · cases found

/-- What is wrong with an expression is wrong by a rule of the renderer. -/
theorem layer_of_exprProblem? {calls : CounterCalls} {expr : Expr}
    (found : exprProblem? calls expr = some problem) : problem.layer = .domain := by
  unfold exprProblem? at found
  split at found
  · split at found
    · split at found <;> cases found
      rfl
    · obtain ⟨name, _, found⟩ := Option.bind_eq_some_iff.mp found
      exact layer_of_callProblem? found
  · split at found <;> cases found
    rfl
  · split at found <;> cases found
    rfl
  · cases found

end

theorem layer_of_missingCounter? {module : Module} {calls : CounterCalls} {concern : Concern}
    (found : missingCounter? module calls = some concern) : concern.problem.layer = .domain := by
  unfold missingCounter? at found
  dsimp only at found
  split at found
  · cases found
  · obtain ⟨expr, _, rfl⟩ := Option.map_eq_some_iff.mp found
    rfl

/-- Every misuse is one of a rule of the renderer. -/
theorem layer_of_mem_misuses {module : Module} {concern : Concern}
    (member : concern ∈ misuses module) : concern.problem.layer = .domain := by
  unfold misuses at member
  dsimp only at member
  rw [List.mem_mergeSort] at member
  rcases List.mem_append.mp member with inExpr | missing
  · obtain ⟨expr, _, found⟩ := List.mem_filterMap.mp inExpr
    obtain ⟨problem, wrong, rfl⟩ := Option.map_eq_some_iff.mp found
    exact layer_of_exprProblem? wrong
  · exact layer_of_missingCounter? (Option.mem_toList.mp missing)

/-! ## What blocks -/

/-- The checker alone may have nothing to say, and texts that show a sentinel are let pass; all
other layers block. -/
theorem Problem.isBlocking_of_layer {problem : Problem} (notChecker : problem.layer ≠ .typeCheck)
    (notTemplate : problem.layer ≠ .template) : problem.isBlocking = true := by
  cases problem <;> first | rfl | exact absurd rfl notChecker | exact absurd rfl notTemplate

theorem Report.isValid_iff (report : Report) :
    report.isValid = true ↔
      ∀ finding ∈ report.findings, finding.problem.isBlocking = false := by
  simp [Report.isValid]

/-- A source that cannot be read has no valid report. -/
theorem isValid_unreadable (identifier : String) (index : LineIndex) (span : Span) (cause : Cause) :
    (Report.mk identifier [locate index ⟨span, .unreadable cause⟩]).isValid = false :=
  rfl

/-- A module with a valid report declares all that it mentions and keeps to the rules of the
renderer. -/
theorem clean_of_isValid {module : Module} {identifier : String} {index : LineIndex}
    {verdict : Verdict}
    (valid : (Report.mk identifier
      ((concerns module index verdict).map (locate index))).isValid = true) :
    undeclared module = [] ∧ misuses module = [] := by
  have lets : ∀ concern ∈ concerns module index verdict, concern.problem.isBlocking = false := by
    intro concern member
    exact (Report.isValid_iff _).mp valid _ (List.mem_map_of_mem member)
  constructor
  · apply List.eq_nil_iff_forall_not_mem.mpr
    intro name member
    have passed := lets ⟨name.span, .notDefined name.text⟩ (by
      simp only [concerns, List.mem_append, List.mem_map]
      exact .inl (.inl (.inl ⟨name, member, rfl⟩)))
    cases passed
  · apply List.eq_nil_iff_forall_not_mem.mpr
    intro concern member
    have passed := lets concern (by
      simp only [concerns, List.mem_append]
      exact .inr member)
    have domain := layer_of_mem_misuses member
    rw [Problem.isBlocking_of_layer (by simp [domain]) (by simp [domain])] at passed
    cases passed

/-! ## Validation -/

/-- A text that cannot be read is reported without the checker. -/
theorem validate_of_error {check : String → m Verdict} {text : String} {error : SyntaxError}
    (unreadable : parse text.toList = .error error) (identifier : String) :
    validate check text identifier = pure ⟨identifier,
      [locate (LineIndex.of text.toList) ⟨error.span, .unreadable error.cause⟩]⟩ := by
  unfold validate
  dsimp only
  rw [unreadable]

/-- The checker is asked about a text that can be read, once, and the report is about that text. -/
theorem validate_of_ok {check : String → m Verdict} {text : String} {module : Module}
    (parsed : parse text.toList = .ok module) (identifier : String) :
    validate check text identifier = (do
      let verdict ← check text
      return ⟨identifier, (concerns module (LineIndex.of text.toList) verdict).map
        (locate (LineIndex.of text.toList))⟩) := by
  unfold validate
  dsimp only
  rw [parsed]

end StopMotion.Validation
