import Mathlib.Data.List.Basic
import StopMotion.Proofs.Syntax.Visit
import StopMotion.Validation.Report

/-!
# Quiet modules

What a module must be like for the layers of a validation to have nothing to say about it: no node
of it is about a rule of the renderer or a sentinel in a text, and the names that it mentions are
declared. Each of this follows from the parts of a node, so it is shown along the tree.
-/

namespace StopMotion.Validation

open Syntax

/-- A node that is no sentinel in a text and that no rule of the renderer is about. -/
structure Idle {c : Category} (node : Node c) : Prop where
  sentinels : ownSentinels node = []
  problem : ∀ expr, node.asExpr? = some expr → ∀ calls, exprProblem? calls expr = none
  unnamed : ∀ expr, node.asExpr? = some expr → expr.name? = none

namespace Idle

/-- What is no expression is idle if there is no sentinel in it. -/
theorem of_other {c : Category} {node : Node c} (sentinels : ownSentinels node = [])
    (other : node.asExpr? = none) : Idle node where
  sentinels := sentinels
  problem := by
    intro expr isExpr
    rw [other] at isExpr
    cases isExpr
  unnamed := by
    intro expr isExpr
    rw [other] at isExpr
    cases isExpr

theorem of_expr {expr : Expr} (sentinels : ownSentinels expr = [])
    (problem : ∀ calls, exprProblem? calls expr = none) (unnamed : expr.name? = none) :
    Idle expr where
  sentinels := sentinels
  problem := by
    rintro _ ⟨⟩
    exact problem
  unnamed := by
    rintro _ ⟨⟩
    exact unnamed

end Idle

/-- A node that mentions some names at most, with idle nodes in it. -/
structure Quiet (names : List String) {c : Category} (node : Node c) : Prop where
  mentions : ∀ name ∈ (outline .binds node).mentions, name.text ∈ names
  inside : ∀ inner : AnyNode, Node.Inside inner ⟨c, node⟩ → Idle inner.2

namespace Quiet

variable {names : List String} {c : Category}

/-- An idle node is quiet if its parts are and all that it mentions is mentioned in them. -/
theorem of_parts {node : Node c} (idle : Idle node)
    (mentions : ∀ name ∈ (outline .binds node).mentions, name.text ∈ names ∨
      ∃ part ∈ node.parts, name ∈ (outline .binds part.2).mentions)
    (parts : ∀ part ∈ node.parts, Quiet names part.2) : Quiet names node where
  mentions := by
    intro name member
    rcases mentions name member with own | ⟨part, isPart, inside⟩
    · exact own
    · exact (parts part isPart).mentions name inside
  inside := by
    rintro inner inside
    cases inside with
    | self => exact idle
    | part isPart inside => exact (parts _ isPart).inside inner inside

/-- A literal and any other idle node without parts are quiet. -/
theorem leaf {node : Node c} (idle : Idle node) (mentions : (outline .binds node).mentions = [])
    (parts : node.parts = []) : Quiet names node := by
  apply of_parts idle
  · rw [mentions]
    intro name member
    cases member
  · rw [parts]
    intro part member
    cases member

/-- A list of quiet nodes is quiet. -/
theorem ofList {nodes : List (Node c)} (all : ∀ node ∈ nodes, Quiet names node) :
    Quiet names (Node.ofList nodes) := by
  induction nodes with
  | nil => exact leaf (.of_other rfl rfl) rfl rfl
  | cons node nodes inductionHypothesis =>
      have later := inductionHypothesis fun other member => all other (List.mem_cons_of_mem _ member)
      apply of_parts (.of_other rfl rfl)
      · intro name member
        rcases List.mem_append.mp member with first | behind
        · exact .inr ⟨⟨_, node⟩, List.mem_cons_self, first⟩
        · exact .inr ⟨⟨_, Node.ofList nodes⟩, List.mem_cons_of_mem _ List.mem_cons_self, behind⟩
      · intro part isPart
        rcases List.mem_pair.mp isPart with rfl | rfl
        · exact all node List.mem_cons_self
        · exact later

/-- A node is as quiet as its only part. -/
theorem single {node : Node c} {c' : Category} {part : Node c'} (quiet : Quiet names part)
    (idle : Idle node) (mentions : (outline .binds node).mentions = (outline .binds part).mentions)
    (parts : node.parts = [⟨c', part⟩]) : Quiet names node := by
  apply of_parts idle
  · rw [mentions, parts]
    intro name member
    exact .inr ⟨⟨c', part⟩, List.mem_cons_self, member⟩
  · rw [parts]
    intro other isPart
    cases List.mem_singleton.mp isPart
    exact quiet

end Quiet

/-! ## The layers -/

variable {names : List String} {module : Module}

/-- What is visible everywhere is resolved wherever it is mentioned. -/
theorem Outline.unresolved_eq_nil {outlined : Outline} {visible : List String}
    (known : ∀ name ∈ outlined.mentions, name.text ∈ visible) :
    outlined.unresolved visible = [] := by
  induction outlined generalizing visible with
  | silent => rfl
  | mention name =>
      have isKnown := known name List.mem_cons_self
      simp [unresolved, isKnown]
  | beside first second firstHypothesis secondHypothesis =>
      rw [unresolved,
        firstHypothesis fun name member => known name (List.mem_append_left _ member),
        secondHypothesis fun name member => known name (List.mem_append_right _ member)]
      rfl
  | scope names inside inductionHypothesis =>
      exact inductionHypothesis fun name member => List.mem_append_right _ (known name member)

/-- A module that mentions no names but some of its own has no undeclared names. -/
theorem undeclared_eq_nil (quiet : ∀ statement ∈ module.body, Quiet names statement)
    (declares : ∀ name ∈ names, name ∈ declaredInBody (Node.ofList module.body)) :
    undeclared module = [] := by
  have resolved : (outline .binds (Node.ofList module.body)).unresolved
      (declaredInBody (Node.ofList module.body) ++ globals) = [] := by
    apply Outline.unresolved_eq_nil
    intro name member
    exact List.mem_append_left _ (declares _ ((Quiet.ofList quiet).mentions name member))
  exact resolved

theorem sentinels_eq_nil (quiet : ∀ statement ∈ module.body, Quiet names statement) :
    sentinels module = [] := by
  apply List.flatMap_eq_nil_iff.mpr
  intro statement member
  apply List.eq_nil_iff_forall_not_mem.mpr
  intro concern found
  obtain ⟨inner, inside, -, own⟩ := Node.exists_of_mem_collect statement found
  rw [((quiet statement member).inside inner inside).sentinels] at own
  cases own

/-- The expressions of a quiet module are idle. -/
theorem idle_of_mem_exprs (quiet : ∀ statement ∈ module.body, Quiet names statement) {expr : Expr}
    (member : expr ∈ module.body.flatMap Node.exprs) :
    (∀ calls, exprProblem? calls expr = none) ∧ expr.name? = none := by
  obtain ⟨statement, isStatement, found⟩ := List.mem_flatMap.mp member
  obtain ⟨inner, inside, -, own⟩ := Node.exists_of_mem_collect statement found
  have idle := (quiet statement isStatement).inside inner inside
  have isExpr := Option.mem_toList.mp own
  exact ⟨idle.problem expr isExpr, idle.unnamed expr isExpr⟩

theorem misuses_eq_nil (quiet : ∀ statement ∈ module.body, Quiet names statement) :
    misuses module = [] := by
  have found : ((module.body.flatMap Node.exprs).filterMap fun expr =>
      (exprProblem? (CounterCalls.of module) expr).map fun problem =>
        Concern.mk expr.span problem) = [] := by
    apply List.filterMap_eq_nil_iff.mpr
    intro expr member
    rw [(idle_of_mem_exprs quiet member).1]
    rfl
  have counted : missingCounter? module (CounterCalls.of module) = none := by
    have unmentioned :
        ((module.body.flatMap Node.exprs).find? fun expr => expr.name? == some "frame") = none := by
      apply List.find?_eq_none.mpr
      intro expr member
      rw [(idle_of_mem_exprs quiet member).2]
      decide
    unfold missingCounter?
    rw [unmentioned]
    exact ite_self _
  unfold misuses
  dsimp only
  rw [found, counted]
  exact List.mergeSort_nil

/-- About a quiet module only the checker can have anything to say. -/
theorem concerns_of_quiet (quiet : ∀ statement ∈ module.body, Quiet names statement)
    (declares : ∀ name ∈ names, name ∈ declaredInBody (Node.ofList module.body))
    (index : LineIndex) (verdict : Checker.Verdict) :
    concerns module index verdict = checkConcerns module.source index [] verdict := by
  unfold concerns
  dsimp only
  rw [undeclared_eq_nil quiet declares, sentinels_eq_nil quiet, misuses_eq_nil quiet]
  simp

end StopMotion.Validation
