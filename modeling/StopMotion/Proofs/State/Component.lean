import StopMotion.Proofs.Syntax.Region
import StopMotion.State.Component

/-!
# Components in their module

A callable stands at a function or an arrow of the tree, and its statements stand in order
inside of that. The components of a module stand one behind the other.
-/

namespace StopMotion.State

open StopMotion.Syntax

/-- The node that a callable is a view of. -/
inductive Callable.Views : Callable → AnyNode → Prop where
  | function (value : Function) : Views (ofFunction value) ⟨_, value⟩
  | value (span : Span) (params : Node (.list .pattern)) (value : Expr) (isAsync : Bool) :
      Views ⟨params.toList, .expr value, span⟩ ⟨_, .arrow span params (.bodyExpr value) isAsync⟩
  | block (span bodySpan : Span) (params : Node (.list .pattern)) (body : Node (.list .stmt))
      (isAsync : Bool) :
      Views ⟨params.toList, .block bodySpan body.toList, span⟩
        ⟨_, .arrow span params (.bodyBlock bodySpan body) isAsync⟩

/-- A callable that stands somewhere inside of a node. -/
def Callable.StandsIn (callable : Callable) (outer : AnyNode) : Prop :=
  ∃ node : AnyNode, callable.Views node ∧ Node.Inside node outer

namespace Callable

variable {callable : Callable} {node outer : AnyNode}

/-- The stretch of a callable is that of its node. -/
theorem Views.outline (views : callable.Views node) :
    ∃ role inside, node.2.outline = .one role callable.span inside := by
  cases views with
  | function value =>
      cases value
      exact ⟨_, _, rfl⟩
  | value => exact ⟨_, _, rfl⟩
  | block => exact ⟨_, _, rfl⟩

/-- The statements of a callable stand inside of its node. -/
theorem Views.inside_stmt {stmt : Stmt} (views : callable.Views node)
    (member : stmt ∈ callable.stmts) : Node.Inside ⟨_, stmt⟩ node := by
  cases views with
  | function value =>
      cases value
      exact .part (List.mem_cons_of_mem _ List.mem_cons_self) (Node.inside_of_mem_toList member)
  | value => cases member
  | block =>
      exact .part (List.mem_cons_of_mem _ List.mem_cons_self)
        (.part List.mem_cons_self (Node.inside_of_mem_toList member))

/-- The body of a callable that is an expression stands inside of its node. -/
theorem Views.inside_value {value : Expr} (views : callable.Views node)
    (isValue : callable.body = .expr value) : Node.Inside ⟨_, value⟩ node := by
  cases views with
  | function value =>
      cases value
      cases isValue
  | value =>
      cases isValue
      exact .part (List.mem_cons_of_mem _ List.mem_cons_self) (.part List.mem_cons_self .self)
  | block => cases isValue

/-- The statements of a callable are laid in the braces of its body. -/
theorem Views.laid_stmts {source : List Char} {low high : Nat} {bodySpan : Span}
    {stmts : List Stmt} (views : callable.Views node)
    (laid : node.2.outline.Laid source low high) (isBlock : callable.body = .block bodySpan stmts) :
    (Node.ofList stmts).outline.Laid source (bodySpan.start + 1) (bodySpan.stop - 1) := by
  cases views with
  | function value =>
      cases value
      cases isBlock
      rw [Node.ofList_toList]
      obtain ⟨_, _, _, within, _⟩ := laid
      exact within.of_append_right.2.2.2.1
  | value => cases isBlock
  | block =>
      cases isBlock
      rw [Node.ofList_toList]
      obtain ⟨_, _, _, within, _⟩ := laid
      exact within.of_append_right.2.2.2.1

/-- The statements of a callable stand in order. -/
theorem Views.ordered_stmts {source : List Char} {low high : Nat} (views : callable.Views node)
    (laid : node.2.outline.Laid source low high) :
    callable.stmts.Pairwise fun first second => first.span.stop ≤ second.span.start := by
  cases body : callable.body with
  | expr value => simp [stmts, body]
  | block bodySpan stmts' =>
      simp only [stmts, body]
      refine Node.ordered_of_laid (fun stmt => ?_) (views.laid_stmts laid body)
      obtain ⟨role, inside, shape, _⟩ := stmt.outline_stmt
      exact ⟨role, inside, shape⟩

/-- What a visit of the body of a callable gathers it found inside of the node of the callable. -/
theorem Views.exists_of_mem_collect {α : Type} {pick : {c : Category} → Node c → Pick α} {x : α}
    (views : callable.Views node) (member : x ∈ callable.collect pick) :
    ∃ inner : AnyNode, Node.Inside inner node ∧ x ∈ (pick inner.2).found := by
  unfold collect at member
  cases body : callable.body with
  | block bodySpan stmts =>
      rw [body] at member
      obtain ⟨stmt, isStmt, isInside⟩ := List.mem_flatMap.mp member
      obtain ⟨inner, inside, _, found⟩ := Node.exists_of_mem_collect stmt isInside
      have isStmt : stmt ∈ callable.stmts := by rwa [Callable.stmts, body]
      exact ⟨inner, inside.trans (views.inside_stmt isStmt), found⟩
  | expr value =>
      rw [body] at member
      obtain ⟨inner, inside, _, found⟩ := Node.exists_of_mem_collect value member
      exact ⟨inner, inside.trans (views.inside_value body), found⟩

/-- An expression in the body of a callable stands where the callable stands. -/
theorem StandsIn.inside_expr {expr : Expr} (stands : callable.StandsIn outer)
    (member : expr ∈ callable.exprs) : Node.Inside ⟨_, expr⟩ outer := by
  obtain ⟨node, views, within⟩ := stands
  obtain ⟨inner, inside, found⟩ := views.exists_of_mem_collect member
  rw [Node.eq_of_asExpr? (Option.mem_toList.mp found)] at inside
  exact inside.trans within

theorem StandsIn.trans {further : AnyNode} (stands : callable.StandsIn outer)
    (inside : Node.Inside outer further) : callable.StandsIn further := by
  obtain ⟨node, views, within⟩ := stands
  exact ⟨node, views, within.trans inside⟩

/-- The callable that an expression is stands in it. -/
theorem standsIn_of_ofExpr? {expr : Expr} (found : ofExpr? expr = some callable) :
    callable.StandsIn ⟨_, expr⟩ := by
  have bare : callable.StandsIn ⟨_, expr.bare⟩ := by
    unfold ofExpr? at found
    split at found
    · rename_i span value bare
      cases found
      rw [bare]
      exact ⟨_, .function value, .part List.mem_cons_self .self⟩
    · rename_i span params value isAsync bare
      cases found
      rw [bare]
      exact ⟨_, .value .., .self⟩
    · rename_i span params bodySpan body isAsync bare
      cases found
      rw [bare]
      exact ⟨_, .block .., .self⟩
    · cases found
  exact bare.trans expr.inside_bare

end Callable

/-- The callable that an expression wraps stands in it. -/
theorem standsIn_of_wrapped? {c : Category} {node : Node c} {callable : Callable}
    (found : wrapped? node = some callable) : callable.StandsIn ⟨_, node⟩ := by
  fun_induction wrapped? node with
  | case1 span inner inductionHypothesis | case2 span inner inductionHypothesis =>
      exact (inductionHypothesis found).trans (.part List.mem_cons_self .self)
  | case3 | case4 => exact Callable.standsIn_of_ofExpr? found
  | case5 span callee first rest isOptional wraps inductionHypothesis =>
      refine (inductionHypothesis found).trans (.part (List.mem_cons_of_mem _ List.mem_cons_self) ?_)
      exact .part List.mem_cons_self .self
  | case6 | case7 => cases found

/-- The span of a callable lies in that of a node where it stands. -/
theorem Callable.StandsIn.contains {callable : Callable} {outer : AnyNode} {source : List Char}
    {low high : Nat} {role : Role} {span : Span} {inside : Forest}
    (stands : callable.StandsIn outer) (laid : outer.2.outline.Laid source low high)
    (shape : outer.2.outline = .one role span inside) : span.contains callable.span = true := by
  obtain ⟨node, views, within⟩ := stands
  obtain ⟨_, _, shape'⟩ := views.outline
  exact within.contains laid shape shape'

/-! ## Declarators -/

/-- The declarators of a statement. -/
def declaratorsOf : Stmt → List (Node .declarator)
  | .varStmt _ _ declarators => declarators.toList
  | _ => []

/-- The declarators at the top of a component's body. -/
def Component.declarators (component : Component) : List (Node .declarator) :=
  component.callable.stmts.flatMap declaratorsOf

/-- The declarators of a statement stand inside of it. -/
theorem inside_of_mem_declaratorsOf {stmt : Stmt} {declarator : Node .declarator}
    (member : declarator ∈ declaratorsOf stmt) : Node.Inside ⟨_, declarator⟩ ⟨_, stmt⟩ := by
  cases stmt with
  | varStmt => exact .part List.mem_cons_self (Node.inside_of_mem_toList member)
  | _ => cases member

/-- The declarators of a component stand inside of the component. -/
theorem Component.inside_declarator {component : Component} {node : AnyNode}
    {declarator : Node .declarator} (views : component.callable.Views node)
    (member : declarator ∈ component.declarators) : Node.Inside ⟨_, declarator⟩ node := by
  obtain ⟨stmt, isStmt, isDeclarator⟩ := List.mem_flatMap.mp member
  exact (inside_of_mem_declaratorsOf isDeclarator).trans (views.inside_stmt isStmt)

/-- The declarators of a component stand in order. -/
theorem Component.ordered_declarators {component : Component} {node : AnyNode}
    {source : List Char} {low high : Nat} (views : component.callable.Views node)
    (laid : node.2.outline.Laid source low high) :
    component.declarators.Pairwise fun first second =>
      first.span.stop ≤ second.span.start := by
  have place {stmt : Stmt} (member : stmt ∈ component.callable.stmts) :
      ∃ low high, stmt.outline.Laid source low high :=
    (views.inside_stmt member).outline_part.1 laid
  refine List.pairwise_flatMap.mpr ⟨fun stmt isStmt => ?_, ?_⟩
  · cases stmt with
    | varStmt span kind declarators =>
        obtain ⟨_, _, _, _, _, within, _⟩ := place isStmt
        rw [← declarators.ofList_toList] at within
        exact Node.ordered_of_laid (fun declarator => ⟨_, declarator.outline_declarator⟩) within
    | _ => exact .nil
  · refine (views.ordered_stmts laid).imp_of_mem
      fun isFirst isSecond before declarator member other isOther => ?_
    have within {stmt : Stmt} {declarator : Node .declarator}
        (isStmt : stmt ∈ component.callable.stmts) (member : declarator ∈ declaratorsOf stmt) :
        stmt.span.contains declarator.span = true := by
      obtain ⟨_, _, stmtLaid⟩ := place isStmt
      obtain ⟨_, _, shape, _⟩ := stmt.outline_stmt
      obtain ⟨_, shape'⟩ := declarator.outline_declarator
      exact (inside_of_mem_declaratorsOf member).contains stmtLaid shape shape'
    have := Span.contains_iff.mp (within isFirst member)
    have := Span.contains_iff.mp (within isSecond isOther)
    omega

/-! ## Order -/

/-- Components one behind the other. -/
def Component.Before (first second : Component) : Prop :=
  first.callable.span.stop ≤ second.callable.span.start

/-- What stands in nodes one behind the other stands in that order. -/
theorem before_of_standsIn {first second : Component} {outer outer' : AnyNode}
    {source : List Char} {low high low' high' : Nat} {role role' : Role} {span span' : Span}
    {inside inside' : Forest} (firstStands : first.callable.StandsIn outer)
    (secondStands : second.callable.StandsIn outer')
    (laid : outer.2.outline.Laid source low high)
    (laid' : outer'.2.outline.Laid source low' high')
    (shape : outer.2.outline = .one role span inside)
    (shape' : outer'.2.outline = .one role' span' inside') (ordered : span.stop ≤ span'.start) :
    first.Before second := by
  have := Span.contains_iff.mp (firstStands.contains laid shape)
  have := Span.contains_iff.mp (secondStands.contains laid' shape')
  unfold Component.Before
  omega

theorem standsIn_of_mem_namedCandidate {name : String} {callable : Callable}
    {component : Component} (member : component ∈ namedCandidate name callable) :
    component.callable = callable := by
  unfold namedCandidate at member
  split at member
  · rw [List.mem_singleton.mp member]
  · cases member

/-- A declarator declares at most one component, and that stands in it. -/
theorem standsIn_of_mem_declaratorCandidate {declarator : Node .declarator}
    {component : Component} (member : component ∈ declaratorCandidate declarator) :
    component.callable.StandsIn ⟨_, declarator⟩ := by
  unfold declaratorCandidate at member
  split at member
  · split at member
    · rename_i span nameSpan name init callable wraps
      rw [standsIn_of_mem_namedCandidate member]
      refine (standsIn_of_wrapped? wraps).trans
        (.part (List.mem_cons_of_mem _ List.mem_cons_self) (.part List.mem_cons_self .self))
    · cases member
  · cases member

/-- The components that a statement declares stand in it. -/
theorem standsIn_of_mem_declared {c : Category} {node : Node c} {component : Component}
    (member : component ∈ (declared node).candidates) :
    component.callable.StandsIn ⟨_, node⟩ := by
  fun_induction declared node with
  | case1 span declaration inductionHypothesis =>
      exact (inductionHypothesis member).trans (.part List.mem_cons_self .self)
  | case2 span =>
      rw [List.mem_singleton.mp member]
      dsimp only
      exact ⟨_, .function _, .part List.mem_cons_self .self⟩
  | case3 => cases member
  | case4 span value _ =>
      obtain ⟨callable, wraps, rfl⟩ := List.mem_map.mp member
      exact (standsIn_of_wrapped? (Option.mem_toList.mp wraps)).trans
        (.part List.mem_cons_self .self)
  | case5 => cases member
  | case6 =>
      rw [standsIn_of_mem_namedCandidate member]
      exact ⟨_, .function _, .part List.mem_cons_self .self⟩
  | case7 span kind declarators =>
      obtain ⟨declarator, isDeclarator, isCandidate⟩ := List.mem_flatMap.mp member
      exact (standsIn_of_mem_declaratorCandidate isCandidate).trans
        (.part List.mem_cons_self (Node.inside_of_mem_toList isDeclarator))
  | case8 => cases member

/-- The components that a statement declares stand one behind the other. -/
theorem ordered_declared {c : Category} {node : Node c} {source : List Char} {low high : Nat}
    (laid : node.outline.Laid source low high) :
    (declared node).candidates.Pairwise Component.Before := by
  have named (name : String) (callable : Callable) :
      (namedCandidate name callable).Pairwise Component.Before := by
    unfold namedCandidate
    split
    · exact List.pairwise_singleton ..
    · exact .nil
  fun_induction declared node generalizing low high with
  | case1 span declaration inductionHypothesis => exact inductionHypothesis laid.2.2.2.1
  | case2 => exact List.pairwise_singleton ..
  | case4 span value _ =>
      cases wrapped? value with
      | none => exact .nil
      | some _ => exact List.pairwise_singleton ..
  | case6 => exact named ..
  | case7 span kind declarators =>
      have laidDeclarators : declarators.outline.Laid source span.start span.stop :=
        laid.2.2.2.1
      rw [← declarators.ofList_toList] at laidDeclarators
      have ordered := Node.ordered_of_laid
        (fun declarator => ⟨_, declarator.outline_declarator⟩) laidDeclarators
      rw [declarators.ofList_toList] at laidDeclarators
      refine List.pairwise_flatMap.mpr ⟨fun declarator _ => ?_, ?_⟩
      · unfold declaratorCandidate
        split
        · split
          · exact named ..
          · exact .nil
        · exact .nil
      · refine ordered.imp_of_mem fun isFirst isSecond before component member other isOther => ?_
        have place {declarator : Node .declarator} (isDeclarator : declarator ∈ declarators.toList) :
            ∃ low high, declarator.outline.Laid source low high :=
          (Node.inside_of_mem_toList isDeclarator).outline_part.1 laidDeclarators
        obtain ⟨_, _, firstLaid⟩ := place isFirst
        obtain ⟨_, _, secondLaid⟩ := place isSecond
        obtain ⟨_, shape⟩ := Node.outline_declarator _
        obtain ⟨_, shape'⟩ := Node.outline_declarator _
        exact before_of_standsIn (standsIn_of_mem_declaratorCandidate member)
          (standsIn_of_mem_declaratorCandidate isOther) firstLaid secondLaid shape shape' before
  | case3 | case5 | case8 => exact .nil

/-! ## Components of a module -/

/-- The candidates of a module before it is known which one is exported by default. -/
theorem candidates_foldl_declared (stmts : List Stmt) (soFar : Declared) :
    (stmts.foldl (fun soFar stmt => Declared.append soFar (declared stmt)) soFar).candidates =
      soFar.candidates ++ stmts.flatMap fun stmt => (declared stmt).candidates := by
  induction stmts generalizing soFar with
  | nil => simp
  | cons stmt rest inductionHypothesis =>
      rw [List.foldl_cons, inductionHypothesis, List.flatMap_cons, ← List.append_assoc]
      rfl

variable {module : Module}

/-- Every component is a candidate, but for whether it is exported by default. -/
theorem exists_of_mem_components {component : Component}
    (member : component ∈ components module) :
    ∃ stmt ∈ module.body, ∃ candidate ∈ (declared stmt).candidates,
      candidate.callable = component.callable := by
  simp only [components, candidates_foldl_declared, List.nil_append] at member
  obtain ⟨marked, isMarked, rfl⟩ := List.mem_map.mp (List.mem_filter.mp member).1
  obtain ⟨stmt, isStmt, isCandidate⟩ := List.mem_flatMap.mp isMarked
  refine ⟨stmt, isStmt, marked, isCandidate, ?_⟩
  split <;> rfl

/-- The callable of a component stands in the module. -/
theorem standsIn_of_mem_components {component : Component}
    (member : component ∈ components module) :
    component.callable.StandsIn module.root := by
  obtain ⟨stmt, isStmt, candidate, isCandidate, same⟩ := exists_of_mem_components member
  rw [← same]
  exact (standsIn_of_mem_declared isCandidate).trans (Module.holds_of_mem isStmt)

/-- The components of a module stand one behind the other. -/
theorem ordered_components (laid : module.Laid) :
    (components module).Pairwise Component.Before := by
  have stmts := Node.ordered_of_laid (fun stmt : Stmt => by
    obtain ⟨role, inside, shape, _⟩ := stmt.outline_stmt
    exact ⟨role, inside, shape⟩) laid
  have place {stmt : Stmt} (member : stmt ∈ module.body) :
      ∃ low high, stmt.outline.Laid module.source low high :=
    (Module.holds_of_mem member).outline_part.1 laid
  simp only [components, candidates_foldl_declared, List.nil_append]
  refine List.Pairwise.filter _ (List.pairwise_map.mpr ?_)
  have callables : (module.body.flatMap fun stmt => (declared stmt).candidates).Pairwise
      Component.Before := by
    refine List.pairwise_flatMap.mpr ⟨fun stmt isStmt => ?_, ?_⟩
    · obtain ⟨_, _, stmtLaid⟩ := place isStmt
      exact ordered_declared stmtLaid
    · refine stmts.imp_of_mem fun isFirst isSecond before component member other isOther => ?_
      obtain ⟨_, _, firstLaid⟩ := place isFirst
      obtain ⟨_, _, secondLaid⟩ := place isSecond
      obtain ⟨_, _, shape, _⟩ := Node.outline_stmt _
      obtain ⟨_, _, shape', _⟩ := Node.outline_stmt _
      exact before_of_standsIn (standsIn_of_mem_declared member)
        (standsIn_of_mem_declared isOther) firstLaid secondLaid shape shape' before
  refine callables.imp fun before => ?_
  unfold Component.Before at before ⊢
  split <;> split <;> exact before

end StopMotion.State
