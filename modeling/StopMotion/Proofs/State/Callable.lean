import StopMotion.Proofs.State.Component
import StopMotion.Proofs.Syntax.Beside

/-!
# Callables by their spans

No two functions or arrows of a module have one span: of two that stand beside each other one ends
before the other, and one that stands inside of another ends before it or is smaller than its
body. A span tells which callable is meant.
-/

namespace StopMotion.State.Callable

open StopMotion.Syntax

variable {callable other : Callable} {node outer part : AnyNode} {source : List Char} {site : Site}

/-- A node is one callable. -/
theorem Views.unique (first : callable.Views node) (second : other.Views node) :
    callable = other := by
  cases first <;> cases second <;> rfl

/-- A callable is drawn as one stretch. -/
theorem Views.exists_plan (views : callable.Views node) :
    ∃ role inside, node.2.plan = .one role callable.span inside := by
  cases views with
  | function value =>
      cases value
      exact ⟨_, _, rfl⟩
  | value => exact ⟨_, _, rfl⟩
  | block => exact ⟨_, _, rfl⟩

/-- A callable lies where a node lies that it stands in. -/
theorem StandsIn.bounds (stands : callable.StandsIn outer)
    (lies : outer.2.plan.LiesAt source site) :
    site.low ≤ callable.span.start ∧ callable.span.start < callable.span.stop ∧
      callable.span.stop ≤ site.high := by
  obtain ⟨node, views, inside⟩ := stands
  obtain ⟨deeper, within, liesNode⟩ := inside.exists_liesAt lies
  obtain ⟨role, plan, drawn⟩ := views.exists_plan
  rw [drawn] at liesNode
  obtain ⟨⟨begins, ends, snug⟩, _⟩ := liesNode
  exact ⟨Nat.le_trans within.low begins, snug.filled, Nat.le_trans ends within.high⟩

/-- What stands before a stretch ends before the stretch does. -/
theorem StandsIn.stop_lt_of_front {role : Role} {span : Span} {inside : Plan}
    (stands : callable.StandsIn part)
    (lies : (part.2.plan ++ .one role span inside).LiesAt source site) :
    callable.span.stop < site.high := by
  obtain ⟨left, right, _, within, ordered, liesPart, liesBody⟩ := lies.of_append
  obtain ⟨⟨begins, ends, snug⟩, _⟩ := liesBody
  have := stands.bounds liesPart
  have := snug.filled
  have := within.high
  omega

/-- What stands in braces ends before the braces do. -/
theorem StandsIn.stop_lt_of_block {span : Span} (stands : callable.StandsIn part)
    (lies : (Plan.one .block span part.2.plan).LiesAt source site) :
    callable.span.stop < site.high := by
  have bounds := stands.bounds lies.of_one.2
  obtain ⟨⟨_, ends, snug⟩, _⟩ := lies
  have := snug.filled
  have : (Site.of (Role.block.inner span)).high = span.stop - 1 := rfl
  omega

/-- What stands before a body in braces, or in it, ends before the braces do. -/
theorem StandsIn.stop_lt_of_body {c c' : Category} {front : Node c} {body : Node c'} {span : Span}
    (isPart : part ∈ [(⟨c, front⟩ : AnyNode), ⟨c', body⟩]) (stands : callable.StandsIn part)
    (lies : (front.plan ++ .one .block span body.plan).LiesAt source site) :
    callable.span.stop < site.high := by
  rcases List.mem_pair.mp isPart with rfl | rfl
  · exact stands.stop_lt_of_front lies
  · obtain ⟨left, right, _, within, _, _, liesBody⟩ := lies.of_append
    exact Nat.lt_of_lt_of_le (stands.stop_lt_of_block liesBody) within.high

/-- What stands in the body of an arrow. -/
theorem StandsIn.of_bodyBlock {span : Span} {body : Node (.list .stmt)}
    (stands : callable.StandsIn ⟨_, .bodyBlock span body⟩) : callable.StandsIn ⟨_, body⟩ := by
  obtain ⟨node, views, inside⟩ := stands
  cases inside with
  | self => cases views
  | part isPart inside =>
      rw [List.mem_singleton.mp isPart] at inside
      exact ⟨node, views, inside⟩

theorem StandsIn.of_bodyExpr {value : Expr} (stands : callable.StandsIn ⟨_, .bodyExpr value⟩) :
    callable.StandsIn ⟨_, value⟩ := by
  obtain ⟨node, views, inside⟩ := stands
  cases inside with
  | self => cases views
  | part isPart inside =>
      rw [List.mem_singleton.mp isPart] at inside
      exact ⟨node, views, inside⟩

/-- An expression is drawn as one stretch. -/
theorem exists_plan_expr (expr : Expr) : ∃ inside, expr.plan = .one .expr expr.span inside := by
  cases expr <;> exact ⟨_, rfl⟩

/-- What stands inside of a callable has another span. -/
theorem Views.span_ne (views : callable.Views node) (lies : node.2.plan.LiesAt source site)
    (isPart : part ∈ node.2.parts) (stands : other.StandsIn part) : other.span ≠ callable.span := by
  cases views with
  | function value =>
      cases value with
      | func span name params body bodySpan =>
          have whole : (Plan.one .function span
            (params.plan ++ .one .block bodySpan body.plan)).LiesAt source site := lies
          have ends : other.span.stop < span.stop := stands.stop_lt_of_body isPart whole.of_one.2
          exact fun same => Nat.ne_of_lt ends (congrArg Span.stop same)
  | value span params value isAsync =>
      obtain ⟨inside, drawn⟩ := exists_plan_expr value
      have whole : (Plan.one .expr span (params.plan ++ value.plan)).LiesAt source site := lies
      have within := whole.of_one.2
      rcases List.mem_pair.mp isPart with rfl | rfl
      · rw [drawn] at within
        have ends : other.span.stop < span.stop := stands.stop_lt_of_front within
        exact fun same => Nat.ne_of_lt ends (congrArg Span.stop same)
      · obtain ⟨left, right, _, inSpan, _, _, liesValue⟩ := within.of_append
        have begins := inSpan.low
        have ends := inSpan.high
        rw [drawn] at liesValue
        obtain ⟨⟨begins', ends', snug⟩, rest⟩ := liesValue
        have liesValue : value.plan.LiesAt source (Site.of value.span) := by
          rw [drawn]
          exact ⟨⟨Nat.le_refl _, Nat.le_refl _, snug⟩, rest⟩
        obtain ⟨starts, _, stops⟩ := stands.of_bodyExpr.bounds liesValue
        intro same
        rw [same] at starts stops
        -- An expression does not take up the place of the arrow that it stands in.
        have isSpan : value.span = span := by
          generalize value.span = inner at *
          cases inner
          cases span
          exact congrArg₂ Span.mk (Nat.le_antisymm starts (Nat.le_trans begins begins'))
            (Nat.le_antisymm (Nat.le_trans ends' ends) stops)
        obtain ⟨_, _, proper, _⟩ := whole
        refine proper.alone rfl ?_
        rw [Plan.exprs_append, drawn, isSpan]
        exact List.mem_append_right _ List.mem_cons_self
  | block span bodySpan params body isAsync =>
      have whole : (Plan.one .expr span
        (params.plan ++ .one .block bodySpan body.plan)).LiesAt source site := lies
      have ends : other.span.stop < span.stop := by
        rcases List.mem_pair.mp isPart with rfl | rfl
        · exact stands.stop_lt_of_body List.mem_cons_self whole.of_one.2
        · exact stands.of_bodyBlock.stop_lt_of_body (List.mem_cons_of_mem _ List.mem_cons_self)
            whole.of_one.2
      exact fun same => Nat.ne_of_lt ends (congrArg Span.stop same)

/-- Callables that stand beside each other have different spans. -/
theorem StandsIn.span_ne_of_beside {left right : AnyNode} {whole : Plan}
    (first : callable.StandsIn left) (second : other.StandsIn right)
    (beside : left.2.plan.Beside right.2.plan whole) (lies : whole.LiesAt source site) :
    callable.span ≠ other.span := by
  obtain ⟨_, _, ordered, liesLeft, liesRight⟩ := beside source site lies
  have inLeft := first.bounds liesLeft
  have inRight := second.bounds liesRight
  intro same
  rw [same] at inLeft
  omega

/-- What stands in the key of a method ends before the parameters of the method. -/
theorem StandsIn.span_ne_of_key {key : Key} {value : Function}
    (first : callable.StandsIn ⟨_, key⟩) (second : other.StandsIn ⟨_, value⟩)
    (lies : (value.plan.around key.plan).LiesAt source site) : callable.span ≠ other.span := by
  cases value with
  | func span name params body bodySpan =>
      have whole : (Plan.one .function span
        (key.plan ++ (params.plan ++ .one .block bodySpan body.plan))).LiesAt source site := lies
      obtain ⟨left, right, _, inSpan, ordered, liesKey, liesRest⟩ := whole.of_one.2.of_append
      have inKey := first.bounds liesKey
      obtain ⟨node, views, inside⟩ := second
      cases inside with
      | self =>
          obtain ⟨_, _, _, inRight, _, _, ⟨begins, ends, snug⟩, _⟩ := liesRest.of_append
          have := snug.filled
          have ends : callable.span.stop < span.stop := by
            have := inRight.low
            have := inRight.high
            have : right.high ≤ span.stop := inSpan.high
            omega
          cases views
          exact fun same => Nat.ne_of_lt ends (congrArg Span.stop same)
      | @part _ inner isPart inside =>
          have second : other.StandsIn inner := ⟨node, views, inside⟩
          obtain ⟨deeper, inRight, liesInner⟩ : ∃ deeper : Site, deeper.Within right ∧
              inner.2.plan.LiesAt source deeper := by
            rcases List.mem_pair.mp isPart with rfl | rfl
            · exact Plan.parthood.left _ _ liesRest
            · exact Plan.parthood.trans (Plan.parthood.inside _ _ _) (Plan.parthood.right _ _)
                liesRest
          have inInner := second.bounds liesInner
          have := inRight.low
          intro same
          rw [same] at inKey
          omega

/-- Two callables that stand in a node and have one span are one. -/
theorem StandsIn.eq_of_span_eq (first : callable.StandsIn outer) (second : other.StandsIn outer)
    (lies : outer.2.plan.LiesAt source site) (same : callable.span = other.span) :
    callable = other := by
  let Agree (left right : AnyNode) : Prop := ∀ callable other : Callable,
    callable.StandsIn left → other.StandsIn right → callable.span = other.span → callable = other
  refine Node.induction_parts (fun outer => ∀ site : Site, outer.2.plan.LiesAt source site →
    Agree outer outer) (fun outer inductionHypothesis site lies => ?_) outer.2 site lies
    callable other first second same
  have pairs : outer.2.parts.Pairwise Agree := by
    rcases Node.pairwise_beside outer with pairs | ⟨key, value, parts, part⟩
    · exact pairs.imp fun beside _ _ first second same =>
        absurd same (first.span_ne_of_beside second beside lies)
    · obtain ⟨_, _, liesMethod⟩ := part lies
      rw [parts]
      exact List.pairwise_pair.mpr fun _ _ first second same =>
        absurd same (first.span_ne_of_key second liesMethod)
  have agree : ∀ left ∈ outer.2.parts, ∀ right ∈ outer.2.parts, Agree left right := by
    refine List.Pairwise.forall_of_forall_of_flip (fun part isPart => ?_) pairs (pairs.imp
      fun agree _ _ first second same => (agree _ _ second first same.symm).symm)
    obtain ⟨deeper, _, liesPart⟩ := Node.Inside.exists_liesAt (.part isPart .self) lies
    exact inductionHypothesis part isPart deeper liesPart
  rintro callable other ⟨node, views, inside⟩ ⟨node', views', inside'⟩ same
  cases inside with
  | self =>
      cases inside' with
      | self => exact views.unique views'
      | part isPart inside' =>
          exact absurd same.symm (views.span_ne lies isPart ⟨node', views', inside'⟩)
  | part isPart inside =>
      cases inside' with
      | self => exact absurd same (views'.span_ne lies isPart ⟨node, views, inside⟩)
      | part isPart' inside' =>
          exact agree _ isPart _ isPart' callable other ⟨node, views, inside⟩
            ⟨node', views', inside'⟩ same

end StopMotion.State.Callable
