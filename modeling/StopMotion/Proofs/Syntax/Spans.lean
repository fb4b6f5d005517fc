import Mathlib.Data.List.Nodup
import StopMotion.Proofs.Syntax.Grammar
import StopMotion.Proofs.Syntax.Region

/-!
# The spans of a module

A plan that lies somewhere is handed down from a node to its parts: each part lies in a site
inside the site of the node. Where the node has a span of its own, that span is the site that
its parts are in, so spans are nested; where it is a sequence, the sites of its nodes follow
each other, so spans are in order. That no two expressions share a span is read off the plan
as a whole, which counts every expression at least as often as the tree does.
-/

namespace StopMotion.Syntax

variable {source : List Char}

/-! ## Sites -/

/-- A place for the stretches of a node, with some room around it for the keys. -/
structure Site where
  around : Span
  low : Nat
  high : Nat
  starts : around.start ≤ low
  stops : high ≤ around.stop

namespace Site

/-- A span as a site. -/
def of (span : Span) : Site := ⟨span, span.start, span.stop, Nat.le_refl _, Nat.le_refl _⟩

/-- One site lies inside another. -/
structure Within (inner outer : Site) : Prop where
  start : outer.around.start ≤ inner.around.start
  stop : inner.around.stop ≤ outer.around.stop
  low : outer.low ≤ inner.low
  high : inner.high ≤ outer.high

theorem Within.refl (site : Site) : site.Within site :=
  ⟨Nat.le_refl _, Nat.le_refl _, Nat.le_refl _, Nat.le_refl _⟩

theorem Within.trans {inner middle outer : Site} (first : inner.Within middle)
    (second : middle.Within outer) : inner.Within outer :=
  ⟨Nat.le_trans second.start first.start, Nat.le_trans first.stop second.stop,
    Nat.le_trans second.low first.low, Nat.le_trans first.high second.high⟩

end Site

namespace Plan

/-- The stretches lie at a site. -/
def LiesAt (source : List Char) (site : Site) (plan : Plan) : Prop :=
  plan.Lies source site.around site.low site.high

/-- Wherever the second plan lies, the first one lies inside. -/
def Part (small big : Plan) : Prop :=
  ∀ {source : List Char} {site : Site}, big.LiesAt source site →
    ∃ inner, inner.Within site ∧ small.LiesAt source inner

variable {site : Site}

/-- Plans that lie one behind the other at a site have a site each. -/
theorem LiesAt.of_append {first second : Plan} (lies : (first ++ second).LiesAt source site) :
    ∃ left right : Site, left.Within site ∧ right.Within site ∧ left.high ≤ right.low ∧
      first.LiesAt source left ∧ second.LiesAt source right := by
  obtain ⟨middle, next, before, behind, ordered, begins, ends⟩ := Lies.of_append lies
  have starts := site.starts
  have stops := site.stops
  exact ⟨⟨site.around, site.low, middle, starts, Nat.le_trans ends stops⟩,
    ⟨site.around, next, site.high, Nat.le_trans starts begins, stops⟩,
    ⟨Nat.le_refl _, Nat.le_refl _, Nat.le_refl _, ends⟩,
    ⟨Nat.le_refl _, Nat.le_refl _, begins, Nat.le_refl _⟩, ordered, before, behind⟩

/-- What a stretch encloses has a site inside the stretch. -/
theorem LiesAt.of_one {role : Role} {span : Span} {inside : Plan}
    (lies : (one role span inside).LiesAt source site) :
    (Site.of (role.inner span)).Within site ∧ inside.LiesAt source (Site.of (role.inner span)) := by
  obtain ⟨⟨begins, ends, _⟩, within, _⟩ := lies
  have inner := role.inner_le span
  have starts := site.starts
  have stops := site.stops
  exact ⟨⟨by simp only [Site.of]; omega, by simp only [Site.of]; omega,
    Nat.le_trans begins inner.1, Nat.le_trans inner.2 ends⟩, within⟩

theorem parthood : Drawing.Parthood Part where
  refl _ _ site lies := ⟨site, .refl site, lies⟩
  trans first second _ _ lies := by
    obtain ⟨middle, within, liesMiddle⟩ := second lies
    obtain ⟨inner, deeper, liesInner⟩ := first liesMiddle
    exact ⟨inner, deeper.trans within, liesInner⟩
  left _ _ _ _ lies := by
    obtain ⟨left, _, within, _, _, liesLeft, _⟩ := LiesAt.of_append lies
    exact ⟨left, within, liesLeft⟩
  right _ _ _ _ lies := by
    obtain ⟨_, right, _, within, _, _, liesRight⟩ := LiesAt.of_append lies
    exact ⟨right, within, liesRight⟩
  inside _ _ _ _ _ lies := ⟨_, LiesAt.of_one lies⟩
  front role span inside inner _ site lies := by
    have whole : (one role span (inner ++ inside)).LiesAt _ site := lies
    obtain ⟨within, liesInside⟩ := whole.of_one
    obtain ⟨left, _, deeper, _, _, liesLeft, _⟩ := liesInside.of_append
    exact ⟨left, deeper.trans within, liesLeft⟩
  behind role span inside inner _ site lies := by
    obtain ⟨bounds, within, proper, _⟩ := lies
    obtain ⟨_, next, _, behind, _, begins, _⟩ := Lies.of_append within
    refine ⟨site, .refl site, bounds, behind.mono begins (Nat.le_refl _) (Nat.le_refl _)
      (Nat.le_refl _), ⟨fun isExpr member => proper.alone isExpr ?_, proper.narrow⟩, trivial⟩
    rw [exprs_append]
    exact List.mem_append_right _ member

end Plan

/-- What is put at the front of a stretch that is no expression adds its own. -/
theorem Plan.exprs_around {role : Role} {span : Span} {inside inner : Plan}
    (other : role ≠ .expr) :
    ((one role span inside).around inner).exprs = inner.exprs ++ (one role span inside).exprs := by
  simp [one, around, exprs, other]

/-! ## The span of a node -/

namespace Node

/-- A node with a span is drawn as one stretch, text or key. -/
theorem plan_of_span? {c : Category} {node : Node c} {span : Span} (has : node.span? = some span) :
    (∃ role inside, node.plan = .one role span inside) ∨ node.plan = .text span .nil ∨
      (c = .key ∧ node.plan = .key span .nil) := by
  cases node <;> cases has <;> first
    | exact .inl ⟨_, _, rfl⟩
    | exact .inr (.inl rfl)
    | exact .inr (.inr ⟨rfl, rfl⟩)

variable {c : Category} {node : Node c} {span : Span} {site : Site}

/-- The span of a node that lies at a site lies in it, keys in the room around. -/
theorem span_of_liesAt (lies : node.plan.LiesAt source site) (has : node.span? = some span) :
    site.around.start ≤ span.start ∧ span.stop ≤ site.around.stop ∧ span.Cuts source ∧
      (c ≠ .key → site.low ≤ span.start ∧ span.stop ≤ site.high) := by
  have starts := site.starts
  have stops := site.stops
  rcases plan_of_span? has with ⟨role, inside, drawn⟩ | drawn | ⟨isKey, drawn⟩
  · rw [drawn] at lies
    obtain ⟨⟨begins, ends, snug⟩, _⟩ := lies
    exact ⟨by omega, by omega, snug.cuts, fun _ => ⟨begins, ends⟩⟩
  · rw [drawn] at lies
    obtain ⟨⟨begins, ends, _, cuts⟩, _⟩ := lies
    exact ⟨by omega, by omega, cuts, fun _ => ⟨begins, ends⟩⟩
  · rw [drawn] at lies
    obtain ⟨⟨begins, ends, snug⟩, _⟩ := lies
    exact ⟨begins, ends, snug.cuts, fun other => absurd isKey other⟩

/-- A node with a span lies in its span. -/
theorem liesAt_span (lies : node.plan.LiesAt source site) (has : node.span? = some span) :
    node.plan.LiesAt source (Site.of span) := by
  rcases plan_of_span? has with ⟨role, inside, drawn⟩ | drawn | ⟨_, drawn⟩
  all_goals
    rw [drawn] at lies ⊢
    obtain ⟨⟨_, _, whole⟩, rest⟩ := lies
    exact ⟨⟨Nat.le_refl _, Nat.le_refl _, whole⟩, rest⟩

/-- What stands inside of a node lies inside of its site. -/
theorem Inside.exists_liesAt {inner outer : AnyNode} (inside : Inside inner outer)
    (lies : outer.2.plan.LiesAt source site) :
    ∃ deeper : Site, deeper.Within site ∧ inner.2.plan.LiesAt source deeper :=
  Plan.parthood.of_inside inside lies

/-! ## How often an expression occurs -/

/-- The stretches of expressions in some nodes. -/
def gatheredExprs (nodes : List AnyNode) : List Span :=
  nodes.flatMap fun node => node.2.plan.exprs

/-- The stretches of expressions in the plan of a node are no fewer than those in its parts,
with one more if the node is an expression. -/
theorem exprs_of_parts (node : AnyNode) (span : Span) :
    (node.2.asExpr?.toList.map Node.span).count span + (gatheredExprs node.2.parts).count span ≤
      node.2.plan.exprs.count span := by
  have stretch {role : Role} {around : Span} {inside plan : Plan} {nodes : List AnyNode}
      {own : List Span} (drawn : plan = .one role around inside)
      (isOwn : own = if role = .expr then [around] else [])
      (few : (gatheredExprs nodes).count span ≤ inside.exprs.count span) :
      own.count span + (gatheredExprs nodes).count span ≤ plan.exprs.count span := by
    subst drawn isOwn
    simp only [Plan.one, Plan.exprs, List.count_append, List.append_nil]
    omega
  have none {inside : Plan} : (gatheredExprs []).count span ≤ inside.exprs.count span :=
    Nat.zero_le _
  have one {c : Category} {first : Node c} :
      (gatheredExprs [⟨c, first⟩]).count span ≤ first.plan.exprs.count span := by
    simp [gatheredExprs]
  have two {c c' : Category} {first : Node c} {second : Node c'} :
      (gatheredExprs [⟨c, first⟩, ⟨c', second⟩]).count span ≤
        (first.plan ++ second.plan).exprs.count span := by
    simp [gatheredExprs]
  have three {c c' d : Category} {first : Node c} {second : Node c'} {third : Node d} :
      (gatheredExprs [⟨c, first⟩, ⟨c', second⟩, ⟨d, third⟩]).count span ≤
        (first.plan ++ second.plan ++ third.plan).exprs.count span := by
    simp [gatheredExprs]
  have four {c c' d d' : Category} {first : Node c} {second : Node c'} {third : Node d}
      {fourth : Node d'} :
      (gatheredExprs [⟨c, first⟩, ⟨c', second⟩, ⟨d, third⟩, ⟨d', fourth⟩]).count span ≤
        (first.plan ++ second.plan ++ third.plan ++ fourth.plan).exprs.count span := by
    simp [gatheredExprs]
  have block {c : Category} {bodySpan : Span} (first : Node c) (body : Node (.list .stmt)) :
      (gatheredExprs [⟨c, first⟩, ⟨_, body⟩]).count span ≤
        (first.plan ++ .one .block bodySpan body.plan).exprs.count span := by
    rw [Plan.exprs_append, Plan.exprs_one_of_ne (by decide), ← Plan.exprs_append]
    exact two
  have bare {plan inside : Plan} {nodes : List AnyNode} {own : List Span} (drawn : plan = inside)
      (isOwn : own = []) (few : (gatheredExprs nodes).count span ≤ inside.exprs.count span) :
      own.count span + (gatheredExprs nodes).count span ≤ plan.exprs.count span := by
    subst drawn isOwn
    simpa using few
  obtain ⟨c, node⟩ := node
  cases node with
  | cons | switchArm | boundKey => exact bare rfl rfl two
  | present | headVar | headExpr | headPattern | boundRest | keyComputed | bodyExpr | childSpread
  | childElement => exact bare rfl rfl one
  | nil | absent | keyName | keyPrivate | keyString | keyNumber | childText =>
      exact Nat.le_of_eq rfl
  | ifStmt | forEach | conditional => exact stretch rfl rfl three
  | forStmt | tryStmt => exact stretch rfl rfl four
  | doWhile _ body test =>
      refine stretch rfl rfl ?_
      change (gatheredExprs [⟨_, test⟩, ⟨_, body⟩]).count span ≤
        (body.plan ++ test.plan).exprs.count span
      rw [Plan.exprs_append, List.count_append, Nat.add_comm, ← List.count_append,
        ← Plan.exprs_append]
      exact two
  | func _ _ params body bodySpan => exact stretch rfl rfl (block params body)
  | staticBlock around key body => exact stretch rfl rfl (block key body)
  | methodMember _ key _ value | methodEntry _ key value =>
      cases value with
      | func around _ params body bodySpan =>
          refine stretch rfl rfl ?_
          change _ ≤ ((Plan.one .function around
            (params.plan ++ .one .block bodySpan body.plan)).around key.plan).exprs.count span
          rw [Plan.exprs_around (by decide), ← Plan.exprs_append]
          exact two
  | whileStmt | switchStmt | declares | klass | fieldMember | bindDefault | tagged | arrow
  | binary | assign | call | newCall | index | keyed | tag => exact stretch rfl rfl two
  | importStmt | exportNamed | exportAll | typeOnly | enumStmt | breakStmt | continueStmt
  | emptyStmt | debugger | bindName | name | number | string | boolean | null | regex | this
  | super | metaProperty | shorthand | attrFlag | attrString => exact stretch rfl rfl none
  | _ => exact stretch rfl rfl one

/-- The expressions in a node are those in its parts, and the node if it is one itself. -/
theorem exprs_eq (node : AnyNode) :
    node.2.exprs = node.2.asExpr?.toList ++ node.2.parts.flatMap fun part => part.2.exprs := by
  have here : (node.2.own fun inner => ({ found := inner.asExpr?.toList } : Pick Expr)) =
      { found := node.2.asExpr?.toList } := by
    obtain ⟨c, node⟩ := node
    cases c <;> rfl
  rw [exprs, collect_eq, here]
  rfl

/-- No expression of a tree is left out of its plan. -/
theorem count_exprs_le {c : Category} (node : Node c) (span : Span) :
    (node.exprs.map Node.span).count span ≤ node.plan.exprs.count span := by
  refine induction_parts (fun node => (node.2.exprs.map Node.span).count span ≤
    node.2.plan.exprs.count span) (fun node inductionHypothesis => ?_) node
  have parts (nodes : List AnyNode) (all : ∀ part ∈ nodes,
      (part.2.exprs.map Node.span).count span ≤ part.2.plan.exprs.count span) :
      ((nodes.flatMap fun part => part.2.exprs).map Node.span).count span ≤
        (gatheredExprs nodes).count span := by
    induction nodes with
    | nil => exact Nat.le_refl _
    | cons head tail tailHypothesis =>
        obtain ⟨ofHead, ofTail⟩ := List.forall_mem_cons.mp all
        simp only [gatheredExprs, List.flatMap_cons, List.map_append, List.count_append]
        exact Nat.add_le_add ofHead (tailHypothesis ofTail)
  refine Nat.le_trans ?_ (exprs_of_parts node span)
  rw [exprs_eq, List.map_append, List.count_append]
  exact Nat.add_le_add_left (parts _ inductionHypothesis) _

/-- No two expressions of a tree that lies somewhere have one span. -/
theorem distinct_exprs {c : Category} {node : Node c} {site : Site}
    (lies : node.plan.LiesAt source site) : (node.exprs.map Node.span).Nodup := by
  have once := List.nodup_iff_count_le_one.mp (Plan.Lies.nodup_exprs lies)
  exact List.nodup_iff_count_le_one.mpr fun span =>
    Nat.le_trans (count_exprs_le node span) (once span)

/-! ## Nodes in order -/

/-- Everything in the first node ends before anything in the second one begins, keys apart. -/
def Precedes {c : Category} (first second : Node c) : Prop :=
  ∀ {left right : AnyNode} {ends begins : Span}, Inside left ⟨c, first⟩ → Inside right ⟨c, second⟩ →
    left.1 ≠ .key → right.1 ≠ .key → left.2.span? = some ends → right.2.span? = some begins →
      ends.stop ≤ begins.start

/-- The nodes of a sequence that lies at a site precede each other. -/
theorem pairwise_precedes {c : Category} {site : Site} :
    {nodes : Node (.list c)} → nodes.plan.LiesAt source site → nodes.toList.Pairwise Precedes
  | .nil, _ => .nil
  | .cons head tail, lies => by
    have whole : (head.plan ++ tail.plan).LiesAt source site := lies
    obtain ⟨front, back, _, _, ordered, liesHead, liesTail⟩ := whole.of_append
    refine .cons (fun node isNode left right ends begins inHead inNode plainLeft plainRight has
      has' => ?_) (pairwise_precedes liesTail)
    obtain ⟨inner, within, liesLeft⟩ := inHead.exists_liesAt liesHead
    obtain ⟨inner', within', liesRight⟩ :=
      (inNode.trans (inside_of_mem_toList isNode)).exists_liesAt liesTail
    have before := (span_of_liesAt liesLeft has).2.2.2 plainLeft
    have behind := (span_of_liesAt liesRight has').2.2.2 plainRight
    have := within.high
    have := within'.low
    omega

end Node

/-! ## The spans of a module -/

/-- Two expressions of a module with one span are one. -/
theorem Module.eq_of_span_eq {module : Module} {first second : Expr}
    (distinct : (module.root.2.exprs.map Node.span).Nodup) (isFirst : module.Holds ⟨_, first⟩)
    (isSecond : module.Holds ⟨_, second⟩) (same : first.span = second.span) : first = second := by
  have gathered {expr : Expr} (held : module.Holds ⟨_, expr⟩) : expr ∈ module.root.2.exprs := by
    unfold Module.root Node.exprs
    rw [Node.collect_ofList]
    exact Module.mem_exprs_iff.mpr held
  exact List.inj_on_of_nodup_map distinct (gathered isFirst) (gathered isSecond) same

/-- The categories whose nodes all have a span. -/
def Category.isPlaced : Category → Bool
  | .stmt | .declarator | .function | .classDef | .classMember | .pattern | .expr | .entry
  | .element | .jsxAttribute => true
  | _ => false

/-- A node of such a category has a span. -/
theorem Node.exists_span? {c : Category} (isPlaced : c.isPlaced = true) (node : Node c) :
    ∃ span, node.span? = some span := by
  cases node <;> first
    | exact ⟨_, rfl⟩
    | cases isPlaced

open Node in
/-- The spans of a module fit its source and each other. -/
structure Module.WellPlaced (module : Module) : Prop where
  /-- Every statement, declarator, function, class, class member, pattern, expression, entry,
  element and attribute has a span. -/
  placed {node : AnyNode} (held : module.Holds node) (isPlaced : node.1.isPlaced = true) :
    ∃ span, node.2.span? = some span
  /-- The span of every node begins and ends between characters of the source. -/
  cut {node : AnyNode} {span : Span} (held : module.Holds node)
    (has : node.2.span? = some span) : span.start ≤ span.stop ∧
      span.stop ≤ Text.size module.source ∧
        (Text.cut? module.source span.start span.stop).isSome = true
  /-- The span of a node lies in those of the nodes around it. -/
  nested {inner outer : AnyNode} {span around : Span} (held : module.Holds outer)
    (inside : Inside inner outer) (has : inner.2.span? = some span)
    (outerHas : outer.2.span? = some around) :
    around.start ≤ span.start ∧ span.stop ≤ around.stop
  /-- The nodes of a sequence follow each other. -/
  ordered {c : Category} {nodes : Node (.list c)} (held : module.Holds ⟨_, nodes⟩) :
    nodes.toList.Pairwise Precedes
  /-- No two expressions have one span. -/
  distinct : (module.root.2.exprs.map Node.span).Nodup

open Node in
/-- The spans of a source that is read are well placed. -/
theorem wellPlaced_parse {module : Module} (read : parse source = .ok module) :
    module.source = source ∧ module.WellPlaced := by
  obtain ⟨rfl, laid⟩ := plan_laid_parse read
  have liesRoot : module.root.2.plan.LiesAt module.source (.of ⟨0, Text.size module.source⟩) := laid
  have site {node : AnyNode} (held : module.Holds node) :
      ∃ site, node.2.plan.LiesAt module.source site := by
    obtain ⟨site, _, lies⟩ := Inside.exists_liesAt held liesRoot
    exact ⟨site, lies⟩
  refine ⟨rfl, fun _ isPlaced => exists_span? isPlaced _, fun held has => ?_,
    fun held inside has outerHas => ?_, fun held => ?_, ?_⟩
  · obtain ⟨_, lies⟩ := site held
    have cuts := (span_of_liesAt lies has).2.2.1
    exact ⟨cuts.le, cuts.le_size, cuts.isSome_cut?⟩
  · obtain ⟨_, lies⟩ := site held
    obtain ⟨_, within, liesInner⟩ := inside.exists_liesAt (liesAt_span lies outerHas)
    obtain ⟨begins, ends, _⟩ := span_of_liesAt liesInner has
    exact ⟨Nat.le_trans within.start begins, Nat.le_trans ends within.stop⟩
  · obtain ⟨_, lies⟩ := site held
    exact pairwise_precedes lies
  · exact distinct_exprs liesRoot

/-- The spans of an element in brackets behind a type assertion are well placed. -/
theorem wellPlaced_fade : ∃ module,
    parse "const fade = (<a k={x as T}>{...s}</a>);\n".toList = .ok module ∧
      module.WellPlaced := by
  have isRead : (parse "const fade = (<a k={x as T}>{...s}</a>);\n".toList).isOk = true := by
    decide +kernel
  cases read : parse "const fade = (<a k={x as T}>{...s}</a>);\n".toList with
  | error =>
      rw [read] at isRead
      cases isRead
  | ok module => exact ⟨module, rfl, (wellPlaced_parse read).2⟩

end StopMotion.Syntax
