import StopMotion.Proofs.Syntax.Grammar.Type
import StopMotion.Syntax.Grammar.Pattern

/-!
# Layout of keys and patterns

A plain name that is key and pattern at once is one token, whose stretch is the pattern's.
An expression that is read again as a target keeps its place.
-/

namespace StopMotion.Syntax

variable {source : List Char}

/-! ## Expressions as targets -/

/-- A step of a reading again that answers something. -/
theorem bind_eq_ok {α β : Type} {step : Reading α} {more : α → Reading β} {answer : β}
    (read : (step >>= more) = .ok answer) :
    ∃ value, step = .ok value ∧ more value = .ok answer := by
  cases step with
  | error => cases read
  | ok value => exact ⟨value, rfl, read⟩

/-- Reading a node again as a target keeps its place. -/
def Node.KeepsPlace (source : List Char) {c : Category} (node : Node c) : Prop :=
  ∀ target, node.asTarget = .ok target → ∀ {around : Span} {low high : Nat},
    around.start ≤ low → high ≤ around.stop →
      node.plan.Lies source around low high → target.plan.Lies source around low high

/-- The operand of a spread, which is a target only inside an array literal, keeps its
place. -/
def Node.SpreadKeepsPlace (source : List Char) : {c : Category} → Node c → Prop
  | _, .spread _ operand => operand.KeepsPlace source
  | _, _ => True

/-- What lies inside of a stretch lies where the stretch does. -/
theorem Plan.Lies.of_within {role : Role} {span around : Span} {inside : Plan} {low high : Nat}
    (within : inside.Lies source (role.inner span) (role.inner span).start (role.inner span).stop)
    (begins : low ≤ span.start) (ends : span.stop ≤ high) (starts : around.start ≤ low)
    (stops : high ≤ around.stop) : inside.Lies source around low high := by
  have inner := role.inner_le span
  exact within.mono (by omega) (by omega) (by omega) (by omega)

/-- A target lies where its expression was. -/
theorem Node.keepsPlace {c : Category} (node : Node c) :
    node.KeepsPlace source ∧ node.SpreadKeepsPlace source := by
  induction node with
  | nil | absent =>
      refine ⟨fun target read _ _ _ _ _ lies => ?_, trivial⟩
      cases read
      exact lies
  | cons head tail headHypothesis tailHypothesis =>
      refine ⟨fun target read _ _ _ starts stops lies => ?_, trivial⟩
      obtain ⟨headTarget, headRead, read⟩ := bind_eq_ok read
      obtain ⟨tailTarget, tailRead, read⟩ := bind_eq_ok read
      cases read
      exact lies.append_congr starts stops (headHypothesis.1 _ headRead)
        (tailHypothesis.1 _ tailRead)
  | present value inductionHypothesis =>
      refine ⟨fun target read _ _ _ starts stops lies => ?_, trivial⟩
      cases value with
      | spread span operand =>
          obtain ⟨operandTarget, operandRead, read⟩ := bind_eq_ok read
          cases read
          obtain ⟨bounds, within, _⟩ := lies
          exact ⟨bounds, inductionHypothesis.2 _ operandRead (Nat.le_refl _) (Nat.le_refl _) within,
            .other (by decide) (by decide), trivial⟩
      | _ =>
          obtain ⟨valueTarget, valueRead, read⟩ := bind_eq_ok read
          cases read
          exact inductionHypothesis.1 _ valueRead starts stops lies
  | name =>
      refine ⟨fun target read _ _ _ _ _ lies => ?_, trivial⟩
      cases read
      obtain ⟨bounds, within, _⟩ := lies
      exact ⟨bounds, within, .other (by decide) (by decide), trivial⟩
  | member | privateMember | index =>
      refine ⟨fun target read _ _ _ _ _ lies => ?_, trivial⟩
      cases read
      obtain ⟨bounds, within, proper, _⟩ := lies
      exact ⟨bounds, ⟨⟨Nat.le_refl _, Nat.le_refl _, bounds.2.2⟩, within, proper, trivial⟩,
        .other (by decide) (by decide), trivial⟩
  | paren span inner inductionHypothesis | assertion span inner inductionHypothesis =>
      refine ⟨fun target read _ _ _ starts stops lies => ?_, trivial⟩
      obtain ⟨⟨begins, ends, _⟩, within, _⟩ := lies
      exact inductionHypothesis.1 target read starts stops
        (Plan.Lies.of_within within begins ends starts stops)
  | array span elements inductionHypothesis | object span elements inductionHypothesis =>
      refine ⟨fun target read _ _ _ _ _ lies => ?_, trivial⟩
      obtain ⟨parts, partsRead, read⟩ := bind_eq_ok read
      cases read
      obtain ⟨bounds, within, _⟩ := lies
      exact ⟨bounds, inductionHypothesis.1 _ partsRead (Nat.le_refl _) (Nat.le_refl _) within,
        .other (by decide) (by decide), trivial⟩
  | assign span op target value =>
      refine ⟨fun target read _ _ _ _ _ lies => ?_, trivial⟩
      cases op <;> cases read
      obtain ⟨bounds, within, _⟩ := lies
      exact ⟨bounds, within, .other (by decide) (by decide), trivial⟩
  | keyed span key value _ inductionHypothesis =>
      refine ⟨fun target read _ _ _ starts stops lies => ?_, trivial⟩
      obtain ⟨valueTarget, valueRead, read⟩ := bind_eq_ok read
      cases read
      obtain ⟨⟨begins, ends, _⟩, within, _⟩ := lies
      exact (Plan.Lies.of_within within begins ends starts stops).append_congr starts stops
        (fun _ _ => id) (inductionHypothesis.1 _ valueRead)
  | shorthand =>
      refine ⟨fun target read _ _ _ starts stops lies => ?_, trivial⟩
      cases read
      obtain ⟨⟨begins, ends, _⟩, within, _⟩ := lies
      -- The name is the key, and the pattern at the place of the key.
      obtain ⟨⟨nameBegins, nameEnds, snug⟩, _⟩ :=
        Plan.Lies.of_within within begins ends starts stops
      exact ⟨⟨by omega, by omega, snug⟩, ⟨nameBegins, nameEnds, snug⟩, trivial,
        .other (by decide) (by decide), trivial⟩
  | spreadEntry span operand inductionHypothesis =>
      refine ⟨fun target read _ _ _ starts stops lies => ?_, trivial⟩
      obtain ⟨operandTarget, operandRead, read⟩ := bind_eq_ok read
      cases read
      obtain ⟨⟨begins, ends, _⟩, within, _⟩ := lies
      exact inductionHypothesis.1 _ operandRead starts stops
        (Plan.Lies.of_within within begins ends starts stops)
  | spread span operand inductionHypothesis =>
      refine ⟨fun target read => ?_, inductionHypothesis.1⟩
      cases read
  | _ =>
      refine ⟨fun target read => ?_, trivial⟩
      cases read

/-- A target is laid where its expression was. -/
theorem Node.laid_asTarget {c : Category} {node : Node c} {target : Node c.asTarget}
    {low high : Nat} (read : node.asTarget = .ok target)
    (laid : node.plan.Laid source low high) : target.plan.Laid source low high :=
  node.keepsPlace.1 target read (Nat.le_refl _) (Nat.le_refl _) laid

/-- The target of a compound assignment is laid where its expression was. -/
theorem Node.laid_asSimpleTarget {expr : Expr} {target : Pattern} {low high : Nat}
    (read : expr.asSimpleTarget = .ok target) (laid : expr.plan.Laid source low high) :
    target.plan.Laid source low high := by
  unfold asSimpleTarget at read
  split at read
  · exact laid_asTarget read laid
  · cases read

/-! ## The rules -/

namespace Rules.Sound

open Parse

variable {limit bound : Nat} {state : ParseState} {rules : Rules}

/-- A key is laid, and a plain name is the token passed. -/
theorem key_yields (sound : rules.Sound source limit) (ready : Ready source bound state)
    (le : bound ≤ limit) :
    Yields rules.key state fun value next => Spans source bound state value.plan next ∧
      ∀ found, value = .keyName found →
        found.span = state.token.span ∧ Passes source bound state next := by
  unfold Rules.key
  rw [yields_token]
  have pass {kind : TokenKind} (is : state.token.kind = kind) (goesOn : kind.isEnd = false) :=
    pass_yields ready (by rw [is]; exact goesOn)
  split
  · rename_i text is
    refine (pass is rfl).bind fun _ next passed => ?_
    split
    · exact .pure ⟨passed.spans_key ready, fun _ same => by cases same⟩
    · refine .pure ⟨passed.spans_key ready, ?_⟩
      rintro _ ⟨⟩
      exact ⟨rfl, passed⟩
  · rename_i value is
    exact (pass is rfl).bind fun _ next passed =>
      .pure ⟨passed.spans_key ready, fun _ same => by cases same⟩
  · rename_i value is
    exact (pass is rfl).bind fun _ next passed =>
      .pure ⟨passed.spans_key ready, fun _ same => by cases same⟩
  · rename_i is
    refine (pass is rfl).bind fun _ inside opened => ?_
    refine (sound.assignment false inside opened.deeper (by omega)).bind fun value close spans => ?_
    refine (takes_expect close spans.ready (Nat.le_refl _)).bind fun _ next closed => ?_
    exact .pure ⟨opened.follows.spans_of (spans.trans closed.follows), fun _ same => by cases same⟩
  · exact yields_unexpected

/-- The elements of an array are laid, with holes among them. -/
theorem elements_yields {α : Type} {plan : α → Plan} {item : Parse α}
    (ready : Ready source bound state) (lays : Lays source limit plan item)
    (le : bound ≤ limit) :
    Yields (elements item) state fun items next =>
      Spans source bound state (.all (.option plan) items) next := by
  have separated : Lays source limit (Plan.option plan) (do
      if ← eat .comma then
        return none
      else
        let value ← item
        unless ← at? .closeBracket do
          let _ ← expect .comma
        return some value) := by
    intro bound state ready le
    refine (eat_yields ready).bind fun eaten next held => ?_
    rcases held with ⟨rfl, rfl⟩ | ⟨rfl, comma⟩
    · refine (lays next ready (by omega)).bind fun value behind spans => ?_
      rw [yields_at?]
      split
      · exact .pure spans
      · exact (takes_expect behind spans.ready (Nat.le_refl _)).bind fun _ last comma =>
          .pure (spans.trans comma.follows)
    · exact .pure comma.toConsumes.spans
  refine (many_eat_yields ready separated le).mono fun items next held => ?_
  obtain ⟨last, covers, passed⟩ := held
  exact (covers.passes passed.toConsumes).toSpans

end Rules.Sound

/-- The stretches of optional nodes are those of the nodes that are there. -/
theorem plan_optionalNodes {c : Category} (nodes : List (Option (Node c))) :
    (Rules.optionalNodes nodes).plan = Plan.all (Plan.option Node.plan) nodes := by
  rw [Rules.optionalNodes, Node.plan_ofList]
  induction nodes with
  | nil => rfl
  | cons head tail inductionHypothesis =>
      rw [List.map_cons, Plan.all, Plan.all, inductionHypothesis, Node.plan_ofOption]

namespace Rules.Sound

open Parse

variable {limit bound : Nat} {rules : Rules}

/-- A pattern is laid together with the default value behind it. -/
theorem withDefault_yields (sound : rules.Sound source limit) {first state : ParseState}
    {target : Pattern} (ready : Ready source bound first)
    (spans : Spans source bound first target.plan state) (le : bound ≤ limit) :
    Yields (rules.withDefault first.token.span.start target) state fun value next =>
      Spans source bound first value.plan next ∧ state.lastEnd ≤ next.lastEnd := by
  refine (eat_yields spans.ready).bind fun eaten inside held => ?_
  rcases held with ⟨rfl, rfl⟩ | ⟨rfl, assign⟩
  · exact .pure ⟨spans, Nat.le_refl _⟩
  · refine (sound.assignment false inside assign.deeper (by omega)).bind
        fun value next valueSpans => ?_
    rw [yields_spanFrom]
    exact .pure ⟨(spans.join assign.follows valueSpans.covers).one ready rfl,
      (assign.follows.trans valueSpans.follows).lastEnd⟩

theorem targetWithDefault (sound : rules.Sound source limit) :
    Lays source (limit - 1) Node.plan rules.targetWithDefault := by
  intro bound state ready le
  unfold Rules.targetWithDefault
  rw [yields_here]
  exact (sound.target state ready (by omega)).bind fun target next spans =>
    (sound.withDefault_yields ready spans (by omega)).mono fun _ _ held => held.1

theorem arrayTarget (sound : rules.Sound source limit) :
    Lays source (limit - 1) Node.plan rules.arrayTarget := by
  intro bound state ready le
  unfold Rules.arrayTarget
  rw [yields_here]
  refine (eat_yields ready).bind fun eaten inside held => ?_
  rcases held with ⟨rfl, rfl⟩ | ⟨rfl, dots⟩
  · exact sound.targetWithDefault inside ready (by omega)
  · refine (sound.target inside dots.ready (by omega)).bind fun target next spans => ?_
    rw [yields_spanFrom]
    exact .pure ((dots.follows.spans_of spans).one ready rfl)

theorem objectTarget (sound : rules.Sound source limit) :
    Lays source limit Node.plan rules.objectTarget := by
  intro bound state ready le
  refine (eat_yields ready).bind fun eaten inside held => ?_
  rcases held with ⟨rfl, rfl⟩ | ⟨rfl, dots⟩
  · simp only [Bool.false_eq_true, if_false, yields_here]
    refine (sound.key_yields ready le).bind fun key next held => ?_
    obtain ⟨keySpans, plain⟩ := held
    refine (eat_yields keySpans.ready).bind fun eaten behind held => ?_
    rcases held with ⟨rfl, rfl⟩ | ⟨rfl, colon⟩
    · simp only [Bool.false_eq_true, if_false]
      split
      · rename_i found
        obtain ⟨span, passed⟩ := plain found rfl
        have named : Spans source bound inside (.one .pattern inside.token.span .nil) _ :=
          passed.spans_token ready rfl
        rw [← span] at named
        have target : Spans source bound inside (Node.bindName found.span found).plan _ := named
        refine (sound.withDefault_yields ready target le).bind fun value last held => ?_
        obtain ⟨spans, onwards⟩ := held
        exact .pure ⟨spans.consumes, keySpans.laid.beside_key spans.laid onwards⟩
      · exact yields_unexpected
    · refine (sound.targetWithDefault behind colon.deeper (by omega)).bind
          fun value last spans => ?_
      exact .pure (keySpans.join colon.follows spans.covers)
  · refine (sound.target inside dots.deeper (by omega)).bind fun target next spans => ?_
    exact .pure (dots.follows.spans_of spans)

theorem lays_nameTarget : Lays source limit Node.plan nameTarget := by
  intro bound state ready le
  have read := bindingName_yields ready
  unfold Yields nameTarget
  cases run : bindingName state with
  | error => rfl
  | ok answered =>
      obtain ⟨span, passed⟩ := read.of_run run
      change Spans source bound state (.one .pattern answered.1.span .nil) _
      rw [span]
      exact passed.spans_token ready rfl

/-- A pattern is laid. -/
theorem bindingTarget (sound : rules.Sound source limit) :
    Lays source limit Node.plan rules.bindingTarget := by
  intro bound state ready le
  unfold Rules.bindingTarget
  rw [yields_here]
  refine (eat_yields ready).bind fun eaten inside held => ?_
  rcases held with ⟨rfl, rfl⟩ | ⟨rfl, opened⟩
  · simp only [Bool.false_eq_true, if_false]
    refine (eat_yields ready).bind fun eaten inside held => ?_
    rcases held with ⟨rfl, rfl⟩ | ⟨rfl, opened⟩
    · exact lays_nameTarget inside ready (Nat.le_refl _)
    · refine (commaList_yields opened.ready sound.objectTarget le).bind fun entries next spans => ?_
      rw [yields_spanFrom]
      rw [← Node.plan_ofList] at spans
      exact .pure ((opened.follows.spans_of spans).one ready rfl)
  · refine (elements_yields opened.deeper sound.arrayTarget (by omega)).bind
      fun items next spans => ?_
    rw [yields_spanFrom]
    rw [← plan_optionalNodes] at spans
    exact .pure ((opened.follows.spans_of spans).one ready rfl)

end Rules.Sound

end StopMotion.Syntax
