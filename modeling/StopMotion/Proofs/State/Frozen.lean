import StopMotion.Proofs.State.Origin
import StopMotion.Proofs.State.Setter

/-!
# State that is left at its first value

A binding stays at its first value where no timer gives its setter a value and no effect calls
the setter. It then follows the events that lead to a call of the setter, whatever else calls
it. Where no event does, it is constant if no stray call is left: every call of the setter in
the component is made by a timer, without a value, or gives a first collection in an effect that
runs once.
-/

namespace StopMotion.State

open StopMotion.Syntax

namespace Search

/-! ## The rule of a setter -/

/-- No timer gives a setter a value, and no effect calls it. -/
structure Sites.Still (sites : Sites) (setter : String) : Prop where
  timers : ∀ site ∈ sites.timers, site.call.setter = setter → site.call.argument = none
  effects : ∀ call ∈ sites.effects, call.setter ≠ setter

/-- The events that lead to calls of a setter, each once. -/
def Sites.eventsOf (sites : Sites) (setter : String) : List String :=
  ((sites.events.filter fun (call, _) => call.setter == setter).map (·.2)).eraseDups

/-- Of two timers at the head of a list, the one declared later goes on. -/
theorem lastDeclared?_cons_cons (first second : TimerSite) (rest : List TimerSite) :
    lastDeclared? (first :: second :: rest) =
      lastDeclared? ((if first.order ≤ second.order then second else first) :: rest) := by
  unfold lastDeclared?
  rw [List.foldl_cons, List.foldl_cons, List.foldl_cons]
  dsimp only
  split <;> rfl

/-- Of some timers one counts. -/
theorem exists_lastDeclared? (first : TimerSite) (rest : List TimerSite) :
    ∃ site ∈ first :: rest, lastDeclared? (first :: rest) = some site := by
  induction rest generalizing first with
  | nil => exact ⟨first, by simp, rfl⟩
  | cons second rest inductionHypothesis =>
      rw [lastDeclared?_cons_cons]
      split
      · obtain ⟨site, member, found⟩ := inductionHypothesis second
        exact ⟨site, List.mem_cons_of_mem _ member, found⟩
      · obtain ⟨site, member, found⟩ := inductionHypothesis first
        refine ⟨site, ?_, found⟩
        rcases List.mem_cons.mp member with rfl | more
        · exact List.mem_cons_self
        · exact List.mem_cons_of_mem _ (List.mem_cons_of_mem _ more)

variable {search : Search} {names : List String} {sites : Sites} {setter : String}
  {binding : Binding}

/-- The rule of a setter that no timer gives a value and that no effect calls. -/
theorem rule_settle_of_still (still : sites.Still setter) :
    (search.settle names sites setter binding).rule =
      if !(sites.eventsOf setter).isEmpty then .handler (sites.eventsOf setter)
      else if sites.strays.any (·.setter == setter) then .unclassified (.strayCall setter)
      else binding.rule := by
  have timers : (sites.timers.filter fun site =>
      site.call.setter == setter && site.call.argument.isSome) = [] := by
    refine List.filter_eq_nil_iff.mpr fun site isSite holds => ?_
    simp only [Bool.and_eq_true, beq_iff_eq] at holds
    rw [still.timers site isSite holds.1] at holds
    cases holds.2
  have effects : (sites.effects.reverse.find? fun call => call.setter == setter) = none := by
    refine List.find?_eq_none.mpr fun call isCall holds => ?_
    exact still.effects call (List.mem_reverse.mp isCall) (beq_iff_eq.mp holds)
  unfold settle
  dsimp only
  rw [timers, effects]
  change (if !(sites.eventsOf setter).isEmpty then
    ({ binding with rule := .handler (sites.eventsOf setter) } : Binding) else _).rule = _
  split
  · rfl
  · split <;> rfl

/-- The rule of a timer is another one. -/
theorem timerRule_ne {intervalMs : Float} {update : Expr} :
    search.timerRule binding intervalMs update ≠ .constant ∧
      ∀ events, search.timerRule binding intervalMs update ≠ .handler events := by
  unfold timerRule
  split
  · exact ⟨nofun, nofun⟩
  · split
    · exact ⟨nofun, nofun⟩
    · split <;> exact ⟨nofun, nofun⟩

/-- So is the rule of an effect. -/
theorem effectRule_ne {call : SetterCall} :
    (search.effectRule names binding.name call).1 ≠ .constant ∧
      ∀ events, (search.effectRule names binding.name call).1 ≠ .handler events := by
  unfold effectRule
  split
  · exact ⟨nofun, nofun⟩
  · split <;> exact ⟨nofun, nofun⟩

/-- A binding that a timer or an effect changes is not left at its first value. -/
theorem rule_settle_of_not_still (moves : ¬sites.Still setter) :
    (search.settle names sites setter binding).rule ≠ .constant ∧
      ∀ events, (search.settle names sites setter binding).rule ≠ .handler events := by
  unfold settle
  dsimp only
  split
  · exact timerRule_ne
  · rename_i unmoved
    split
    · exact effectRule_ne
    · rename_i uncalled
      refine absurd ⟨fun site isSite mine => ?_, fun call isCall mine => ?_⟩ moves
      · -- A timer that gives a value would count, or another one would.
        cases given : site.call.argument with
        | none => rfl
        | some value =>
            have isTimer : site ∈ sites.timers.filter fun site =>
                site.call.setter == setter && site.call.argument.isSome :=
              List.mem_filter.mpr ⟨isSite, by simp [mine, given]⟩
            obtain ⟨first, rest, parted⟩ := List.exists_cons_of_ne_nil
              (List.ne_nil_of_mem isTimer)
            rw [parted] at unmoved
            obtain ⟨last, isLast, found⟩ := exists_lastDeclared? first rest
            rw [← parted] at isLast
            have gives := (List.mem_filter.mp isLast).2
            rw [found, Option.bind_some, Option.map_eq_none_iff] at unmoved
            rw [unmoved] at gives
            simp at gives
      · have := List.find?_eq_none.mp uncalled call (List.mem_reverse.mpr isCall)
        exact this (beq_iff_eq.mpr mine)

/-- A binding is constant where no timer gives its setter a value, no effect and no event calls
it, and no stray call is left. -/
theorem rule_settle_eq_constant_iff (before : binding.rule = .constant) :
    (search.settle names sites setter binding).rule = .constant ↔
      sites.Still setter ∧ sites.eventsOf setter = [] ∧
        ∀ call ∈ sites.strays, call.setter ≠ setter := by
  by_cases still : sites.Still setter
  · rw [rule_settle_of_still still, before]
    by_cases noEvent : sites.eventsOf setter = []
    · simp [still, noEvent]
    · simp [noEvent]
  · simp [still, rule_settle_of_not_still still]

/-- A binding follows the events that lead to a call of its setter where no timer gives the
setter a value and no effect calls it, whatever stray calls there are. -/
theorem rule_settle_eq_handler_iff {events : List String} (before : binding.rule = .constant) :
    (search.settle names sites setter binding).rule = .handler events ↔
      sites.Still setter ∧ events = sites.eventsOf setter ∧ events ≠ [] := by
  by_cases still : sites.Still setter
  · rw [rule_settle_of_still still, before]
    constructor
    · intro handler
      split at handler
      · rename_i some
        cases handler
        exact ⟨still, rfl, by simpa using some⟩
      · split at handler <;> cases handler
    · rintro ⟨_, rfl, some⟩
      rw [if_pos (by simpa using some)]
  · simp [still, rule_settle_of_not_still still]

/-! ## The calls of a setter -/

variable {module : Module} {timing : Timing} {component : Component}

/-- A call of a setter in a component is one that something leads to, or a stray one. -/
theorem cases_of_setterCall? {expr : Expr} {call : SetterCall}
    (distinct : (module.root.2.exprs.map Node.span).Nodup)
    (isComponent : component ∈ components module) (isExpr : expr ∈ component.callable.exprs)
    (isCall : (of module timing component).setterCall? expr = some call) :
    (∃ site ∈ (of module timing component).timerSites, site.call = call) ∨
      (∃ event, (call, event) ∈ (of module timing component).eventSites) ∨
        call ∈ (of module timing component).effectSites ∨
          call ∈ (of module timing component).seedSites ∨
            call ∈ (of module timing component).sites.strays := by
  let search := of module timing component
  have held : module.Holds ⟨_, expr⟩ :=
    (standsIn_of_mem_components isComponent).inside_expr isExpr
  obtain ⟨here, callee, arguments, shape, _⟩ := spec_of_setterCall? isCall
  -- What has the span of the call is the call.
  have same {other : SetterCall} (made : search.Made other) (span : other.span = call.span) :
      other = call := made.eq distinct held isCall (span.trans here)
  have direct {effect : Effect} {other : SetterCall} (isEffect : effect ∈ search.effects)
      (isDirect : other ∈ search.directCalls effect.callable) : search.Made other := by
    obtain ⟨node, views, within⟩ := standsIn_of_mem_effects isComponent isEffect
    obtain ⟨inner, inside, isOther⟩ := exists_of_mem_directCalls views isDirect
    exact ⟨inner, inside.trans within, isOther⟩
  by_cases claimed : call.span ∈ search.timerSites.map (·.call.span) ++
    search.eventSites.map (·.1.span) ++ search.effectSites.map (·.span) ++
      search.seedSites.map (·.span)
  · simp only [List.mem_append, List.mem_map] at claimed
    rcases claimed with ((⟨site, isSite, span⟩ | ⟨site, isSite, span⟩) | ⟨other, isSite, span⟩) |
      ⟨other, isSite, span⟩
    · obtain ⟨_, _, times⟩ := exists_times isSite
      exact .inl ⟨site, isSite, same (times.made isComponent) span⟩
    · obtain ⟨handler, isHandler, _, handles⟩ := exists_handles isSite
      have handlerHeld := holds_of_mem_handlers isComponent isHandler
      rcases handles.made handlerHeld with ⟨isName, place⟩ | made
      · -- A name is no call.
        have isExpr := Module.eq_of_span_eq distinct handlerHeld held
          (place.symm.trans (span.trans here))
        rw [isExpr] at isName
        cases expr with
        | call => simp [Node.bare, Node.name?] at isName
        | _ => cases shape
      · refine .inr (.inl ⟨site.2, ?_⟩)
        rw [← same made span]
        exact isSite
    · obtain ⟨effect, isEffect, isDirect⟩ := List.mem_flatMap.mp isSite
      have made := direct (List.mem_filter.mp isEffect).1 isDirect
      exact .inr (.inr (.inl (same made span ▸ isSite)))
    · obtain ⟨effect, isEffect, isDirect⟩ := List.mem_flatMap.mp isSite
      have made := direct (List.mem_filter.mp isEffect).1 (List.mem_filter.mp isDirect).1
      exact .inr (.inr (.inr (.inl (same made span ▸ isSite))))
  · refine .inr (.inr (.inr (.inr (List.mem_filter.mpr ⟨?_, ?_⟩))))
    · exact List.mem_filterMap.mpr ⟨expr, isExpr, isCall⟩
    · simpa using claimed

/-- A call of a setter that leaves a constant as it is: a timer leads to it and gives no value, or
an effect that runs once and schedules work gives a collection. -/
inductive Excused (search : Search) (call : SetterCall) : Prop where
  | timer {site : TimerSite} {start : Expr} {callable : Callable}
      (times : search.Times site start callable) (isCall : site.call = call)
      (valueless : call.argument = none) : Excused search call
  | seed {effect : Effect} (isEffect : effect ∈ search.effects) (onMount : effect.onMount = true)
      (schedules : schedulesWork effect.callable = true)
      (isDirect : call ∈ search.directCalls effect.callable)
      (seeds : (search.seed? call).isSome = true) : Excused search call

/-- Where no event leads to a setter and no stray call of it is left, all calls are excused. -/
theorem excused_of_still {expr : Expr} {call : SetterCall}
    (distinct : (module.root.2.exprs.map Node.span).Nodup)
    (isComponent : component ∈ components module) (isExpr : expr ∈ component.callable.exprs)
    (isCall : (of module timing component).setterCall? expr = some call)
    (still : (of module timing component).sites.Still call.setter)
    (noEvent : (of module timing component).sites.eventsOf call.setter = [])
    (noStray : ∀ other ∈ (of module timing component).sites.strays, other.setter ≠ call.setter) :
    (of module timing component).Excused call := by
  rcases cases_of_setterCall? distinct isComponent isExpr isCall with ⟨site, isSite, same⟩ |
    ⟨event, isEvent⟩ | isEffect | isSeed | isStray
  · obtain ⟨start, callable, times⟩ := exists_times isSite
    rw [← same] at still ⊢
    exact .timer times rfl (still.timers site isSite rfl)
  · have isEvent : event ∈ (of module timing component).sites.eventsOf call.setter :=
      List.mem_eraseDups.mpr (List.mem_map.mpr ⟨(call, event),
        List.mem_filter.mpr ⟨isEvent, beq_self_eq_true _⟩, rfl⟩)
    rw [noEvent] at isEvent
    cases isEvent
  · exact absurd rfl (still.effects call isEffect)
  · obtain ⟨effect, isEffect, isDirect⟩ := List.mem_flatMap.mp isSeed
    obtain ⟨isEffect, seeding⟩ := List.mem_filter.mp isEffect
    obtain ⟨isDirect, seeds⟩ := List.mem_filter.mp isDirect
    obtain ⟨onMount, schedules⟩ := Bool.and_eq_true_iff.mp seeding
    exact .seed isEffect onMount schedules isDirect seeds
  · exact absurd rfl (noStray call isStray)

end Search

/-! ## Bindings that are left -/

variable {module : Module} {timing : Timing} {binding : Binding} {setter : String}

/-- A memo has no setter. -/
theorem setter_of_isMemo {declarator : Node .declarator} {candidate : Candidate}
    (found : candidate? declarator = some candidate) (isMemo : candidate.isMemo = true) :
    candidate.setter = none := by
  cases declarator with
  | declares span target init =>
      cases init with
      | absent => cases found
      | present init =>
          simp only [candidate?] at found
          split at found
          · cases target with
            | bindArray span elements =>
                obtain ⟨name, _, rfl⟩ := Option.map_eq_some_iff.mp found
                cases isMemo
            | _ => cases found
          · split at found
            · cases target with
              | bindName =>
                  cases found
                  rfl
              | _ => cases found
            · cases found

/-- Before that a binding is constant. -/
theorem rule_initialBinding (search : Search) (candidate : Candidate) :
    (search.initialBinding candidate).rule = .constant := by
  unfold Search.initialBinding
  split <;> rfl

/-- A seed does not change its rule. -/
theorem rule_withSeed (search : Search) (seeds : List SetterCall) (setter : String)
    (binding : Binding) : (search.withSeed seeds setter binding).rule = binding.rule := by
  unfold Search.withSeed
  dsimp only
  split <;> rfl

/-- The rule of a binding with a setter is settled by the calls of its component. -/
theorem exists_settle_of_mem_classify (member : binding ∈ classify module timing)
    (isSetter : binding.setter = some setter) :
    ∃ component ∈ components module, binding.origin ∈ component.origins ∧
      setter ∈ (Search.of module timing component).setters ∧
        ∃ names before, before.rule = .constant ∧
          binding = (Search.of module timing component).settle names
            (Search.of module timing component).sites setter before := by
  obtain ⟨component, isComponent, isBinding⟩ := List.mem_flatMap.mp member
  have isOrigin : binding.origin ∈ component.origins := by
    rw [← origins_componentBindings module (Locals.of module) timing component]
    exact List.mem_map_of_mem isBinding
  let search := Search.of module timing component
  let names := (candidates component).map (·.name)
  unfold componentBindings at isBinding
  dsimp only at isBinding
  split at isBinding
  · cases isBinding
  · obtain ⟨candidate, isCandidate, same⟩ := List.mem_map.mp isBinding
    split at same
    · rename_i isMemo
      rw [candidates_eq] at isCandidate
      obtain ⟨declarator, _, found⟩ := List.mem_filterMap.mp isCandidate
      have origin := congrArg Origin.setter (search.origin_memoBinding names candidate)
      have noSetter : binding.setter = none := by
        rw [← same]
        exact origin.trans (setter_of_isMemo found isMemo)
      rw [noSetter] at isSetter
      cases isSetter
    · have origin := congrArg Origin.setter
        (search.origin_stateBinding names candidate search.sites)
      have given : candidate.setter = some setter := by
        rw [← isSetter, ← same]
        exact origin.symm
      refine ⟨component, isComponent, isOrigin, List.mem_filterMap.mpr ⟨candidate, isCandidate,
        given⟩, names, search.withSeed search.sites.seeds setter (search.initialBinding candidate),
        (rule_withSeed ..).trans (rule_initialBinding ..), ?_⟩
      rw [← same, Search.stateBinding, given]
      rfl

/-- Every call of the setter of a constant is excused. -/
theorem excused_of_constant {source : List Char} (read : parse source = .ok module)
    (member : binding ∈ classify module timing) (isSetter : binding.setter = some setter)
    (constant : binding.rule = .constant) :
    ∃ component ∈ components module, binding.origin ∈ component.origins ∧
      ∀ expr ∈ component.callable.exprs, ∀ callee arguments,
        call? expr = some (callee, arguments) → callee.name? = some setter →
          (Search.of module timing component).Excused ⟨setter, arguments.head?, expr.span⟩ := by
  obtain ⟨component, isComponent, isOrigin, isKnown, names, before, rule, rfl⟩ :=
    exists_settle_of_mem_classify member isSetter
  obtain ⟨still, noEvent, noStray⟩ := (Search.rule_settle_eq_constant_iff rule).mp constant
  refine ⟨component, isComponent, isOrigin, ?_⟩
  intro expr isExpr callee arguments isCall isName
  have isSetterCall : (Search.of module timing component).setterCall? expr =
      some ⟨setter, arguments.head?, expr.span⟩ := by
    simp [Search.setterCall?, isCall, isName, isKnown]
  obtain ⟨rfl, lies⟩ := plan_laid_parse read
  have liesRoot : module.root.2.plan.LiesAt module.source
    (.of ⟨0, Text.size module.source⟩) := lies
  exact Search.excused_of_still (Node.distinct_exprs liesRoot) isComponent isExpr isSetterCall
    still noEvent noStray

/-- The events of a binding that follows events are those whose handlers lead to a call of its
setter, and no timer gives the setter a value and no effect calls it. -/
theorem handles_of_handler {events : List String} (member : binding ∈ classify module timing)
    (isSetter : binding.setter = some setter) (handler : binding.rule = .handler events) :
    ∃ component ∈ components module, binding.origin ∈ component.origins ∧
      (Search.of module timing component).sites.Still setter ∧ events ≠ [] ∧
        ∀ event ∈ events, ∃ handler ∈ (Search.of module timing component).handlers,
          handler.event = event ∧ ∃ call : SetterCall, call.setter = setter ∧
            (Search.of module timing component).Handles handler call := by
  obtain ⟨component, isComponent, isOrigin, _, names, before, rule, rfl⟩ :=
    exists_settle_of_mem_classify member isSetter
  obtain ⟨still, rfl, some⟩ := (Search.rule_settle_eq_handler_iff rule).mp handler
  refine ⟨component, isComponent, isOrigin, still, some, ?_⟩
  intro event isEvent
  obtain ⟨site, isSite, rfl⟩ := List.mem_map.mp (List.mem_eraseDups.mp isEvent)
  obtain ⟨isSite, mine⟩ := List.mem_filter.mp isSite
  obtain ⟨handler, isHandler, same, handles⟩ := Search.exists_handles isSite
  exact ⟨handler, isHandler, same, site.1, beq_iff_eq.mp mine, handles⟩

end StopMotion.State
