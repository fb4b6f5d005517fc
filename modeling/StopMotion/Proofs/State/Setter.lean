import StopMotion.Proofs.State.Classify
import StopMotion.Proofs.Syntax.Spans

/-!
# Calls of setters

The search for the calls of a component's setters goes from body to body. What it finds a chain
of local functions leads to, and every call that it finds is an expression of the module, so
that a span tells which call is meant. A handler may also be the setter itself.
-/

namespace StopMotion.State

open StopMotion.Syntax

/-! ## Local functions -/

namespace Locals

variable {module : Module}

/-- The functions that are known by name stand in a module. -/
def StandIn (locals : Locals) (module : Module) : Prop :=
  ∀ entry ∈ locals.functions, entry.2.StandsIn module.root

theorem StandIn.add {locals : Locals} {name : String} {callable : Callable}
    (stand : locals.StandIn module) (stands : callable.StandsIn module.root) :
    StandIn { locals with functions := locals.functions ++ [(name, callable)] } module := by
  intro entry member
  rcases List.mem_append.mp member with before | same
  · exact stand entry before
  · rw [List.mem_singleton.mp same]
    exact stands

/-- The function that is an initial value, or that is handed to `useCallback`, stands in it. -/
theorem standsIn_of_declaredFunction? {init : Expr} {callable : Callable}
    (found : declaredFunction? init = some callable) : callable.StandsIn ⟨_, init⟩ := by
  unfold declaredFunction? at found
  split at found
  · rename_i isCallable
    cases found
    exact Callable.standsIn_of_ofExpr? isCallable
  · split at found
    · rename_i call
      split at found
      · exact (Callable.standsIn_of_ofExpr? found).trans (inside_of_bareCall? call (by simp))
      · cases found
    · cases found

theorem StandIn.addDeclarator {locals : Locals} {kind : VarKind} {declarator : Node .declarator}
    (stand : locals.StandIn module) (held : module.Holds ⟨_, declarator⟩) :
    (locals.addDeclarator kind declarator).StandIn module := by
  unfold Locals.addDeclarator
  split
  · split
    · rename_i declares
      refine stand.add ((standsIn_of_declaredFunction? declares).trans (held.inside ?_))
      exact .part (List.mem_cons_of_mem _ List.mem_cons_self) (.part List.mem_cons_self .self)
    · split
      · split
        · exact stand
        · exact stand
      · exact stand
  · exact stand

theorem StandIn.addStmt {locals : Locals} {stmt : Stmt} (stand : locals.StandIn module)
    (held : module.Holds ⟨_, stmt⟩) : (locals.addStmt stmt).StandIn module := by
  unfold Locals.addStmt
  split
  · refine stand.add ⟨_, .function _, held.inside ?_⟩
    exact .part List.mem_cons_self .self
  · rename_i span kind declarators
    refine List.foldlRecOn (motive := fun locals => locals.StandIn module) declarators.toList
      (Locals.addDeclarator kind) stand ?_
    intro locals stand declarator isDeclarator
    refine stand.addDeclarator (held.inside ?_)
    exact .part List.mem_cons_self (Node.inside_of_mem_toList isDeclarator)
  · exact stand

/-- The functions of a module stand in it. -/
theorem standIn_of (module : Module) : (Locals.of module).StandIn module := by
  refine List.foldlRecOn (motive := fun locals => locals.StandIn module)
    (module.body.flatMap Node.stmts) Locals.addStmt ?_ ?_
  · intro entry member
    cases member
  · intro locals stand stmt member
    obtain ⟨node, held, _, found⟩ := Module.exists_of_mem_visit member
    rw [Node.eq_of_asStmt? (Option.mem_toList.mp found)] at held
    exact stand.addStmt held

theorem StandIn.standsIn {locals : Locals} {name : String} {callable : Callable}
    (stand : locals.StandIn module) (found : locals.function? name = some callable) :
    callable.StandsIn module.root := by
  obtain ⟨_, _, same, _⟩ := List.lookup_eq_some_iff.mp found
  exact stand (name, callable) (by simp [same])

/-- The callable that a callback is or names stands in the module. -/
theorem StandIn.standsIn_callback? {locals : Locals} {expr : Expr} {callable : Callable}
    (stand : locals.StandIn module) (held : module.Holds ⟨_, expr⟩)
    (found : locals.callback? expr = some callable) : callable.StandsIn module.root := by
  unfold callback? at found
  split at found
  · rename_i isCallable
    cases found
    exact (Callable.standsIn_of_ofExpr? isCallable).trans held
  · obtain ⟨name, _, isFunction⟩ := Option.bind_eq_some_iff.mp found
    exact stand.standsIn isFunction

end Locals

/-- A call is one without parentheses. -/
theorem bareCall?_of_call? {expr : Expr} {call : Expr × List Expr}
    (isCall : call? expr = some call) : bareCall? expr = some call := by
  cases expr <;> first | exact isCall | cases isCall

/-! ## Chains of calls -/

namespace Search

/-- The search for the setter calls of a component of a module. -/
def of (module : Module) (timing : Timing) (component : Component) : Search :=
  ⟨module, Locals.of module, timing, component, (candidates component).filterMap (·.setter)⟩

/-- How a callable leads to a call of a setter: it makes the call itself, or it calls a local
function that leads to the call. -/
inductive Leads (search : Search) : Callable → SetterCall → Prop where
  | here {callable : Callable} {expr : Expr} {call : SetterCall}
      (isExpr : expr ∈ callable.exprs) (isCall : search.setterCall? expr = some call) :
      Leads search callable call
  | through {callable inner : Callable} {expr : Expr} {call : SetterCall}
      (isExpr : expr ∈ callable.exprs) (called : search.calledFunction? expr = some inner)
      (leads : Leads search inner call) : Leads search callable call

variable {search : Search} {call : SetterCall}

/-- The search finds nothing else. -/
theorem leads_of_mem_setterCalls {depth : Nat} {callable : Callable} {seen : List Span}
    (member : call ∈ (search.setterCalls depth callable seen).calls) :
    search.Leads callable call := by
  induction depth generalizing callable seen call with
  | zero => cases member
  | succ depth inductionHypothesis =>
      unfold setterCalls at member
      split at member
      · cases member
      · dsimp only at member
        split at member
        · cases member
        · refine List.foldlRecOn (motive := fun found : Found =>
            ∀ call ∈ found.calls, search.Leads callable call) _ _ ?_ ?_ call member
          · intro call member
            obtain ⟨expr, isExpr, isCall⟩ := List.mem_filterMap.mp member
            exact .here isExpr isCall
          · intro found sound inner isInner call member
            rcases List.mem_append.mp member with before | more
            · exact sound call before
            · obtain ⟨expr, isExpr, called⟩ := List.mem_filterMap.mp isInner
              exact .through isExpr called (inductionHypothesis more)

/-! ## What leads to calls -/

/-- What a handler does with a setter: it is the setter, or it leads to a call of it. -/
inductive Handles (search : Search) (handler : Handler) : SetterCall → Prop where
  | setter {setter : String} (isSetter : handler.expr.bare.name? = some setter) :
      Handles search handler ⟨setter, none, handler.expr.span⟩
  | callback {callable : Callable} {call : SetterCall}
      (found : search.locals.callback? handler.expr = some callable)
      (leads : search.Leads callable call) : Handles search handler call
  | inside {expr : Expr} {call : SetterCall} (isExpr : expr ∈ handler.expr.exprs)
      (isCall : search.setterCall? expr = some call) : Handles search handler call

/-- A timer of the component that leads to a call. -/
structure Times (search : Search) (site : TimerSite) (start : Expr) (callable : Callable) :
    Prop where
  isExpr : start ∈ search.component.callable.exprs
  starts : search.timer? start = some (callable, site.intervalMs)
  leads : search.Leads callable site.call
  order : site.order = start.span.start

/-- Every site of a timer is one. -/
theorem exists_times {site : TimerSite} (member : site ∈ search.timerSites) :
    ∃ start callable, search.Times site start callable := by
  refine List.foldlRecOn (motive := fun found : List TimerSite × List Span =>
    ∀ site ∈ found.1, ∃ start callable, search.Times site start callable) _ _ ?_ ?_ site member
  · intro site member
    cases member
  · intro found sound start isExpr site member
    dsimp only at member
    split at member
    · exact sound site member
    · rename_i callable intervalMs starts
      rcases List.mem_append.mp member with before | more
      · exact sound site before
      · obtain ⟨call, isCall, rfl⟩ := List.mem_map.mp more
        exact ⟨start, callable, isExpr, starts, leads_of_mem_setterCalls isCall, rfl⟩

/-- Every site of an event belongs to a handler. -/
theorem exists_handles {site : SetterCall × String} (member : site ∈ search.eventSites) :
    ∃ handler ∈ search.handlers, handler.event = site.2 ∧ search.Handles handler site.1 := by
  obtain ⟨handler, isHandler, isSite⟩ := List.mem_flatMap.mp member
  obtain ⟨call, isCall, rfl⟩ := List.mem_map.mp isSite
  refine ⟨handler, isHandler, rfl, ?_⟩
  unfold handlerCalls at isCall
  dsimp only at isCall
  split at isCall
  · rename_i setter given
    rw [List.mem_singleton.mp isCall]
    exact .setter (Option.filter_eq_some_iff.mp given).1
  · split at isCall
    · exact .callback ‹_› (leads_of_mem_setterCalls isCall)
    · obtain ⟨expr, isExpr, isSetterCall⟩ := List.mem_filterMap.mp isCall
      exact .inside isExpr isSetterCall

/-- A direct call is made by an expression in the callable. -/
theorem exists_of_mem_directCalls {callable : Callable} {node : AnyNode}
    (views : callable.Views node) (member : call ∈ search.directCalls callable) :
    ∃ expr : Expr, Node.Inside ⟨_, expr⟩ node ∧ search.setterCall? expr = some call := by
  obtain ⟨inner, inside, found⟩ := views.exists_of_mem_collect member
  obtain ⟨expr, isExpr, isCall⟩ := Option.bind_eq_some_iff.mp (Option.mem_toList.mp found)
  rw [Node.eq_of_asExpr? isExpr] at inside
  exact ⟨expr, inside, isCall⟩

/-! ## Calls of a module -/

variable {module : Module} {timing : Timing} {component : Component}

/-- A call of a setter that an expression of the module is. -/
def Made (search : Search) (call : SetterCall) : Prop :=
  ∃ expr : Expr, search.module.Holds ⟨_, expr⟩ ∧ search.setterCall? expr = some call

/-- A call that an expression is has its span. -/
theorem spec_of_setterCall? {expr : Expr} (found : search.setterCall? expr = some call) :
    call.span = expr.span ∧ ∃ callee arguments, call? expr = some (callee, arguments) ∧
      callee.name? = some call.setter ∧ call.argument = arguments.head? := by
  obtain ⟨⟨callee, arguments⟩, isCall, found⟩ := Option.bind_eq_some_iff.mp found
  obtain ⟨name, isName, found⟩ := Option.bind_eq_some_iff.mp found
  split at found <;> cases found
  exact ⟨rfl, callee, arguments, isCall, isName, rfl⟩

/-- A local function that is called stands in the module. -/
theorem standsIn_of_calledFunction? {expr : Expr} {callable : Callable}
    (called : (of module timing component).calledFunction? expr = some callable) :
    callable.StandsIn module.root := by
  obtain ⟨⟨callee, arguments⟩, _, called⟩ := Option.bind_eq_some_iff.mp called
  obtain ⟨name, _, called⟩ := Option.bind_eq_some_iff.mp called
  split at called
  · cases called
  · exact (Locals.standIn_of module).standsIn called

/-- The callback of a timer stands in the module. -/
theorem standsIn_of_timer? {start : Expr} {callable : Callable} {intervalMs : Float}
    (isComponent : component ∈ components module) (isExpr : start ∈ component.callable.exprs)
    (starts : (of module timing component).timer? start = some (callable, intervalMs)) :
    callable.StandsIn module.root := by
  have held : module.Holds ⟨_, start⟩ :=
    (standsIn_of_mem_components isComponent).inside_expr isExpr
  obtain ⟨⟨callee, arguments⟩, isCall, starts⟩ := Option.bind_eq_some_iff.mp starts
  obtain ⟨timer, _, starts⟩ := Option.bind_eq_some_iff.mp starts
  split at starts
  · obtain ⟨callback, isHead, starts⟩ := Option.bind_eq_some_iff.mp starts
    obtain ⟨_, found, same⟩ := Option.bind_eq_some_iff.mp starts
    obtain ⟨rfl, _⟩ := Prod.mk.inj (Option.some.inj same)
    refine (Locals.standIn_of module).standsIn_callback? (held.inside ?_) found
    exact inside_of_bareCall? (bareCall?_of_call? isCall) (List.mem_of_head? isHead)
  · cases starts

/-- What a callable of the module leads to is a call of the module. -/
theorem Leads.made {callable : Callable} (leads : (of module timing component).Leads callable call)
    (stands : callable.StandsIn module.root) : (of module timing component).Made call := by
  induction leads with
  | here isExpr isCall => exact ⟨_, stands.inside_expr isExpr, isCall⟩
  | through _ called _ inductionHypothesis =>
      exact inductionHypothesis (standsIn_of_calledFunction? called)

/-- What a timer leads to is a call of the module. -/
theorem Times.made {site : TimerSite} {start : Expr} {callable : Callable}
    (times : (of module timing component).Times site start callable)
    (isComponent : component ∈ components module) :
    (of module timing component).Made site.call :=
  times.leads.made (standsIn_of_timer? isComponent times.isExpr times.starts)

/-- The handlers of a component are expressions of the module. -/
theorem holds_of_mem_handlers {handler : Handler} (isComponent : component ∈ components module)
    (member : handler ∈ (of module timing component).handlers) :
    module.Holds ⟨_, handler.expr⟩ := by
  have stands := standsIn_of_mem_components isComponent
  rcases List.mem_append.mp member with inAttribute | isListener
  · obtain ⟨node, views, within⟩ := stands
    obtain ⟨⟨c, inner⟩, inside, found⟩ := views.exists_of_mem_collect inAttribute
    refine Module.Holds.inside (inside.trans within) ?_
    cases inner with
    | tag span name attributes children =>
        obtain ⟨single, isAttribute, found⟩ := List.mem_filterMap.mp found
        refine .part List.mem_cons_self (.trans ?_ (Node.inside_of_mem_toList isAttribute))
        cases single with
        | attrExpr span name value =>
            simp only [attributeHandler?] at found
            split at found <;> cases found
            exact .part List.mem_cons_self .self
        | _ => cases found
    | _ => cases found
  · obtain ⟨expr, isExpr, found⟩ := List.mem_filterMap.mp isListener
    refine Module.Holds.inside (stands.inside_expr isExpr) ?_
    unfold listener? at found
    split at found
    · rename_i isCall
      split at found <;> cases found
      exact inside_of_bareCall? (bareCall?_of_call? isCall) (by simp)
    · cases found

/-- What a handler does with a setter is a call of the module, if the handler is not the setter
itself. -/
theorem Handles.made {handler : Handler}
    (handles : (of module timing component).Handles handler call)
    (held : module.Holds ⟨_, handler.expr⟩) :
    (handler.expr.bare.name? = some call.setter ∧ call.span = handler.expr.span) ∨
      (of module timing component).Made call := by
  cases handles with
  | setter isSetter => exact .inl ⟨isSetter, rfl⟩
  | callback found leads =>
      exact .inr (leads.made ((Locals.standIn_of module).standsIn_callback? held found))
  | inside isExpr isCall =>
      obtain ⟨inner, inside, _, found⟩ := Node.exists_of_mem_collect handler.expr isExpr
      rw [Node.eq_of_asExpr? (Option.mem_toList.mp found)] at inside
      exact .inr ⟨_, held.inside inside, isCall⟩

/-- The callback of an effect stands in the module. -/
theorem standsIn_of_mem_effects {effect : Effect} (isComponent : component ∈ components module)
    (member : effect ∈ (of module timing component).effects) :
    effect.callable.StandsIn module.root := by
  obtain ⟨stmt, isStmt, found⟩ := List.mem_filterMap.mp member
  obtain ⟨node, views, within⟩ := standsIn_of_mem_components isComponent
  refine Callable.StandsIn.trans ?_ ((views.inside_stmt isStmt).trans within)
  unfold effect? at found
  split at found
  · split at found
    · obtain ⟨⟨callee, arguments⟩, isCall, found⟩ := Option.bind_eq_some_iff.mp found
      obtain ⟨callback, isHead, found⟩ := Option.bind_eq_some_iff.mp found
      obtain ⟨callable, isCallable, same⟩ := Option.bind_eq_some_iff.mp found
      cases same
      refine (Callable.standsIn_of_ofExpr? isCallable).trans (Node.Inside.trans ?_
        (.part List.mem_cons_self .self))
      exact inside_of_bareCall? isCall (List.mem_of_head? isHead)
    · cases found
  · cases found

/-- Two calls of the module with one span are one. -/
theorem Made.eq {expr : Expr} {other : SetterCall} (made : search.Made call)
    (distinct : (search.module.root.2.exprs.map Node.span).Nodup)
    (held : search.module.Holds ⟨_, expr⟩) (isCall : search.setterCall? expr = some other)
    (same : call.span = expr.span) : call = other := by
  obtain ⟨expr', held', isCall'⟩ := made
  obtain ⟨span, _⟩ := spec_of_setterCall? isCall'
  obtain rfl := Module.eq_of_span_eq distinct held' held (span.symm.trans same)
  exact Option.some.inj (isCall'.symm.trans isCall)

end Search

end StopMotion.State
