import StopMotion.State.Binding
import StopMotion.State.Component

/-!
# Classification

Every call of a setter in a component is put down to what makes it: a timer, an event, an
effect, or none of these. A state binding then follows the strongest of its calls: a
timer before an effect, an effect before an event, and no call at all leaves it
constant. A memo is derived from what its callback reads.
-/

namespace StopMotion.State

open StopMotion.Syntax

/-! ## Candidates -/

/-- A declarator at the top of a component's body that declares state or a memo. -/
structure Candidate where
  name : String
  setter : Option String
  call : Expr
  span : Span
  isMemo : Bool

/-- The plain name at a position of an array pattern. -/
def elementName? (elements : List (Node (.option .pattern))) (position : Nat) :
    Option String :=
  match elements[position]? with
  | some (.present (.bindName _ name)) => some name.text
  | _ => none

/-- The candidate that a declarator is. -/
def candidate? : Node .declarator → Option Candidate
  | .declares span target (.present init) =>
    if isHookCall init "useState" then
      match target with
      | .bindArray _ elements =>
        (elementName? elements.toList 0).map fun name =>
          ⟨name, elementName? elements.toList 1, init, span, false⟩
      | _ => none
    else if isHookCall init "useMemo" then
      match target with
      | .bindName _ name => some ⟨name.text, none, init, span, true⟩
      | _ => none
    else none
  | _ => none

/-- The candidates of a component, in source order. -/
def candidates (component : Component) : List Candidate :=
  component.callable.stmts.flatMap fun
    | .varStmt _ _ declarators => declarators.toList.filterMap candidate?
    | _ => []

/-! ## Setter calls -/

/-- A call of a setter, or the setter handed on as a handler. -/
structure SetterCall where
  setter : String
  argument : Option Expr
  span : Span

/-- What is known while the calls of a component's setters are looked for. -/
structure Search where
  module : Module
  locals : Locals
  timing : Timing
  component : Component
  setters : List String

namespace Search

/-- The setter call that an expression is. -/
def setterCall? (search : Search) (expr : Expr) : Option SetterCall := do
  let (callee, arguments) ← call? expr
  let name ← callee.name?
  if search.setters.contains name then some ⟨name, arguments.head?, expr.span⟩ else none

/-- The local function that an expression calls by name. -/
def calledFunction? (search : Search) (expr : Expr) : Option Callable := do
  let (callee, _) ← call? expr
  let name ← callee.name?
  if search.setters.contains name then none else search.locals.function? name

/-- The number of function bodies that a search for setter calls goes through. -/
def maxBodies : Nat := 64

/-- The setter calls that are found, and the bodies that were gone through. -/
structure Found where
  calls : List SetterCall := []
  seen : List Span := []

/-- The setter calls in a callable and in the local functions that it calls, a body at most
once. Each body that is entered adds to those seen, so `depth` bounds the nesting. -/
def setterCalls (search : Search) : (depth : Nat) → Callable → (seen : List Span) → Found
  | 0, _, seen => ⟨[], seen⟩
  | depth + 1, callable, seen =>
    if seen.contains callable.span then ⟨[], seen⟩
    else
      let seen := callable.span :: seen
      if maxBodies < seen.length then ⟨[], seen⟩
      else
        let exprs := callable.exprs
        (exprs.filterMap search.calledFunction?).foldl
          (fun found inner =>
            let more := setterCalls search depth inner found.seen
            ⟨found.calls ++ more.calls, more.seen⟩)
          ⟨exprs.filterMap search.setterCall?, seen⟩

/-- The setter calls that a callable leads to, with the bodies seen before. -/
def reached (search : Search) (callable : Callable) (seen : List Span) : Found :=
  search.setterCalls (maxBodies + 2) callable seen

/-! ## Sites -/

/-- A setter call that a timer leads to. -/
structure TimerSite where
  call : SetterCall
  intervalMs : Float
  order : Nat

/-- The interval of a timer that is started with some arguments. -/
def interval (search : Search) (timer : TimerFunction) (arguments : List Expr) : Float :=
  match timer with
  | .requestAnimationFrame => search.timing.frameIntervalMs
  | _ =>
    match arguments[1]?.bind fun delay => search.locals.number? delay with
    | some delay => if 0.0 < delay then delay else search.timing.defaultIntervalMs
    | none => search.timing.defaultIntervalMs

/-- The timer that an expression starts: its function, callback and interval. -/
def timer? (search : Search) (expr : Expr) : Option (Callable × Float) := do
  let (callee, arguments) ← call? expr
  let timer ← TimerFunction.ofCallee? callee
  if timer.starts then
    let callback ← arguments.head?
    let callable ← search.locals.callback? callback
    return (callable, search.interval timer arguments)
  else none

/-- The setter calls that timers lead to. A body that one timer has gone through is not gone
through for another. -/
def timerSites (search : Search) : List TimerSite :=
  let (sites, _) := search.component.callable.exprs.foldl
    (fun (sites, seen) expr =>
      match search.timer? expr with
      | none => (sites, seen)
      | some (callable, intervalMs) =>
        let found := search.reached callable seen
        (sites ++ found.calls.map fun call => ⟨call, intervalMs, expr.span.start⟩, found.seen))
    (([] : List TimerSite), ([] : List Span))
  sites

/-- The handler of an event, and the name of the event. -/
structure Handler where
  expr : Expr
  event : String

/-- The handler that an attribute holds. -/
def attributeHandler? : Node .jsxAttribute → Option Handler
  | .attrExpr _ name value => if isEventName name then some ⟨value, name⟩ else none
  | _ => none

/-- The handlers in the attributes of an element. -/
def elementHandlers : {c : Category} → Node c → List Handler
  | _, .tag _ _ attributes _ => attributes.toList.filterMap attributeHandler?
  | _, _ => []

/-- The handler that an expression registers as a listener. -/
def listener? (expr : Expr) : Option Handler :=
  match call? expr with
  | some (callee, .string _ event :: handler :: _) =>
    if isListenerCall callee then some ⟨handler, event⟩ else none
  | _ => none

/-- The handlers in a component: those in attributes, then those registered as listeners. -/
def handlers (search : Search) : List Handler :=
  let callable := search.component.callable
  callable.collect (fun node => { found := elementHandlers node }) ++
    callable.exprs.filterMap listener?

/-- The setter calls that a handler leads to. -/
def handlerCalls (search : Search) (handler : Handler) : List SetterCall :=
  let given := handler.expr.bare.name?.filter search.setters.contains
  match given with
  | some setter => [⟨setter, none, handler.expr.span⟩]
  | none =>
    match search.locals.callback? handler.expr with
    | some callable => (search.reached callable []).calls
    | none => handler.expr.exprs.filterMap search.setterCall?

/-- The setter calls that events lead to, with the name of the event. -/
def eventSites (search : Search) : List (SetterCall × String) :=
  search.handlers.flatMap fun handler =>
    (search.handlerCalls handler).map fun call => (call, handler.event)

/-- Whether a callable starts or stops a timer or registers a listener. -/
def schedulesWork (callable : Callable) : Bool :=
  callable.exprs.any fun expr =>
    match call? expr with
    | some (callee, _) => (TimerFunction.ofCallee? callee).isSome || isListenerCall callee
    | none => false

/-- Whether a node is a function, inside which nothing is called directly. -/
def isFunction : {c : Category} → Node c → Bool
  | _, .func .. | _, .arrow .. => true
  | _, _ => false

/-- The setter calls in a callable, those in functions inside it apart. -/
def directCalls (search : Search) (callable : Callable) : List SetterCall :=
  callable.collect fun node =>
    { found := (node.asExpr?.bind search.setterCall?).toList
      goesInside := !isFunction node }

/-- An effect: its callback, and whether it runs once, when the component is mounted. -/
structure Effect where
  callable : Callable
  onMount : Bool

/-- The effect that a statement is. -/
def effect? : Stmt → Option Effect
  | .exprStmt _ value =>
    if isHookCall value "useEffect" || isHookCall value "useLayoutEffect" then do
      let (_, arguments) ← bareCall? value
      let callback ← arguments.head?
      let callable ← Callable.ofExpr? callback
      let onMount :=
        match arguments[1]?.map Node.bare with
        | some (.array _ .nil) => true
        | _ => false
      return ⟨callable, onMount⟩
    else none
  | _ => none

/-- The effects of a component. -/
def effects (search : Search) : List Effect :=
  search.component.callable.stmts.filterMap effect?

/-- The direct setter calls of the effects that schedule no work. -/
def effectSites (search : Search) : List SetterCall :=
  (search.effects.filter fun effect => !schedulesWork effect.callable).flatMap
    fun effect => search.directCalls effect.callable

/-- The collection that a setter call is given. -/
def seed? (search : Search) (call : SetterCall) : Option Collection :=
  call.argument.bind (collection? search.module search.locals)

/-- The direct setter calls that are given a collection in the effects that run once and
schedule work. -/
def seedSites (search : Search) : List SetterCall :=
  let seeding := search.effects.filter fun effect =>
    effect.onMount && schedulesWork effect.callable
  seeding.flatMap fun effect =>
    (search.directCalls effect.callable).filter fun call => (search.seed? call).isSome

/-- All setter calls of a component, by what leads to them. -/
structure Sites where
  timers : List TimerSite
  events : List (SetterCall × String)
  effects : List SetterCall
  seeds : List SetterCall
  strays : List SetterCall

/-- The setter calls of a component. A call that nothing else leads to is a stray one. -/
def sites (search : Search) : Sites :=
  let timers := search.timerSites
  let events := search.eventSites
  let effects := search.effectSites
  let seeds := search.seedSites
  let claimed := timers.map (·.call.span) ++ events.map (·.1.span) ++ effects.map (·.span) ++
    seeds.map (·.span)
  let calls := search.component.callable.exprs.filterMap search.setterCall?
  ⟨timers, events, effects, seeds, calls.filter fun call => !claimed.contains call.span⟩

/-! ## Bindings -/

/-- The other bindings that an expression reads, in the order of their first mention. -/
def dependencies (names : List String) (own : String) (expr : Expr) : List String :=
  (expr.exprs.filterMap Node.name?).foldl
    (fun found name =>
      if name != own && names.contains name && !found.contains name then found ++ [name]
      else found)
    []

/-- The first argument of the call that declares a candidate. -/
def initialValue? (candidate : Candidate) : Option Expr :=
  (bareCall? candidate.call).bind fun (_, arguments) => arguments.head?

/-- A binding about which only its declarator is known. -/
def blank (search : Search) (candidate : Candidate) (initial : Slice) : Binding where
  name := candidate.name
  setter := candidate.setter
  component := search.component.name
  kind := .scalar
  initial := initial
  rule := .constant
  dependsOn := []
  span := candidate.span
  collection := none
  notes := []

/-- The binding of a memo. -/
def memoBinding (search : Search) (names : List String) (candidate : Candidate) : Binding :=
  let blank := search.blank candidate (Slice.of search.module candidate.call)
  let callback := initialValue? candidate
  match callback, callback.bind Callable.ofExpr? with
  | some expr, some callable =>
    let rule :=
      match callable.body with
      | .expr value => Rule.derived (Slice.of search.module value) .memo
      | .block .. => .derived (Slice.of search.module expr) .memoBody
    { blank with rule, dependsOn := dependencies names candidate.name expr }
  | _, _ => { blank with rule := .unclassified .memoWithoutCallback }

/-- The binding of a state candidate with what its initial value tells. -/
def initialBinding (search : Search) (candidate : Candidate) : Binding :=
  match initialValue? candidate with
  | none =>
    let stop := candidate.call.span.stop
    search.blank candidate ⟨⟨stop, stop⟩, "undefined"⟩
  | some init =>
    let collection := collection? search.module search.locals init
    let kind :=
      match collection, init.bare with
      | some collection, _ => collection.kind
      | none, .array .. => .collection
      | none, _ => .scalar
    { search.blank candidate (Slice.of search.module init) with collection, kind }

/-- A binding with the collection that a seed gives it, if it has none. -/
def withSeed (search : Search) (seeds : List SetterCall) (setter : String)
    (binding : Binding) : Binding :=
  let seed := seeds.reverse.find? fun call => call.setter == setter
  match binding.collection, seed.bind search.seed? with
  | none, some collection =>
    { binding with
      kind := collection.kind
      collection := some collection
      notes := binding.notes ++
        ["`" ++ binding.name ++ "` is seeded by `" ++ setter ++ "` in a mount effect"] }
  | _, _ => binding

/-- The timer that counts for a binding: the one declared last. -/
def lastDeclared? (timers : List TimerSite) : Option TimerSite :=
  timers.foldl
    (fun best site =>
      match best with
      | some found => if found.order ≤ site.order then some site else best
      | none => some site)
    none

/-- The rule of a binding that a timer changes with an update. A motion of records needs a
collection of records, any other a scalar. -/
def timerRule (search : Search) (binding : Binding) (intervalMs : Float) (update : Expr) :
    Rule :=
  match motionOfUpdate search.module search.locals binding.name update with
  | .error reason => .unclassified reason
  | .ok motion =>
    if motion.movesRecords && binding.kind != .records then .unclassified .recordsOfNoCollection
    else if !motion.movesRecords && binding.kind != .scalar then .unclassified .scalarOfCollection
    else .periodic intervalMs motion

/-- The rule of a binding whose setter an effect calls, and the bindings it reads. -/
def effectRule (search : Search) (names : List String) (name : String) (call : SetterCall) :
    Rule × List String :=
  match call.argument with
  | none => (.unclassified .effectWithoutValue, [])
  | some value =>
    if (Callable.ofExpr? value).isSome then (.unclassified .refersToItself, [])
    else (.derived (Slice.of search.module value) .effect, dependencies names name value)

/-- The notes about the timers and events of a binding that follows a timer. -/
def timerNotes (name : String) (timers : Nat) (events : List String) : List String :=
  let competing :=
    if 1 < timers then
      [toString timers ++ " timer sites update `" ++ name ++ "`; the last declared one wins"]
    else []
  let dropped :=
    if events.isEmpty then []
    else
      ["event handler updates (" ++ ", ".intercalate events ++
        ") are dropped in favour of the timer"]
  competing ++ dropped

/-- The rule of a binding that has a setter. -/
def settle (search : Search) (names : List String) (sites : Sites) (setter : String)
    (binding : Binding) : Binding :=
  let isMine (call : SetterCall) : Bool := call.setter == setter
  let timers := sites.timers.filter fun site => isMine site.call && site.call.argument.isSome
  let events := ((sites.events.filter fun (call, _) => isMine call).map (·.2)).eraseDups
  let update := (lastDeclared? timers).bind fun site =>
    site.call.argument.map fun update => (site, update)
  match update with
  | some (site, update) =>
    { binding with
      rule := search.timerRule binding site.intervalMs update
      notes := binding.notes ++ timerNotes binding.name timers.length events }
  | none =>
    match sites.effects.reverse.find? isMine with
    | some call =>
      let (rule, dependsOn) := search.effectRule names binding.name call
      { binding with rule, dependsOn }
    | none =>
      if !events.isEmpty then { binding with rule := .handler events }
      else if sites.strays.any isMine then
        { binding with rule := .unclassified (.strayCall setter) }
      else binding

/-- The binding of a state candidate. -/
def stateBinding (search : Search) (names : List String) (sites : Sites)
    (candidate : Candidate) : Binding :=
  let binding := search.initialBinding candidate
  match candidate.setter with
  | none => binding
  | some setter => search.settle names sites setter (search.withSeed sites.seeds setter binding)

end Search

/-- The bindings of a component. -/
def componentBindings (module : Module) (locals : Locals) (timing : Timing)
    (component : Component) : List Binding :=
  let candidates := candidates component
  if candidates.isEmpty then []
  else
    let search : Search := ⟨module, locals, timing, component, candidates.filterMap (·.setter)⟩
    let names := candidates.map (·.name)
    let sites := search.sites
    candidates.map fun candidate =>
      if candidate.isMemo then search.memoBinding names candidate
      else search.stateBinding names sites candidate

/-- The bindings of every component of a module. -/
def classify (module : Module) (timing : Timing := {}) : List Binding :=
  let locals := Locals.of module
  (components module).flatMap (componentBindings module locals timing)

end StopMotion.State
