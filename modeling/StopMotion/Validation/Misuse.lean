import StopMotion.State.Callable
import StopMotion.Validation.Finding

/-!
# Rules of the renderer

Calls that a frame must not make, and calls that the renderer's functions do not take:
entropy and wall clocks, a frame counter outside a component, ranges that do not match.
-/

namespace StopMotion.Validation

open StopMotion.Syntax StopMotion.State

/-- The functions that give another answer at every call. -/
def clocks : List String := ["Date.now", "performance.now", "window.performance.now"]

/-- The functions that call back at a time of the wall clock. -/
def schedulers : List String :=
  ["setInterval", "setTimeout", "requestAnimationFrame", "window.setInterval",
    "window.setTimeout", "window.requestAnimationFrame"]

/-- The last part of a dotted name. -/
def lastPart (name : String) : String :=
  match Text.splitLast? '.' name.toList with
  | some (_, last) => String.ofList last
  | none => name

/-- Whether an entry gives a key, or might. -/
def mayGive (key : String) : Node .entry → Bool
  | .keyed _ given _ | .methodEntry _ given _ => given.keyText? == some key
  | .shorthand _ name => name.text == key
  | .spreadEntry .. => true

/-- What is wrong with a call of `interpolate`. -/
def interpolateProblem? (arguments : List Expr) : Option Problem :=
  match arguments with
  | _ :: inputs :: outputs :: _ =>
    match inputs.bare, outputs.bare with
    | .array _ inputs, .array _ outputs =>
      let (inputs, outputs) := (inputs.toList.length, outputs.toList.length)
      if inputs = outputs then none else some (.unequalRanges inputs outputs)
    | _, _ => none
  | _ => some (.fewArguments arguments.length)

/-- What is wrong with a call of `spring`. -/
def springProblem? (arguments : List Expr) : Option Problem :=
  match arguments.head?.map Node.bare with
  | some (.object _ entries) =>
    if entries.toList.any (mayGive "fps") then none else some .springWithoutRate
  | _ => none

/-- What is wrong with a call of a function by its dotted name. -/
def callProblem? (name : String) (arguments : List Expr) : Option Problem :=
  if name = "Math.random" then some (.nondeterministic "Math.random()")
  else if clocks.contains name then some (.nondeterministic (name ++ "()"))
  else if schedulers.contains name then some (.wallClock name)
  else
    match (Text.afterString? "Remotion." name).getD name with
    | "interpolate" => interpolateProblem? arguments
    | "spring" => springProblem? arguments
    | _ => none

/-! ## The frame counter -/

/-- The callee of a call of the hook for the frame counter. -/
def counterCallee? (expr : Expr) : Option Expr := do
  let (callee, _) ← call? expr
  let name ← callee.dotted?
  if lastPart name = "useCurrentFrame" then some callee else none

/-- The calls of the hook outside all functions. -/
def outerCounterCalls (module : Module) : List Span :=
  module.body.flatMap fun stmt => stmt.collect fun node =>
    { found := ((node.asExpr?.filter fun expr => (counterCallee? expr).isSome).map Node.span).toList
      goesInside := !isFunction node }
where
  /-- Whether a node is a function. -/
  isFunction : {c : Category} → Node c → Bool
  | _, .func .. | _, .arrow .. => true
  | _, _ => false

/-- What calls of the hook say about a module. -/
structure CounterCalls where
  /-- The callees, which are not looked into. -/
  callees : List Span
  /-- The calls outside all functions. -/
  outer : List Span

/-- The calls of the hook in a module. -/
def CounterCalls.of (module : Module) : CounterCalls where
  callees := (module.body.flatMap Node.exprs).filterMap fun expr =>
    (counterCallee? expr).map Node.span
  outer := outerCounterCalls module

/-- Whether a place is inside the callee of a call of the hook. -/
def CounterCalls.holds (calls : CounterCalls) (span : Span) : Bool :=
  calls.callees.any fun callee => callee.contains span

/-- What is wrong with an expression. -/
def exprProblem? (calls : CounterCalls) (expr : Expr) : Option Problem :=
  match expr with
  | .call span callee arguments _ =>
    if (counterCallee? expr).isSome then
      if calls.outer.contains span then some .counterOutside else none
    else callee.dotted?.bind fun name => callProblem? name arguments.toList
  | .newCall _ callee .nil =>
    if callee.name? = some "Date" then some (.nondeterministic "new Date()") else none
  | .name span name =>
    if name.text = "useCurrentFrame" ∧ !calls.holds span then some .counterNotCalled else none
  | _ => none

/-- Whether a node binds the name `frame`. -/
def bindsFrame : {c : Category} → Node c → Bool
  | _, .bindName _ name => name.text == "frame"
  | _, _ => false

/-- The first mention of `frame` in a module that neither binds it nor calls the hook. -/
def missingCounter? (module : Module) (calls : CounterCalls) : Option Concern :=
  let isBound := module.body.any fun stmt =>
    !(stmt.collect fun node => { found := if bindsFrame node then [()] else [] }).isEmpty
  if isBound || !calls.callees.isEmpty then none
  else
    ((module.body.flatMap Node.exprs).find? fun expr => expr.name? == some "frame").map
      fun expr => ⟨expr.span, .counterMissing⟩

/-- The misuses in a module, by their start. -/
def misuses (module : Module) : List Concern :=
  let calls := CounterCalls.of module
  let found := (module.body.flatMap Node.exprs).filterMap fun expr =>
    (exprProblem? calls expr).map fun problem => Concern.mk expr.span problem
  (found ++ (missingCounter? module calls).toList).mergeSort fun first second =>
    first.span.start ≤ second.span.start

end StopMotion.Validation
