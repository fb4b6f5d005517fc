import StopMotion.Hash.Fnv
import StopMotion.State.Callable
import StopMotion.Text.Edit

/-!
# Chance and clocks

The reads of chance and of the wall clock, and the timers, that are left inside
expressions. Chance becomes a seeded draw for the index of the loop or callback around
it, the clock the time of the frame, and a timer the number zero.
-/

namespace StopMotion.Frame

open StopMotion.Syntax StopMotion.State

/-- Something in an expression that would differ from one rendering to the next. -/
inductive Entropy where
  | random
  | clock
  | date
  | timer
  deriving DecidableEq, Repr

/-- Whether an expression draws a random number. -/
def isRandomCall (expr : Expr) : Bool :=
  match call? expr with
  | some (callee, []) => callee.dotted? == some "Math.random"
  | _ => false

/-- What an expression reads or starts, if it is an entropy of its own. -/
def entropy? (expr : Expr) : Option Entropy :=
  match expr with
  | .call _ callee arguments _ =>
    if isRandomCall expr then some .random
    else if arguments.toList.isEmpty &&
        callee.dotted?.any ["Date.now", "performance.now"].contains then some .clock
    else if (TimerFunction.ofCallee? callee).isSome then some .timer
    else none
  | .newCall _ callee .nil => if callee.name? = some "Date" then some .date else none
  | _ => none

/-- An entropy at a place. -/
structure EntropySite where
  span : Span
  entropy : Entropy
  deriving DecidableEq, Repr

/-- The entropy of a node, outside the parts that are removed already. -/
def pickEntropy (removed : List Edit) {c : Category} (node : Node c) : Pick EntropySite :=
  match node.asExpr?, node.asStmt? with
  | some expr, _ =>
    if Edit.covers removed expr.span then { goesInside := false }
    else
      match entropy? expr with
      | some entropy => { found := [⟨expr.span, entropy⟩], goesInside := false }
      | none => {}
  | none, some stmt => { goesInside := !Edit.covers removed stmt.span }
  | none, none => {}

/-- The entropy that a module has left when some parts are removed. -/
def entropySites (removed : List Edit) (module : Module) : List EntropySite :=
  module.body.flatMap fun stmt => stmt.collect fun node => pickEntropy removed node

/-! ## Indices -/

/-- A part of the source in which a name counts: a loop's counter, or the parameter for the
index of an iteration's callback. -/
structure Counted where
  span : Span
  index : String
  deriving DecidableEq, Repr

/-- The positions of the callback among the arguments of an iterating call, and of the index
among the parameters of the callback. -/
def iteration? (callee : Expr) : Option (Nat × Nat) :=
  if callee.dotted? = some "Array.from" then some (1, 1)
  else
    match callee with
    | .member _ _ property _ =>
      if ["map", "forEach", "filter", "flatMap", "some", "every", "find",
          "findIndex"].contains property.text then some (0, 1)
      else if property.text = "reduce" then some (0, 2)
      else none
    | _ => none

/-- The callback of an iterating call with the name of its index. -/
def countedCallback? (callee : Expr) (arguments : List Expr) : Option Counted := do
  let (position, param) ← iteration? callee
  let callback ← arguments[position]?
  let callable ← Callable.ofExpr? callback
  return ⟨callback.span, ← callable.paramName? param⟩

/-- The part that a node counts over. -/
def counted? : {c : Category} → Node c → Option Counted
  | _, .forStmt span (.present (.headVar _ (.cons (.declares _ target _) _))) _ _ _ =>
    (boundName? target).map fun index => ⟨span, index⟩
  | _, .call _ callee arguments _ => countedCallback? callee arguments.toList
  | _, _ => none

/-- The counted parts of a module, a part before those inside it. -/
def countedParts (module : Module) : List Counted :=
  module.body.flatMap fun stmt => stmt.collect fun node => { found := (counted? node).toList }

/-- The index that counts at a place: that of the innermost counted part around it, or zero
outside of all. -/
def indexAt (parts : List Counted) (span : Span) : String :=
  ((parts.reverse.find? fun part => part.span.contains span).map (·.index)).getD "0"

end StopMotion.Frame
