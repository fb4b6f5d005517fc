import StopMotion.State.Motion

/-!
# Collections

The initial values that spell out a collection: `Array.from`, a `map` over an array of
known length, a function that returns one of these, or one that fills an array in a
loop. What is recognised is the number of elements and the expression that makes each.
-/

namespace StopMotion.State

open StopMotion.Syntax

/-- A field of a generated record. -/
structure RecordField where
  name : String
  value : Slice
  deriving DecidableEq, Repr

/-- What makes an element of a collection. -/
inductive ElementShape where
  | record (fields : List RecordField)
  | value (value : Slice)
  deriving DecidableEq, Repr

/-- A collection with a known number of elements. `index` is the name under which the
element's expression knows its position. -/
structure Collection where
  count : Nat
  index : Option String
  element : ElementShape
  deriving DecidableEq, Repr

/-- The greatest number of elements that is expanded. -/
def maxCount : Float := 10000.0

/-- The numbers bound to the parameters of a function for one call, the innermost first. -/
abbrev Bound := List (String × Float)

/-- The value of an expression in which some names are bound. -/
def boundNumber? (locals : Locals) (bound : Bound) (expr : Expr) : Option Float :=
  match expr.bare.name?.bind fun name => bound.lookup name with
  | some value => some value
  | none => locals.number? expr

/-- The number of elements that an expression gives. -/
def count? (locals : Locals) (bound : Bound) (expr : Expr) : Option Nat :=
  match boundNumber? locals bound expr with
  | some value =>
    if Number.isFinite value && 0.0 ≤ value && value ≤ maxCount then
      some (Number.toInt value).toNat
    else none
  | none => none

/-- The number given by the `length` of an object literal. -/
def lengthEntry? (locals : Locals) (bound : Bound) (expr : Expr) : Option Nat :=
  match expr.bare with
  | .object _ entries =>
    entries.toList.findSome? fun
      | .keyed _ key value =>
        if key.keyText? = some "length" then count? locals bound value else none
      | _ => none
  | _ => none

/-- The number of elements of an array that an expression makes. -/
def arrayLength? (locals : Locals) (bound : Bound) : {c : Category} → Node c → Option Nat
  | _, .paren _ inner | _, .assertion _ inner => arrayLength? locals bound inner
  | _, .call _ callee (.cons first .nil) _ | _, .newCall _ callee (.cons first .nil) =>
    if callee.name? = some "Array" then count? locals bound first
    else if callee.dotted? = some "Array.from" then
      match lengthEntry? locals bound first with
      | some count => some count
      | none => arrayLength? locals bound first
    else
      match callee with
      | .member _ owner property _ =>
        if property.text = "fill" ∨ property.text = "keys" then arrayLength? locals bound owner
        else none
      | _ => none
  | _, .call _ (.member _ owner property _) _ _ | _, .newCall _ (.member _ owner property _) _ =>
    if property.text = "fill" ∨ property.text = "keys" then arrayLength? locals bound owner
    else none
  | _, .array _ (.cons (.present (.spread _ inner)) .nil) => arrayLength? locals bound inner
  | _, _ => none

/-- What makes an element, from the expression of its value. Entries that are not keyed depend
on names around them and are not recognised. -/
def elementOf? (module : Module) (value : Expr) : Option ElementShape :=
  match value.bare with
  | .object _ entries => do
    let fields ← entries.toList.mapM fun
      | .keyed _ key value => key.keyText?.map fun name => ⟨name, Slice.of module value⟩
      | _ => none
    return .record fields
  | _ => some (.value (Slice.of module value))

/-- The collection whose elements a callback makes. Statements before its return would bind
names that an element depends on. -/
def ofCallback? (module : Module) (callback : Expr) (count : Nat) : Option Collection := do
  let callable ← Callable.ofExpr? callback
  if 1 < callable.stmts.length then none
  else
    let result ← callable.result?
    return ⟨count, callable.paramName? 1, ← elementOf? module result⟩

/-- The collection that a call spells out. -/
def ofCall? (module : Module) (locals : Locals) (bound : Bound) (expr : Expr) :
    Option Collection := do
  let (callee, arguments) ← bareCall? expr
  match callee.dotted?, arguments with
  | some "Array.from", [source, callback] =>
    let count ← lengthEntry? locals bound source <|> arrayLength? locals bound source
    ofCallback? module callback count
  | _, _ =>
    match callee, arguments with
    | .member _ owner property _, callback :: _ =>
      if property.text = "map" then
        let count ← arrayLength? locals bound owner
        ofCallback? module callback count
      else none
    | _, _ => none

/-- The name of a loop's counter, from its declaration. -/
def counterName? : Node .loopHead → Option String
  | .headVar _ (.cons (.declares _ target _) _) => boundName? target
  | _ => none

/-- The number of times that a loop runs, from its test. -/
def loopCount? (locals : Locals) (bound : Bound) (counter : String) (test : Expr) :
    Option Nat :=
  match test.bare with
  | .binary _ .less left right =>
    if isName left counter then count? locals bound right else none
  | .binary _ .lessEqual left right =>
    if isName left counter then (count? locals bound right).map (· + 1) else none
  | _ => none

/-- The element that a loop's body pushes to an array, if that is all it does. -/
def pushed? (array : String) (body : Stmt) : Option Expr :=
  let only :=
    match body with
    | .block _ (.cons stmt .nil) => stmt
    | _ => body
  match only with
  | .exprStmt _ (.call _ (.member _ owner property _) (.cons value .nil) _) =>
    if property.text = "push" ∧ isName owner array then some value else none
  | _ => none

/-- The collection that a loop pushes to an array. -/
def ofLoop? (module : Module) (locals : Locals) (bound : Bound) (array : String)
    (stmt : Stmt) : Option Collection :=
  match stmt with
  | .forStmt _ (.present init) (.present test) _ body => do
    let counter ← counterName? init
    let count ← loopCount? locals bound counter test
    let value ← pushed? array body
    return ⟨count, some counter, ← elementOf? module value⟩
  | _ => none

/-- The numbers bound by a call: an argument's value, or that of a parameter's default. -/
def bindParams (locals : Locals) (outer : Bound) (params : List Pattern)
    (arguments : List Expr) : Bound :=
  let values := params.mapIdx fun position param => do
    let name ← boundName? param
    let value ←
      match arguments[position]?, param with
      | some argument, _ => boundNumber? locals outer argument
      | none, .bindDefault _ _ value => locals.number? value
      | none, _ => none
    return (name, value)
  (values.filterMap id).reverse

/-- The collection that a call of a function returns. `ofValue` recognises the value of the
result. -/
def ofResult? (module : Module) (locals : Locals)
    (ofValue : Bound → Expr → Option Collection) (callable : Callable)
    (arguments : List Expr) (outer : Bound) : Option Collection := do
  let bound := bindParams locals outer callable.params arguments
  let result ← callable.result?
  match ofValue bound result with
  | some collection => some collection
  | none =>
    let array ← result.bare.name?
    callable.stmts.findSome? (ofLoop? module locals bound array)

/-- The collection that an expression evaluates to, going through at most `depth` functions
less one. -/
def ofValue? (module : Module) (locals : Locals) : Nat → Bound → Expr → Option Collection
  | 0, _, _ => none
  | depth + 1, bound, expr =>
    let ofFunction (callable : Callable) (arguments : List Expr) :=
      ofResult? module locals (ofValue? module locals depth) callable arguments bound
    let value := expr.bare
    match Callable.ofExpr? value with
    | some callable => if callable.params.isEmpty then ofFunction callable [] else none
    | none =>
      let named :=
        match value with
        | .call _ callee arguments _ =>
          (callee.name?.bind locals.function?).map fun callable => (callable, arguments.toList)
        | .name _ name => (locals.function? name.text).map fun callable => (callable, [])
        | _ => none
      match named with
      | some (callable, arguments) => ofFunction callable arguments
      | none => ofCall? module locals bound value

/-- The collection that an initial value spells out, if it is recognised as one. -/
def collection? (module : Module) (locals : Locals) (init : Expr) : Option Collection :=
  ofValue? module locals 5 [] init

end StopMotion.State
