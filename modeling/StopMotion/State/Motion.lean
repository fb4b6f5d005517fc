import StopMotion.State.Locals

/-!
# Motions

How a piece of state changes at every tick of a timer, read off the expression that its
setter is given. An update is a function of the current value or an expression that
mentions the state by name.
-/

namespace StopMotion.State

open StopMotion.Syntax

/-- A part of the source. -/
structure Slice where
  span : Span
  text : String
  deriving DecidableEq, Repr

/-- The source of an expression. -/
def Slice.of (module : Module) (expr : Expr) : Slice :=
  ⟨expr.span, module.text expr.span⟩

/-- How much a field of a record changes at a tick: by a constant, or by another field of the
record with a sign. -/
inductive FieldStep where
  | constant (value : Float)
  | field (name : String) (sign : Float)
  deriving Repr

/-- A field that a record update assigns, and its change if that is understood. -/
structure FieldMotion where
  name : String
  step : Option FieldStep
  deriving Repr

/-- How a value changes at a tick. -/
inductive Motion where
  /-- The value grows by `step`. -/
  | linear (step : Float)
  /-- The value grows by `step` and wraps at `modulus`. -/
  | wrap (step modulus : Float)
  /-- The value moves by `step` between two ends and starts again at the other one. -/
  | bounded (step low high : Float)
  /-- The value moves by `step` and settles at `limit`. -/
  | clamped (step limit : Float)
  /-- The value is negated. -/
  | toggle
  /-- The value swings by `amplitude` around its start. -/
  | oscillate (amplitude : Float)
  /-- Every record of a collection moves field by field. -/
  | records (fields : List FieldMotion)
  deriving Repr

/-- Whether a motion is one of records. -/
def Motion.movesRecords : Motion → Bool
  | records _ => true
  | _ => false

/-- Why a binding follows no recognised rule. -/
inductive Reason where
  | unnamedParam
  | noResult
  | unrecognised (update : String)
  | mapWithoutCallback
  | mapOfNoFunction
  | mapWithoutRecord
  | mapWithoutResult
  | mapToNoRecord (result : String)
  | noFields
  | memoWithoutCallback
  | refersToItself
  | effectWithoutValue
  | strayCall (setter : String)
  | recordsOfNoCollection
  | scalarOfCollection
  deriving DecidableEq, Repr

/-- The wording of a reason. -/
def Reason.text : Reason → String
  | unnamedParam => "functional update without a named parameter"
  | noResult => "functional update without a single result expression"
  | unrecognised update => "unrecognised update `" ++ update ++ "`"
  | mapWithoutCallback => "map without a callback"
  | mapOfNoFunction => "map callback is not a function"
  | mapWithoutRecord => "map callback without a named record parameter"
  | mapWithoutResult => "map callback without a single result expression"
  | mapToNoRecord result => "map callback returns `" ++ result ++ "`, not a record"
  | noFields => "record update assigns no fields"
  | memoWithoutCallback => "useMemo without an inline callback"
  | refersToItself => "self-referential update inside an effect"
  | effectWithoutValue => "effect calls the setter without a value"
  | strayCall setter =>
    "`" ++ setter ++ "` is called outside timers, effects and event handlers"
  | recordsOfNoCollection => "record update over an unrecognised collection"
  | scalarOfCollection => "scalar update applied to a collection"

/-- The longest beginning of a text with at most `bytes` bytes. -/
def takeBytes (bytes : Nat) : List Char → List Char
  | [] => []
  | c :: rest => if c.utf8Size ≤ bytes then c :: takeBytes (bytes - c.utf8Size) rest else []

/-- A text on one line, cut to sixty bytes, as it is quoted in a reason. -/
def snippet (text : String) : String :=
  let line := [' '].intercalate (Text.words text.toList)
  if 60 < Text.size line then String.ofList (takeBytes 57 line ++ "...".toList)
  else String.ofList line

/-! ## Scalar motions -/

/-- Whether an expression is nothing but a name. -/
def isName (expr : Expr) (name : String) : Bool :=
  expr.bare.name? == some name

/-- The change of an expression that adds a number to the current value or subtracts one
from it. -/
def stepOf? (locals : Locals) (current : String) (expr : Expr) : Option Float :=
  match expr.bare with
  | .binary _ .add left right =>
    if isName left current then locals.number? right
    else if isName right current then locals.number? left
    else none
  | .binary _ .subtract left right =>
    if isName left current then (locals.number? right).map fun value => -value else none
  | _ => none

/-- Whether an expression is a sine or cosine. -/
def isTrigonometric (expr : Expr) : Bool :=
  (calledName? expr.bare).any ["Math.sin", "Math.cos"].contains

/-- The motion of a value that one limit stops: the least of a rising value and the limit, or
the greatest of a falling one. -/
def clamp? (locals : Locals) (current : String) (isMin : Bool) (moving limit : Expr) :
    Option Motion := do
  let step ← stepOf? locals current moving
  let limit ← locals.number? limit
  if isMin == decide (0.0 < step) then some (.clamped step limit) else none

/-- The number that a test compares the current or the next value with. -/
def threshold? (locals : Locals) (current : String) (test : Expr) : Option Float :=
  match test.bare with
  | .binary _ op left right =>
    let moves (expr : Expr) := isName expr current || (stepOf? locals current expr).isSome
    if [BinaryOp.greater, .greaterEqual, .less, .lessEqual].contains op then
      if moves left then locals.number? right
      else if moves right then locals.number? left
      else none
    else none
  | _ => none

/-- The smaller of two numbers; one that is not a number gives way. -/
def lesser (left right : Float) : Float :=
  if left.isNaN then right
  else if right.isNaN then left
  else if right < left then right else left

/-- The greater of two numbers; one that is not a number gives way. -/
def greater (left right : Float) : Float :=
  if left.isNaN then right
  else if right.isNaN then left
  else if left < right then right else left

/-- Whether an expression is a boolean literal. -/
def isBoolean (expr : Expr) (value : Bool) : Bool :=
  match expr.bare with
  | .boolean _ found => found == value
  | _ => false

/-- The motion of a conditional: a flag that is turned, or a value that moves until it passes
a threshold and then starts again at a number. -/
def conditionalMotion? (locals : Locals) (current : String)
    (test consequent alternative : Expr) : Option Motion :=
  if isName test current && isBoolean consequent false && isBoolean alternative true then
    some .toggle
  else do
    let limit ← threshold? locals current test
    let (step, reset) ←
      match stepOf? locals current alternative, stepOf? locals current consequent with
      | some step, _ => (locals.number? consequent).map fun reset => (step, reset)
      | none, some step => (locals.number? alternative).map fun reset => (step, reset)
      | none, none => none
    let low := lesser reset limit
    let high := greater reset limit
    if low < high then some (.bounded step low high) else none

/-! ## Record motions -/

/-- The name of the field of a record that an expression reads. -/
def fieldName? (record : String) (expr : Expr) : Option String :=
  match expr.bare with
  | .member _ owner property _ => if isName owner record then some property.text else none
  | _ => none

/-- The change of a field by an expression that adds to it or subtracts from it. -/
def fieldSum? (locals : Locals) (record field : String) (isSubtraction : Bool)
    (left right : Expr) : Option FieldStep := do
  let sign : Float := if isSubtraction then -1.0 else 1.0
  let other ←
    if fieldName? record left = some field then some right
    else if !isSubtraction ∧ fieldName? record right = some field then some left
    else none
  match locals.number? other with
  | some value => some (.constant (sign * value))
  | none => (fieldName? record other).map fun name => .field name sign

/-- The change of a field by the value it is assigned. A remainder keeps the change of what
it is taken of; a conditional has the change of the alternative, or else of the
consequent. -/
def fieldStep? (locals : Locals) (record field : String) :
    {c : Category} → Node c → Option FieldStep
  | _, .paren _ inner | _, .assertion _ inner => fieldStep? locals record field inner
  | _, .binary _ .add left right => fieldSum? locals record field false left right
  | _, .binary _ .subtract left right => fieldSum? locals record field true left right
  | _, .binary _ .remainder left _ => fieldStep? locals record field left
  | _, .conditional _ _ consequent alternative =>
    match fieldStep? locals record field alternative with
    | some step => some step
    | none => fieldStep? locals record field consequent
  | _, _ => none

/-- The motion of the field that an entry of an object literal assigns. -/
def fieldMotion? (locals : Locals) (record : String) : Node .entry → Option FieldMotion
  | .keyed _ key value =>
    key.keyText?.map fun name => ⟨name, fieldStep? locals record name value⟩
  | _ => none

/-- The motion of a collection that is mapped by a function from record to record. -/
def recordMotion (module : Module) (locals : Locals) (callback : Expr) :
    Except Reason Motion := do
  let some callable := Callable.ofExpr? callback | throw .mapOfNoFunction
  let some record := callable.paramName? 0 | throw .mapWithoutRecord
  let some result := callable.result? | throw .mapWithoutResult
  match result.bare with
  | .object _ entries =>
    let fields := entries.toList.filterMap (fieldMotion? locals record)
    if fields.isEmpty then throw .noFields else return .records fields
  | _ => throw (.mapToNoRecord (snippet (module.text result.span)))

/-! ## Updates -/

/-- The motion of a call: of two arguments to `Math.min` or `Math.max`, of a sine or
cosine. -/
def callMotion? (locals : Locals) (current : String) (callee : Expr) (arguments : List Expr) :
    Option Motion :=
  match callee.dotted?, arguments with
  | some "Math.sin", _ | some "Math.cos", _ => some (.oscillate 1.0)
  | some "Math.min", [first, second] =>
    clamp? locals current true first second <|> clamp? locals current true second first
  | some "Math.max", [first, second] =>
    clamp? locals current false first second <|> clamp? locals current false second first
  | _, _ => none

/-- Whether a callee is the `map` of the current value. -/
def mapsCurrent (current : String) (callee : Expr) : Bool :=
  match callee with
  | .member _ owner property _ => property.text == "map" && isName owner current
  | _ => false

/-- Whether a callee with some number of arguments is one that `callMotion?` judges. -/
def isJudgedCall (callee : Expr) (count : Nat) : Bool :=
  match callee.dotted? with
  | some name =>
    ["Math.sin", "Math.cos"].contains name || (["Math.min", "Math.max"].contains name && count == 2)
  | none => false

/-- The motion of a form of expression that is no mere sum. -/
def formMotion? (locals : Locals) (current : String) (expr : Expr) : Option Motion :=
  match expr with
  | .binary _ .remainder left right => do
    let step ← stepOf? locals current left
    let modulus ← locals.number? right
    if modulus == 0.0 then none else some (.wrap step modulus)
  | .binary _ .multiply left right =>
    if isTrigonometric left then (locals.number? right).map .oscillate
    else if isTrigonometric right then (locals.number? left).map .oscillate
    else none
  | .conditional _ test consequent alternative =>
    conditionalMotion? locals current test consequent alternative
  | .unary _ .not operand => if isName operand current then some .toggle else none
  | .call _ callee arguments _ => callMotion? locals current callee arguments.toList
  | _ => none

/-- The motion of an expression for the next value. -/
def motionOf (module : Module) (locals : Locals) (current : String) (expr : Expr) :
    Except Reason Motion := do
  let next := expr.bare
  if let some step := stepOf? locals current next then
    return .linear step
  if let some (callee, arguments) := call? next then
    if !isJudgedCall callee arguments.length && mapsCurrent current callee then
      match arguments with
      | [] => throw .mapWithoutCallback
      | callback :: _ => return ← recordMotion module locals callback
  match formMotion? locals current next with
  | some motion => return motion
  | none => throw (.unrecognised (snippet (module.text next.span)))

/-- The motion of an update: the argument of a setter, for the state of a given name. -/
def motionOfUpdate (module : Module) (locals : Locals) (name : String) (update : Expr) :
    Except Reason Motion := do
  match Callable.ofExpr? update with
  | none => motionOf module locals name update
  | some callable =>
    let some param := callable.paramName? 0 | throw .unnamedParam
    let some result := callable.result? | throw .noResult
    motionOf module locals param result

end StopMotion.State
