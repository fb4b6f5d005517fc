import StopMotion.Syntax.Grammar.Type
import StopMotion.Syntax.Target

/-!
# Keys and binding patterns

The names on the left of declarations and in parameter lists: a name, or an array or
object pattern with defaults and rests inside.
-/

namespace StopMotion.Syntax

namespace Rules

open Parse

/-- A property key of an object, pattern or class. -/
def key (rules : Rules) : Parse Key := do
  let current ← token
  match current.kind with
  | .word text =>
    pass
    if isPrivate text then
      return .keyPrivate ⟨text, current.span⟩
    else
      return .keyName ⟨text, current.span⟩
  | .string value =>
    pass
    return .keyString current.span value
  | .number value =>
    pass
    return .keyNumber current.span value
  | .punct .openBracket =>
    pass
    let value ← rules.assignment false
    let _ ← expect .closeBracket
    return .keyComputed value
  | _ => unexpected .propertyName

/-- Elements of an array with holes among them, up to the closing bracket. -/
def elements {α : Type} (item : Parse α) : Parse (List (Option α)) :=
  many (eat .closeBracket) do
    if ← eat .comma then
      return none
    else
      let value ← item
      unless ← at? .closeBracket do
        let _ ← expect .comma
      return some value

/-- A sequence of optional nodes. -/
def optionalNodes {c : Category} (nodes : List (Option (Node c))) : Node (.list (.option c)) :=
  .ofList (nodes.map .ofOption)

/-- A pattern with the default value behind it, if there is one. -/
def withDefault (rules : Rules) (start : Nat) (target : Pattern) : Parse Pattern := do
  if ← eat .assign then
    let value ← rules.assignment false
    return .bindDefault (← spanFrom start) target value
  else
    return target

/-- A pattern that may have a default value. -/
def targetWithDefault (rules : Rules) : Parse Pattern := do
  let start ← here
  let target ← rules.target
  rules.withDefault start target

/-- An element of an array pattern. -/
def arrayTarget (rules : Rules) : Parse Pattern := do
  let start ← here
  if ← eat .ellipsis then
    let target ← rules.target
    return .bindRest (← spanFrom start) target
  else
    rules.targetWithDefault

/-- An entry of an object pattern. A key that is a plain name binds that name. -/
def objectTarget (rules : Rules) : Parse (Node .patternEntry) := do
  if ← eat .ellipsis then
    return .boundRest (← rules.target)
  else
    let start ← here
    let key ← rules.key
    if ← eat .colon then
      return .boundKey key (← rules.targetWithDefault)
    else
      match key with
      | .keyName found =>
        return .boundKey key (← rules.withDefault start (.bindName found.span found))
      | _ => unexpected (.punct .colon)

/-- A single name as a pattern. Whatever keeps it from being read is reported as a missing
pattern. -/
def nameTarget : Parse Pattern := fun state =>
  match bindingName state with
  | .ok (found, after) => .ok (.bindName found.span found, after)
  | .error _ => unexpected .bindingPattern state

/-- A pattern without a default value. -/
def bindingTarget (rules : Rules) : Parse Pattern := do
  let start ← here
  if ← eat .openBracket then
    let items ← elements rules.arrayTarget
    return .bindArray (← spanFrom start) (optionalNodes items)
  else if ← eat .openBrace then
    let entries ← commaList .closeBrace rules.objectTarget
    return .bindObject (← spanFrom start) (.ofList entries)
  else
    nameTarget

end Rules

end StopMotion.Syntax
