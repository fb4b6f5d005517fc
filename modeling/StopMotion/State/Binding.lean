import StopMotion.State.Collection

/-!
# State bindings

A piece of state of a component, and the rule by which its value changes over time.
-/

namespace StopMotion.State

/-- The shape of a value. -/
inductive Kind where
  | scalar
  | collection
  | records
  deriving DecidableEq, Repr

/-- The kind of a recognised collection. -/
def Collection.kind (collection : Collection) : Kind :=
  match collection.element with
  | .record _ => .records
  | .value _ => .collection

/-- Where a derived value comes from: the argument of a setter in an effect, the result of a
memo's callback, or a callback with a body of statements, which is called. -/
inductive DerivedSite where
  | effect
  | memo
  | memoBody
  deriving DecidableEq, Repr

/-- How a binding changes over time. -/
inductive Rule where
  /-- A timer's callback changes it at every tick. -/
  | periodic (intervalMs : Float) (motion : Motion)
  /-- Only the handlers of events change it. -/
  | handler (events : List String)
  /-- It is computed from other bindings. -/
  | derived (expr : Slice) (site : DerivedSite)
  /-- Nothing changes it. -/
  | constant
  /-- No rule is recognised. -/
  | unclassified (reason : Reason)
  deriving Repr

/-- The short name of a rule. -/
def Rule.name : Rule → String
  | periodic .. => "periodic-timer"
  | handler _ => "event-handler"
  | derived .. => "derived"
  | constant => "constant"
  | unclassified _ => "unclassified"

/-- A piece of state. `initial` is the first value as written; `span` is the declarator. -/
structure Binding where
  name : String
  setter : Option String
  component : Option String
  kind : Kind
  initial : Slice
  rule : Rule
  dependsOn : List String
  span : Span
  collection : Option Collection
  notes : List String
  deriving Repr

/-- What is assumed where a source does not say it. -/
structure Timing where
  /-- The interval of a timer whose delay is no positive number. -/
  defaultIntervalMs : Float := 16.0
  /-- The interval of an animation frame. -/
  frameIntervalMs : Float := 1000.0 / 60.0

end StopMotion.State
