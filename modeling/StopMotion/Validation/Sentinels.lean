import StopMotion.Syntax.Visit
import StopMotion.Validation.Finding

/-!
# Sentinels in texts

The places where `undefined` or `null` becomes a part of a text.
-/

namespace StopMotion.Validation

open StopMotion.Syntax

/-- The sentinel that an expression is. -/
def sentinel? (expr : Expr) : Option Sentinel :=
  match expr.bare with
  | .name _ name => if name.text = "undefined" then some .undefinedValue else none
  | .unary _ .void _ => some .undefinedValue
  | .null _ => some .nullValue
  | _ => none

/-- Whether an expression is a text literal. -/
def isText (expr : Expr) : Bool :=
  match expr.bare with
  | .string .. | .template .. => true
  | _ => false

/-- The sentinel that a sum of two operands makes a part of a text. -/
def concatenated? (left right : Expr) : Option Sentinel :=
  match sentinel? left, sentinel? right with
  | some sentinel, none => if isText right then some sentinel else none
  | none, some sentinel => if isText left then some sentinel else none
  | _, _ => none

/-- The sentinel that an attribute spells out. -/
def attributeConcern? : Node .jsxAttribute → Option Concern
  | .attrString span name value _ =>
    if value = "undefined" then some ⟨span, .attributeText name .undefinedValue⟩
    else if value = "null" then some ⟨span, .attributeText name .nullValue⟩
    else none
  | _ => none

/-- The sentinels that a node itself makes parts of texts. -/
def ownSentinels : {c : Category} → Node c → List Concern
  | _, .template _ _ substitutions =>
    substitutions.toList.filterMap fun expr =>
      (sentinel? expr).map fun sentinel => ⟨expr.span, .interpolated sentinel⟩
  | _, .binary span .add left right =>
    ((concatenated? left right).map fun sentinel => ⟨span, .concatenated sentinel⟩).toList
  | _, .tag _ _ attributes _ => attributes.toList.filterMap attributeConcern?
  | _, _ => []

/-- The sentinels that a module makes parts of texts. -/
def sentinels (module : Module) : List Concern :=
  module.body.flatMap fun stmt => stmt.collect fun node => { found := ownSentinels node }

end StopMotion.Validation
