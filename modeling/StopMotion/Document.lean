/-!
# Documents

Values of JSON documents. Counts are natural numbers; any other number is kept apart
without its value, for nothing here takes one. The fields of an object stay in the order
in which they are written.
-/

namespace StopMotion

/-- A value of a document. -/
inductive Document where
  | null
  | boolean (value : Bool)
  | natural (value : Nat)
  /-- A number with a sign, a fraction or an exponent. -/
  | otherNumber
  | string (value : String)
  | array (items : List Document)
  | object (fields : List (String × Document))

namespace Document

/-- Strings as a document. -/
def strings (values : List String) : Document :=
  array (values.map string)

end Document

end StopMotion
