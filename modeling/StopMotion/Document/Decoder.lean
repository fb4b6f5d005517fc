import StopMotion.Document

/-!
# Taking documents apart

Readers of strings, counts, choices and records from documents. A record is an object
with known keys, none of them twice, or an array of its values in order; a choice is a
word, or an object of the word and nothing.
-/

namespace StopMotion.Document

/-- What a document says, if it says it in the form that is asked for. -/
abbrev Decoder (α : Type) := Document → Option α

/-- A string. -/
def string? : Decoder String
  | string value => some value
  | _ => none

/-- A boolean. -/
def boolean? : Decoder Bool
  | boolean value => some value
  | _ => none

/-- A count of at most `greatest`. -/
def natural? (greatest : Nat) : Decoder Nat
  | natural value => if value ≤ greatest then some value else none
  | _ => none

/-- A list of values of one form. -/
def list? {α : Type} (item? : Decoder α) : Decoder (List α)
  | array items => items.mapM item?
  | _ => none

/-- A value, or null for none. -/
def option? {α : Type} (value? : Decoder α) : Decoder (Option α)
  | null => some none
  | document => (value? document).map some

/-- One of some words. -/
def choice? {α : Type} (words : List (String × α)) : Decoder α
  | string word => words.lookup word
  | object [(word, null)] => words.lookup word
  | _ => none

/-- A record with a value for some of its keys. -/
structure Record where
  fields : List (String × Document)

/-- Whether no key occurs twice. -/
def distinct : List (String × Document) → Bool
  | [] => true
  | (key, _) :: rest => !rest.any (fun field => field.1 == key) && distinct rest

/-- A record with some keys. -/
def record? (keys : List String) : Decoder Record
  | object fields =>
    if fields.all (fun field => keys.contains field.1) && distinct fields then some ⟨fields⟩
    else none
  | array values => if values.length ≤ keys.length then some ⟨keys.zip values⟩ else none
  | _ => none

/-- The value for a key that must be given. -/
def Record.get? {α : Type} (record : Record) (key : String) (value? : Decoder α) : Option α :=
  (record.fields.lookup key).bind value?

/-- The value for a key, or another if it is not given. -/
def Record.getD? {α : Type} (record : Record) (key : String) (value? : Decoder α)
    (default : α) : Option α :=
  match record.fields.lookup key with
  | some document => value? document
  | none => some default

end StopMotion.Document
