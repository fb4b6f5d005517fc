import StopMotion.Document
import StopMotion.Text.Quoted

/-!
# Printing documents

The text of a document over several lines, two blanks for each level. An array or object
without members is written on one line.
-/

namespace StopMotion.Document

/-- A line break and the blanks of a level. -/
def newLine (level : Nat) : String :=
  "\n" ++ String.ofList (List.replicate (2 * level) ' ')

mutual

/-- The text of a document inside `level` others. -/
def textAt (level : Nat) : Document → String
  | null => "null"
  | boolean value => if value then "true" else "false"
  | natural value => toString value
  | otherNumber => "0.0"
  | string value => Text.quoted value
  | array [] => "[]"
  | array items => "[" ++ itemsAt (level + 1) true items ++ newLine level ++ "]"
  | object [] => "\x7b\x7d"
  | object fields => "\x7b" ++ fieldsAt (level + 1) true fields ++ newLine level ++ "\x7d"

/-- The texts of items, each on its own lines. -/
def itemsAt (level : Nat) (isFirst : Bool) : List Document → String
  | [] => ""
  | item :: rest =>
    (if isFirst then "" else ",") ++ newLine level ++ textAt level item ++
      itemsAt level false rest

/-- The texts of fields, each on its own lines. -/
def fieldsAt (level : Nat) (isFirst : Bool) : List (String × Document) → String
  | [] => ""
  | (key, value) :: rest =>
    (if isFirst then "" else ",") ++ newLine level ++ Text.quoted key ++ ": " ++
      textAt level value ++ fieldsAt level false rest

end

/-- The text of a document. -/
def text (document : Document) : String := document.textAt 0

end StopMotion.Document
