import StopMotion.Document
import StopMotion.Number.Count

/-!
# Reading documents

The strict grammar of JSON: one value with blanks around it. What is not exactly that is
refused without a reason, for no reason is ever shown.
-/

namespace StopMotion.Document

/-- A blank between the parts of a document. -/
def isBlank (c : Char) : Bool :=
  c == ' ' || c == '\n' || c == '\t' || c == '\r'

/-- A text behind its blanks. -/
def skipBlanks (text : List Char) : List Char := text.dropWhile isBlank

/-- What a reader takes from a text, and the rest. -/
abbrev Read (α : Type) := List Char → Option (α × List Char)

/-! ## Numbers -/

/-- The digits at the start of a text. -/
def digits (text : List Char) : List Char × List Char :=
  (text.takeWhile Char.isDigit, text.dropWhile Char.isDigit)

/-- The text behind the digits that must come. -/
def skipDigits? (text : List Char) : Option (List Char) :=
  match digits text with
  | ([], _) => none
  | (_, rest) => some rest

/-- The text behind an exponent, whether there is one or not. -/
def skipExponent? : List Char → Option (List Char)
  | c :: rest =>
    if c == 'e' || c == 'E' then
      match rest with
      | '+' :: rest | '-' :: rest => skipDigits? rest
      | _ => skipDigits? rest
    else some (c :: rest)
  | [] => some []

/-- The text behind a fraction and an exponent, whether there are any or not. -/
def skipFraction? : List Char → Option (List Char)
  | '.' :: rest => (skipDigits? rest).bind skipExponent?
  | text => skipExponent? text

/-- A number that begins with a digit. Only zero begins with the digit zero. -/
def readNumber : Read Document := fun text =>
  match digits text with
  | ([], _) => none
  | (first :: more, rest) =>
    if first == '0' && !more.isEmpty then none
    else
      (skipFraction? rest).map fun behind =>
        if behind.length == rest.length then (natural (Number.ofDigits (first :: more)), behind)
        else (otherNumber, behind)

/-! ## Strings -/

/-- The value of a hexadecimal digit. -/
def hexValue? (c : Char) : Option Nat :=
  if c.isDigit then some (c.toNat - 48)
  else if 'a' ≤ c ∧ c ≤ 'f' then some (c.toNat - 87)
  else if 'A' ≤ c ∧ c ≤ 'F' then some (c.toNat - 55)
  else none

/-- The unit that four hexadecimal digits spell. -/
def readUnit : Read Nat
  | a :: b :: c :: d :: rest => do
    let (a, b, c, d) := (← hexValue? a, ← hexValue? b, ← hexValue? c, ← hexValue? d)
    return (((a * 16 + b) * 16 + c) * 16 + d, rest)
  | _ => none

/-- The character of an escape in units. A unit of the first half of a pair needs one of the
second half behind it. -/
def readEscapedUnit : Read Char := fun text => do
  let (unit, rest) ← readUnit text
  if 0xD800 ≤ unit ∧ unit < 0xDC00 then
    match rest with
    | '\\' :: 'u' :: rest =>
      let (second, rest) ← readUnit rest
      if 0xDC00 ≤ second ∧ second < 0xE000 then
        return (Char.ofNat (0x10000 + (unit - 0xD800) * 0x400 + (second - 0xDC00)), rest)
      else none
    | _ => none
  else if 0xDC00 ≤ unit ∧ unit < 0xE000 then none
  else return (Char.ofNat unit, rest)

/-- The character of an escape behind its backslash. -/
def readEscape : Read Char
  | '"' :: rest => some ('"', rest)
  | '\\' :: rest => some ('\\', rest)
  | '/' :: rest => some ('/', rest)
  | 'b' :: rest => some ('\x08', rest)
  | 'f' :: rest => some ('\x0c', rest)
  | 'n' :: rest => some ('\n', rest)
  | 'r' :: rest => some ('\r', rest)
  | 't' :: rest => some ('\t', rest)
  | 'u' :: rest => readEscapedUnit rest
  | _ => none

/-- The rest of a string behind its opening quote. A character takes at least one of the text,
so `fuel` of its length is enough. -/
def readString : (fuel : Nat) → Read (List Char)
  | 0, _ => none
  | fuel + 1, text =>
    match text with
    | [] => none
    | '"' :: rest => some ([], rest)
    | '\\' :: rest => do
      let (c, rest) ← readEscape rest
      let (more, rest) ← readString fuel rest
      return (c :: more, rest)
    | c :: rest =>
      if c.toNat < 32 then none
      else (readString fuel rest).map fun (more, rest) => (c :: more, rest)

/-! ## Values -/

/-- The text behind a word that it must begin with. -/
def skipWord? : List Char → List Char → Option (List Char)
  | [], text => some text
  | c :: word, d :: text => if c = d then skipWord? word text else none
  | _ :: _, [] => none

/-- The key of a field with the colon behind it. -/
def readKey : Read String := fun text =>
  match skipBlanks text with
  | '"' :: rest => do
    let (key, rest) ← readString (rest.length + 1) rest
    match skipBlanks rest with
    | ':' :: rest => return (String.ofList key, rest)
    | _ => none
  | _ => none

mutual

/-- A value with blanks before it. Every value, item and field takes at least one character, so
`fuel` of twice the length is enough. -/
def readValue : (fuel : Nat) → Read Document
  | 0, _ => none
  | fuel + 1, text =>
    match skipBlanks text with
    | 'n' :: rest => (skipWord? ['u', 'l', 'l'] rest).map fun rest => (null, rest)
    | 't' :: rest => (skipWord? ['r', 'u', 'e'] rest).map fun rest => (boolean true, rest)
    | 'f' :: rest =>
      (skipWord? ['a', 'l', 's', 'e'] rest).map fun rest => (boolean false, rest)
    | '"' :: rest =>
      (readString (rest.length + 1) rest).map fun (value, rest) =>
        (string (String.ofList value), rest)
    | '-' :: rest => (readNumber rest).map fun (_, rest) => (otherNumber, rest)
    | '[' :: rest =>
      match skipBlanks rest with
      | ']' :: rest => some (array [], rest)
      | _ => (readItems fuel rest).map fun (items, rest) => (array items, rest)
    | '\x7b' :: rest =>
      match skipBlanks rest with
      | '\x7d' :: rest => some (object [], rest)
      | _ => (readFields fuel rest).map fun (fields, rest) => (object fields, rest)
    | text => readNumber text

/-- The items of an array up to its closing bracket. -/
def readItems : (fuel : Nat) → Read (List Document)
  | 0, _ => none
  | fuel + 1, text => do
    let (item, rest) ← readValue fuel text
    match skipBlanks rest with
    | ',' :: rest =>
      let (more, rest) ← readItems fuel rest
      return (item :: more, rest)
    | ']' :: rest => return ([item], rest)
    | _ => none

/-- The fields of an object up to its closing brace. -/
def readFields : (fuel : Nat) → Read (List (String × Document))
  | 0, _ => none
  | fuel + 1, text => do
    let (key, rest) ← readKey text
    let (value, rest) ← readValue fuel rest
    match skipBlanks rest with
    | ',' :: rest =>
      let (more, rest) ← readFields fuel rest
      return ((key, value) :: more, rest)
    | '\x7d' :: rest => return ([(key, value)], rest)
    | _ => none

end

/-- The document that a text is. -/
def read? (text : List Char) : Option Document := do
  let (value, rest) ← readValue (2 * text.length + 2) text
  if (skipBlanks rest).isEmpty then some value else none

end StopMotion.Document
