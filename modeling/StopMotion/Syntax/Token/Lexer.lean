import StopMotion.Syntax.Error
import StopMotion.Text.CharClass
import StopMotion.Text.Cursor

/-!
# Reading tokens

A token is read on demand from a cursor. The reader of a module says for every token
which of the ways of reading applies: an ordinary token, with or without regular
expressions, a template chunk, the text between JSX tags, or a token inside a tag.
Each way returns the token and the cursor behind it.
-/

namespace StopMotion.Syntax

/-- What a way of reading answers. -/
abbrev Reading (α : Type) := Except SyntaxError α

/-- Refuses the source at a span. -/
def refuse {α : Type} (start stop : Nat) (cause : Cause) : Reading α :=
  .error ⟨⟨start, stop⟩, cause⟩

/-! ## Character classes -/

/-- A character that can begin a name. -/
def startsName (c : Char) : Bool :=
  c == '_' || c == '$' || Text.isAlphabetic c

/-- A character that can continue a name. -/
def continuesName (c : Char) : Bool :=
  c == '_' || c == '$' || Text.isAlphabetic c || Text.isNumeric c ||
    c.toNat == 0x200c || c.toNat == 0x200d

/-- A character that can continue a name inside a JSX tag. -/
def continuesTagName (c : Char) : Bool :=
  continuesName c || c == '-'

/-- A character that ends a line. -/
def endsLine (c : Char) : Bool :=
  c == '\n' || c == '\r' || c.toNat == 0x2028 || c.toNat == 0x2029

/-- A digit of a radix up to sixteen. -/
def isDigitOf (radix : Nat) (c : Char) : Bool :=
  let value :=
    if c.isDigit then c.toNat - '0'.toNat
    else if 'a' ≤ c ∧ c ≤ 'f' then c.toNat - 'a'.toNat + 10
    else if 'A' ≤ c ∧ c ≤ 'F' then c.toNat - 'A'.toNat + 10
    else 16
  value < radix

/-- The value of a digit. -/
def digitValue (c : Char) : Nat :=
  if c.isDigit then c.toNat - '0'.toNat
  else if 'a' ≤ c ∧ c ≤ 'f' then c.toNat - 'a'.toNat + 10
  else c.toNat - 'A'.toNat + 10

/-- The number spelled by digits of a radix. -/
def ofDigits (radix : Nat) (digits : List Char) : Nat :=
  digits.foldl (fun value digit => radix * value + digitValue digit) 0

/-! ## Blanks and comments -/

/-- Where a skip over blanks and comments stands. `commentOpening` is before the star that
opens a block comment, `commentClosing` before the slash that closes one. -/
inductive Trivia where
  | blank
  | lineComment
  | commentOpening (start : Nat)
  | blockComment (start : Nat)
  | commentClosing

/-- Skips blanks, byte order marks and comments, and says whether a line ended among them.
A line comment ends at a line feed only, and only a line feed counts inside a block
comment. -/
def skipTrivia (state : Trivia) (newline : Bool) (pos : Nat) :
    List Char → Reading (Bool × Cursor)
  | [] =>
    match state with
    | .blockComment start => refuse start pos .unterminatedComment
    | _ => .ok (newline, ⟨[], pos⟩)
  | c :: rest =>
    let behind := pos + c.utf8Size
    match state with
    | .lineComment =>
      if c = '\n' then skipTrivia .blank true behind rest
      else skipTrivia .lineComment newline behind rest
    | .commentOpening start => skipTrivia (.blockComment start) newline behind rest
    | .blockComment start =>
      if c = '*' ∧ rest.head? = some '/' then skipTrivia .commentClosing newline behind rest
      else skipTrivia (.blockComment start) (newline || c == '\n') behind rest
    | .commentClosing => skipTrivia .blank newline behind rest
    | .blank =>
      if endsLine c then skipTrivia .blank true behind rest
      else if Text.isBlank c || c.toNat == 0xfeff then skipTrivia .blank newline behind rest
      else if c = '/' ∧ rest.head? = some '/' then skipTrivia .lineComment newline behind rest
      else if c = '/' ∧ rest.head? = some '*' then
        skipTrivia (.commentOpening pos) newline behind rest
      else .ok (newline, ⟨c :: rest, pos⟩)

/-! ## Numbers -/

/-- The radix of a letter behind a leading zero. -/
def radixOf? (letter : Char) : Option Nat :=
  if letter = 'x' ∨ letter = 'X' then some 16
  else if letter = 'o' ∨ letter = 'O' then some 8
  else if letter = 'b' ∨ letter = 'B' then some 2
  else none

/-- The place behind the suffix of a big integer, if there is one. -/
def skipBigSuffix (cursor : Cursor) : Cursor :=
  if cursor.rest.head? = some 'n' then cursor.skip 1 else cursor

/-- A number in a radix other than ten, from behind its prefix. It must fit in 64 bits. -/
def scanRadix (radix start : Nat) (cursor : Cursor) : Reading (Float × Cursor) :=
  let (spelling, cursor) := cursor.span fun c => isDigitOf radix c || c == '_'
  let digits := spelling.filter (· != '_')
  let cursor := skipBigSuffix cursor
  let value := ofDigits radix digits
  if digits.isEmpty || Nat.pow 2 64 ≤ value then refuse start cursor.pos .invalidNumber
  else .ok (Float.ofNat value, cursor)

/-- Digits with separators among them. -/
def scanDigits (cursor : Cursor) : List Char × Cursor :=
  cursor.span fun c => c.isDigit || c == '_'

/-- The exponent of a decimal number, with its mark. -/
def scanExponent (cursor : Cursor) : Reading (List Char × Cursor) :=
  match cursor.rest with
  | mark :: rest =>
    if mark = 'e' ∨ mark = 'E' then
      let sign := rest.takeWhile (fun c => c == '+' || c == '-') |>.take 1
      let (digits, after) := scanDigits (cursor.skip (1 + sign.length))
      if digits.isEmpty then refuse cursor.pos cursor.pos .invalidExponent
      else .ok (mark :: sign ++ digits, after)
    else .ok ([], cursor)
  | [] => .ok ([], cursor)

/-- A decimal number. -/
def scanDecimal (cursor : Cursor) : Reading (Float × Cursor) := do
  let start := cursor.pos
  let (whole, cursor) := scanDigits cursor
  let (fraction, cursor) :=
    match cursor.rest with
    | '.' :: _ =>
      let (digits, cursor) := scanDigits (cursor.skip 1)
      ('.' :: digits, cursor)
    | _ => ([], cursor)
  let (exponent, cursor) ← scanExponent cursor
  let cursor := skipBigSuffix cursor
  if cursor.rest.head?.any startsName then
    refuse cursor.pos cursor.pos .nameAfterNumber
  else
    match Number.read? ((whole ++ fraction ++ exponent).filter (· != '_')) with
    | some value => .ok (value, cursor)
    | none => refuse start cursor.pos .invalidNumber

/-- A number. -/
def scanNumber (cursor : Cursor) : Reading (Float × Cursor) :=
  match cursor.rest with
  | '0' :: letter :: _ =>
    match radixOf? letter with
    | some radix => scanRadix radix cursor.pos (cursor.skip 2)
    | none => scanDecimal cursor
  | _ => scanDecimal cursor

/-! ## Escapes and text -/

/-- A decoded escape sequence: its character, if it stands for one, and how many characters
behind the backslash it takes. -/
structure Escape where
  decoded : Option Char
  taken : Nat

/-- The character of a code point; the replacement character where there is none. -/
def charOf (code : Nat) : Char :=
  if code < 0xd800 ∨ (0xdfff < code ∧ code < 0x110000) then Char.ofNat code else '\ufffd'

/-- The number spelled by hexadecimal digits, which may have a plus sign before them and
must fit in 32 bits. -/
def hexNumber? (spelling : List Char) : Option Nat :=
  let digits := match spelling with
    | '+' :: digits => digits
    | digits => digits
  if digits.isEmpty || !digits.all (isDigitOf 16) then none
  else
    let value := ofDigits 16 digits
    if value < Nat.pow 2 32 then some value else none

/-- Reads the escape sequence behind a backslash at `pos - 1`, in the literal that begins at
`start`. A sequence names a character, continues the line, or is a character on its own. -/
def readEscape (start pos : Nat) : List Char → Reading Escape
  | [] => refuse start pos .unterminatedEscape
  | c :: rest =>
    let behind := pos + c.utf8Size
    if c = 'n' then .ok ⟨some '\n', 1⟩
    else if c = 't' then .ok ⟨some '\t', 1⟩
    else if c = 'r' then .ok ⟨some '\r', 1⟩
    else if c = 'b' then .ok ⟨some '\x08', 1⟩
    else if c = 'f' then .ok ⟨some '\x0c', 1⟩
    else if c = 'v' then .ok ⟨some '\x0b', 1⟩
    else if c = '0' then .ok ⟨some '\x00', 1⟩
    else if c = '\r' then .ok ⟨none, if rest.head? = some '\n' then 2 else 1⟩
    else if endsLine c then .ok ⟨none, 1⟩
    else if c = 'x' then
      match Text.cut? rest 0 2 with
      | none => refuse behind behind .invalidHexEscape
      | some spelling =>
        match hexNumber? spelling with
        | none => refuse behind behind .invalidHexEscape
        | some code => .ok ⟨some (charOf code), 1 + spelling.length⟩
    else if c = 'u' then
      match rest with
      | '\x7b' :: rest' =>
        let spelling := rest'.takeWhile (· != '\x7d')
        if spelling.length = rest'.length then refuse behind behind .invalidUnicodeEscape
        else
          match hexNumber? spelling with
          | none =>
            let close := behind + 2 + Text.size spelling
            refuse close close .invalidUnicodeEscape
          | some code => .ok ⟨some (charOf code), spelling.length + 3⟩
      | _ =>
        match Text.cut? rest 0 4 with
        | none => refuse (behind + 4) (behind + 4) .invalidUnicodeEscape
        | some spelling =>
          match hexNumber? spelling with
          | none => refuse (behind + 4) (behind + 4) .invalidUnicodeEscape
          | some code => .ok ⟨some (charOf code), 1 + spelling.length⟩
    else .ok ⟨some c, 1⟩

/-- The rest of a string literal that began at `start`, behind its opening quote. `skip`
counts the characters of an escape that are still to be passed over; `read` holds what was
decoded, the last character first. -/
def scanString (quote : Char) (start : Nat) (skip pos : Nat) (read : List Char) :
    List Char → Reading (String × Cursor)
  | [] => refuse start pos .unterminatedString
  | c :: rest =>
    match skip with
    | skip + 1 => scanString quote start skip (pos + c.utf8Size) read rest
    | 0 =>
      if c = '\n' ∨ c = '\r' then refuse start pos .unterminatedString
      else if c = '\\' then
        match readEscape start (pos + 1) rest with
        | .error error => .error error
        | .ok escape =>
          scanString quote start escape.taken (pos + 1) (escape.decoded.toList ++ read) rest
      else if c = quote then .ok (String.ofList read.reverse, ⟨rest, pos + c.utf8Size⟩)
      else scanString quote start 0 (pos + c.utf8Size) (c :: read) rest

/-- The rest of a template chunk that began at `start`, behind its backtick or brace: its
text and whether it is the last one. -/
def scanChunk (start : Nat) (skip pos : Nat) (read : List Char) :
    List Char → Reading ((String × Bool) × Cursor)
  | [] => refuse start pos .unterminatedTemplate
  | c :: rest =>
    match skip with
    | skip + 1 => scanChunk start skip (pos + c.utf8Size) read rest
    | 0 =>
      if c = '`' then .ok ((String.ofList read.reverse, true), ⟨rest, pos + 1⟩)
      else if c = '$' ∧ rest.head? = some '\x7b' then
        .ok ((String.ofList read.reverse, false), ⟨rest.drop 1, pos + 2⟩)
      else if c = '\\' then
        match readEscape start (pos + 1) rest with
        | .error error => .error error
        | .ok escape =>
          scanChunk start escape.taken (pos + 1) (escape.decoded.toList ++ read) rest
      else scanChunk start 0 (pos + c.utf8Size) (c :: read) rest

/-! ## Regular expressions -/

/-- The rest of a regular expression that began at `start`, behind its slash, up to its
closing slash. A slash inside a class does not close it. -/
def scanRegex (start : Nat) (escaped inClass : Bool) (pos : Nat) :
    List Char → Reading Cursor
  | [] => refuse start pos .unterminatedRegex
  | c :: rest =>
    if escaped then scanRegex start false inClass (pos + c.utf8Size) rest
    else if c = '\n' ∨ c = '\r' then refuse start pos .unterminatedRegex
    else if c = '\\' then scanRegex start true inClass (pos + 1) rest
    else if c = '[' then scanRegex start false true (pos + 1) rest
    else if c = ']' then scanRegex start false false (pos + 1) rest
    else if c = '/' ∧ !inClass then .ok ⟨rest, pos + 1⟩
    else scanRegex start false inClass (pos + c.utf8Size) rest

/-! ## Tokens -/

/-- A template chunk behind the backtick or closing brace at `start`. -/
def readChunk (start : Nat) (afterNewline : Bool) (cursor : Cursor) :
    Reading (Token × Cursor) := do
  let ((chunk, isLast), cursor) ← scanChunk start 0 cursor.pos [] cursor.rest
  .ok (⟨.template chunk isLast, cursor.since start, afterNewline⟩, cursor)

/-- The kind of the token that begins at a cursor with the character `c`, and the cursor
behind it. -/
def readKind (regexMayFollow : Bool) (cursor : Cursor) (c : Char) (rest : List Char) :
    Reading (TokenKind × Cursor) := do
  let start := cursor.pos
  if startsName c then
    let (name, cursor) := cursor.span continuesName
    .ok (.word (String.ofList name), cursor)
  else if c = '#' ∧ rest.head?.any startsName then
    let (name, cursor) := (cursor.skip 1).span continuesName
    .ok (.word (String.ofList ('#' :: name)), cursor)
  else if c.isDigit ∨ (c = '.' ∧ rest.head?.any Char.isDigit) then
    let (value, cursor) ← scanNumber cursor
    .ok (.number value, cursor)
  else if c = '\'' ∨ c = '"' then
    let (value, cursor) ← scanString c start 0 (start + 1) [] rest
    .ok (.string value, cursor)
  else if c = '`' then
    let ((chunk, isLast), cursor) ← scanChunk start 0 (start + 1) [] rest
    .ok (.template chunk isLast, cursor)
  else if c = '/' ∧ regexMayFollow then
    let cursor ← scanRegex start false false (start + 1) rest
    .ok (.regex, (cursor.span continuesName).2)
  else
    match Punct.first? Punct.all (c :: rest) with
    | none => refuse start (start + c.utf8Size) (.unexpectedCharacter c)
    | some .optionalDot =>
      if (rest.drop 1).head?.any Char.isDigit then .ok (.punct .question, cursor.skip 1)
      else .ok (.punct .optionalDot, cursor.skip 2)
    | some found => .ok (.punct found, cursor.skip found.text.length)

/-- The next ordinary token. `regexMayFollow` says whether an operand may begin here. -/
def readToken (regexMayFollow : Bool) (cursor : Cursor) : Reading (Token × Cursor) := do
  let (afterNewline, cursor) ← skipTrivia .blank false cursor.pos cursor.rest
  match cursor.rest with
  | [] => .ok (⟨.endOfInput, cursor.since cursor.pos, afterNewline⟩, cursor)
  | c :: rest =>
    let (kind, after) ← readKind regexMayFollow cursor c rest
    .ok (⟨kind, after.since cursor.pos, afterNewline⟩, after)

/-! ## Inside JSX -/

/-- The text up to the next tag or container; none if there is no text. -/
def readText (cursor : Cursor) : Option (String × Span) × Cursor :=
  let (text, after) := cursor.span fun c => c != '<' && c != '\x7b'
  if text.isEmpty then (none, cursor)
  else (some (String.ofList text, after.since cursor.pos), after)

/-- The kind of the tag token that begins at a cursor with the character `c`. Names may
contain hyphens; strings have no escapes and may span lines. -/
def readTagKind (cursor : Cursor) (c : Char) (rest : List Char) : Reading (TokenKind × Cursor) :=
  if startsName c then
    let (name, cursor) := cursor.span continuesTagName
    .ok (.word (String.ofList name), cursor)
  else if c = '\'' ∨ c = '"' then
    let (text, after) := (cursor.skip 1).span (· != c)
    if after.rest.isEmpty then refuse cursor.pos after.pos .unterminatedAttribute
    else .ok (.string (String.ofList text), after.skip 1)
  else
    match Punct.first? Punct.inTag (c :: rest) with
    | some found => .ok (.punct found, cursor.skip found.text.length)
    | none => refuse cursor.pos (cursor.pos + c.utf8Size) (.unexpectedTagCharacter c)

/-- The next token inside a JSX tag. -/
def readTagToken (cursor : Cursor) : Reading (Token × Cursor) := do
  let (afterNewline, cursor) ← skipTrivia .blank false cursor.pos cursor.rest
  match cursor.rest with
  | [] => .ok (⟨.endOfInput, cursor.since cursor.pos, afterNewline⟩, cursor)
  | c :: rest =>
    let (kind, after) ← readTagKind cursor c rest
    .ok (⟨kind, after.since cursor.pos, afterNewline⟩, after)

end StopMotion.Syntax
