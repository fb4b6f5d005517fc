import StopMotion.Number.Decimal
import StopMotion.Syntax.Operator
import StopMotion.Text.Slice

/-!
# Tokens

The words, literals and punctuators of a module. A token remembers whether a line
ended before it, because a line end can stand for a semicolon and forbids some
continuations.
-/

namespace StopMotion.Syntax

/-- The punctuators. Those inside a JSX tag are among them. -/
inductive Punct where
  | shiftRightZeroAssign | ellipsis | strictEqual | strictNotEqual | powerAssign
  | shiftLeftAssign | shiftRightAssign | shiftRightZero | andAssign | orAssign | coalesceAssign
  | arrow | equal | notEqual | lessEqual | greaterEqual | and | or | coalesce | optionalDot
  | increment | decrement | addAssign | subtractAssign | multiplyAssign | divideAssign
  | remainderAssign | bitAndAssign | bitOrAssign | bitXorAssign | power | shiftLeft | shiftRight
  | openBrace | closeBrace | openParen | closeParen | openBracket | closeBracket
  | semicolon | comma | less | greater | plus | minus | star | slash | percent
  | ampersand | bar | caret | bang | tilde | question | colon | assign | dot | atSign
  deriving DecidableEq, Repr

namespace Punct

/-- The spelling of a punctuator. -/
def text : Punct → String
  | shiftRightZeroAssign => ">>>=" | ellipsis => "..." | strictEqual => "==="
  | strictNotEqual => "!==" | powerAssign => "**=" | shiftLeftAssign => "<<="
  | shiftRightAssign => ">>=" | shiftRightZero => ">>>" | andAssign => "&&="
  | orAssign => "||=" | coalesceAssign => "??=" | arrow => "=>" | equal => "=="
  | notEqual => "!=" | lessEqual => "<=" | greaterEqual => ">=" | and => "&&" | or => "||"
  | coalesce => "??" | optionalDot => "?." | increment => "++" | decrement => "--"
  | addAssign => "+=" | subtractAssign => "-=" | multiplyAssign => "*=" | divideAssign => "/="
  | remainderAssign => "%=" | bitAndAssign => "&=" | bitOrAssign => "|=" | bitXorAssign => "^="
  | power => "**" | shiftLeft => "<<" | shiftRight => ">>" | openBrace => "\x7b"
  | closeBrace => "\x7d" | openParen => "(" | closeParen => ")" | openBracket => "["
  | closeBracket => "]" | semicolon => ";" | comma => "," | less => "<" | greater => ">"
  | plus => "+" | minus => "-" | star => "*" | slash => "/" | percent => "%"
  | ampersand => "&" | bar => "|" | caret => "^" | bang => "!" | tilde => "~"
  | question => "?" | colon => ":" | assign => "=" | dot => "." | atSign => "@"

/-- All punctuators, a longer one before each of its beginnings, so that the first one
that fits is the longest that fits. -/
def all : List Punct :=
  [shiftRightZeroAssign, ellipsis, strictEqual, strictNotEqual, powerAssign,
    shiftLeftAssign, shiftRightAssign, shiftRightZero, andAssign, orAssign, coalesceAssign,
    arrow, equal, notEqual, lessEqual, greaterEqual, and, or, coalesce, optionalDot,
    increment, decrement, addAssign, subtractAssign, multiplyAssign, divideAssign,
    remainderAssign, bitAndAssign, bitOrAssign, bitXorAssign, power, shiftLeft, shiftRight,
    openBrace, closeBrace, openParen, closeParen, openBracket, closeBracket,
    semicolon, comma, less, greater, plus, minus, star, slash, percent,
    ampersand, bar, caret, bang, tilde, question, colon, assign, dot, atSign]

/-- The punctuators of a JSX tag: single characters, so that no operator swallows the end
of a tag, and the three dots of a spread. -/
def inTag : List Punct :=
  [ellipsis, less, greater, slash, assign, openBrace, closeBrace, colon, dot]

/-- The first of some punctuators that the text begins with. -/
def first? (candidates : List Punct) (text : List Char) : Option Punct :=
  candidates.find? fun punct => punct.text.toList.isPrefixOf text

/-- The unary operator of a punctuator. -/
def unary? : Punct → Option UnaryOp
  | bang => some .not
  | tilde => some .complement
  | plus => some .plus
  | minus => some .minus
  | _ => none

/-- The update operator of a punctuator. -/
def update? : Punct → Option UpdateOp
  | increment => some .increment
  | decrement => some .decrement
  | _ => none

/-- The binary operator of a punctuator. -/
def binary? : Punct → Option BinaryOp
  | coalesce => some .coalesce | or => some .or | and => some .and
  | bar => some .bitOr | caret => some .bitXor | ampersand => some .bitAnd
  | equal => some .equal | notEqual => some .notEqual
  | strictEqual => some .strictEqual | strictNotEqual => some .strictNotEqual
  | less => some .less | greater => some .greater
  | lessEqual => some .lessEqual | greaterEqual => some .greaterEqual
  | shiftLeft => some .shiftLeft | shiftRight => some .shiftRight
  | shiftRightZero => some .shiftRightZero
  | plus => some .add | minus => some .subtract
  | star => some .multiply | slash => some .divide | percent => some .remainder
  | power => some .power
  | _ => none

/-- The assignment of a punctuator. -/
def assign? : Punct → Option AssignOp
  | assign => some .assign
  | addAssign => some .add | subtractAssign => some .subtract
  | multiplyAssign => some .multiply | divideAssign => some .divide
  | remainderAssign => some .remainder | powerAssign => some .power
  | shiftLeftAssign => some .shiftLeft | shiftRightAssign => some .shiftRight
  | shiftRightZeroAssign => some .shiftRightZero
  | bitAndAssign => some .bitAnd | bitOrAssign => some .bitOr | bitXorAssign => some .bitXor
  | andAssign => some .and | orAssign => some .or | coalesceAssign => some .coalesce
  | _ => none

/-- What is left of a punctuator when its first character closes a type argument list. -/
def afterClosingAngle? : Punct → Option (Option Punct)
  | greater => some none
  | shiftRight => some (some greater)
  | shiftRightZero => some (some shiftRight)
  | greaterEqual => some (some assign)
  | shiftRightAssign => some (some greaterEqual)
  | shiftRightZeroAssign => some (some shiftRightAssign)
  | _ => none

end Punct

/-- The kinds of token. Words are names and keywords alike; a private name keeps its `#`.
A template token is one chunk of text, from a backtick or closing brace to the next
substitution, or to the closing backtick when it is the last one. -/
inductive TokenKind where
  | word (text : String)
  | number (value : Float)
  | string (value : String)
  | regex
  | template (chunk : String) (isLast : Bool)
  | punct (punct : Punct)
  | endOfInput

namespace TokenKind

/-- How an error message names a token. -/
def describe : TokenKind → String
  | word text => "'" ++ text ++ "'"
  | number value => "number " ++ Number.shortest value
  | string _ => "string literal"
  | regex => "regex literal"
  | template .. => "template literal"
  | punct found => "'" ++ found.text ++ "'"
  | endOfInput => "end of input"

/-- Whether this is the given punctuator. -/
def isPunct (kind : TokenKind) (wanted : Punct) : Bool :=
  match kind with
  | punct found => found == wanted
  | _ => false

/-- Whether this is one of the given punctuators. -/
def isOneOf (kind : TokenKind) (wanted : List Punct) : Bool :=
  match kind with
  | punct found => wanted.contains found
  | _ => false

/-- The word, if this is one. -/
def word? : TokenKind → Option String
  | word text => some text
  | _ => none

/-- Whether this is the given word. -/
def isWord (kind : TokenKind) (wanted : String) : Bool :=
  kind.word? == some wanted

/-- Whether this is a template chunk. -/
def isTemplate : TokenKind → Bool
  | template .. => true
  | _ => false

/-- Whether the input has ended. -/
def isEnd : TokenKind → Bool
  | endOfInput => true
  | _ => false

/-- The words after which an operand follows. -/
def operandWords : List String :=
  ["return", "typeof", "instanceof", "in", "of", "new", "delete", "void", "throw", "case",
    "do", "else", "yield", "await"]

/-- Whether a slash after this token begins a regular expression rather than a division. -/
def regexMayFollow : TokenKind → Bool
  | word text => operandWords.contains text
  | number _ | string _ | regex | endOfInput => false
  | template _ isLast => !isLast
  | punct found =>
    !([Punct.closeParen, .closeBracket, .closeBrace, .increment, .decrement].contains found)

end TokenKind

/-- A token with its span. -/
structure Token where
  kind : TokenKind
  span : Span
  afterNewline : Bool

/-- Words that cannot name a binding. -/
def reservedWords : List String :=
  ["break", "case", "catch", "class", "const", "continue", "debugger", "default", "delete",
    "do", "else", "enum", "export", "extends", "false", "finally", "for", "function", "if",
    "import", "in", "instanceof", "new", "null", "return", "super", "switch", "this", "throw",
    "true", "try", "typeof", "var", "void", "while", "with"]

/-- Whether a word is reserved. -/
def isReserved (word : String) : Bool :=
  reservedWords.contains word

/-- Whether a word is a private name. -/
def isPrivate (word : String) : Bool :=
  word.toList.head? == some '#'

/-- Whether a word can name a binding. -/
def canBind (word : String) : Bool :=
  !isReserved word && !isPrivate word

end StopMotion.Syntax
