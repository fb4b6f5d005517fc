import StopMotion.Syntax.Token

/-!
# Syntax errors

A source that is no module is refused at the first place where reading cannot go on.
An error is a cause and a span; its wording is one function of the cause.
-/

namespace StopMotion.Syntax

/-- What would have been accepted in place of the token that was found. -/
inductive Wanted where
  | punct (wanted : Punct)
  | word (wanted : String)
  | stringLiteral | identifier | loopVariable | catchOrFinally | caseOrDefault | restOfSwitch
  | importClause | functionName | className | restOfClass | propertyName | bindingPattern
  | expression | templateLiteral | closeOfSubstitution | closeOfContainer | closeOfSpread
  | typeArgument

/-- The wording of what was wanted. -/
def Wanted.text : Wanted → String
  | punct wanted => "expected '" ++ wanted.text ++ "'"
  | word wanted => "expected '" ++ wanted ++ "'"
  | stringLiteral => "expected string literal"
  | identifier => "expected identifier"
  | loopVariable => "expected loop variable"
  | catchOrFinally => "expected 'catch' or 'finally'"
  | caseOrDefault => "expected 'case' or 'default'"
  | restOfSwitch => "unterminated switch"
  | importClause => "expected import clause"
  | functionName => "expected function name"
  | className => "expected class name"
  | restOfClass => "unterminated class body"
  | propertyName => "expected property name"
  | bindingPattern => "expected binding pattern"
  | expression => "expected expression"
  | templateLiteral => "expected template literal"
  | closeOfSubstitution => "expected '\x7d' to close template substitution"
  | closeOfContainer => "expected '\x7d' to close JSX expression"
  | closeOfSpread => "expected '\x7d' after JSX spread"
  | typeArgument => "expected type argument"

/-- Why a source is refused. -/
inductive Cause where
  | unterminatedComment
  | unexpectedCharacter (found : Char)
  | unexpectedTagCharacter (found : Char)
  | invalidNumber
  | invalidExponent
  | nameAfterNumber
  | unterminatedString
  | unterminatedEscape
  | invalidHexEscape
  | invalidUnicodeEscape
  | unterminatedRegex
  | unterminatedTemplate
  | unterminatedAttribute
  | expected (wanted : Wanted) (found : TokenKind)
  | unclosed (opening : Punct) (offset : Nat)
  | expectedDeclaration
  | invalidDestructuring
  | invalidTarget
  | unexpectedKeyword (word : String)
  | unexpectedEnd
  | expectedTagEnd
  | expectedAttributeName
  | unterminatedTag (name : String)
  | unexpectedInTag (found : TokenKind)
  | emptyAttribute
  | expectedAttributeValue
  | unclosedElement (name : String)
  | expectedClosingTagEnd
  | mismatchedTag (opened closed : String)
  | expectedTagName
  | expectedTagMember
  | expectedTagLocalName
  | nestedTooDeeply
  | strayed

/-- The wording of a cause. -/
def Cause.text : Cause → String
  | unterminatedComment => "unterminated block comment"
  | unexpectedCharacter found => "unexpected character '" ++ found.toString ++ "'"
  | unexpectedTagCharacter found => "unexpected character '" ++ found.toString ++ "' in JSX tag"
  | invalidNumber => "invalid number"
  | invalidExponent => "invalid number exponent (expected digits)"
  | nameAfterNumber => "identifier starts immediately after numeric literal"
  | unterminatedString => "unterminated string literal"
  | unterminatedEscape => "unterminated escape sequence"
  | invalidHexEscape => "invalid hex escape"
  | invalidUnicodeEscape => "invalid unicode escape"
  | unterminatedRegex => "unterminated regex literal"
  | unterminatedTemplate => "unterminated template literal"
  | unterminatedAttribute => "unterminated JSX attribute string"
  | expected wanted found => wanted.text ++ ", found " ++ found.describe
  | unclosed opening offset =>
    "unclosed '" ++ opening.text ++ "' opened at byte " ++ toString offset
  | expectedDeclaration => "expected declaration after 'export'"
  | invalidDestructuring => "invalid destructuring target"
  | invalidTarget => "invalid assignment target"
  | unexpectedKeyword word => "unexpected keyword '" ++ word ++ "'"
  | unexpectedEnd => "unexpected end of input"
  | expectedTagEnd => "expected '>' after '/'"
  | expectedAttributeName => "expected attribute name"
  | unterminatedTag name => "unterminated JSX tag <" ++ name ++ ">"
  | unexpectedInTag found => "unexpected " ++ found.describe ++ " in JSX tag"
  | emptyAttribute => "JSX attribute value must not be empty"
  | expectedAttributeValue => "expected JSX attribute value"
  | unclosedElement name => "unclosed JSX element <" ++ name ++ ">"
  | expectedClosingTagEnd => "expected '>' in closing tag"
  | mismatchedTag opened closed =>
    "expected closing tag </" ++ opened ++ ">, found </" ++ closed ++ ">"
  | expectedTagName => "expected JSX tag name"
  | expectedTagMember => "expected JSX member name"
  | expectedTagLocalName => "expected JSX name"
  | nestedTooDeeply => "source is nested too deeply"
  | strayed => "reading goes on where no character begins"

/-- Whether a reading was given up, at one of its bounds or off its source, and not for what it
read. -/
def Cause.isGivenUp : Cause → Bool
  | nestedTooDeeply | strayed => true
  | _ => false

/-- The first place where reading a source cannot go on. -/
structure SyntaxError where
  span : Span
  cause : Cause

namespace SyntaxError

/-- The wording of an error without its place. -/
def text (error : SyntaxError) : String := error.cause.text

/-- Whether the reading was given up. -/
def isGivenUp (error : SyntaxError) : Bool := error.cause.isGivenUp

/-- The wording of an error with its place. -/
def message (error : SyntaxError) : String :=
  "at byte " ++ toString error.span.start ++ ": " ++ error.text

end SyntaxError

end StopMotion.Syntax
