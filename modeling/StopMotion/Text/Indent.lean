import StopMotion.Text.Slice

/-!
# Lines around a place

The indentation of the line that holds an offset, and the line that a span has to itself.
-/

namespace StopMotion.Text

/-- A blank that indents. -/
def isIndent (c : Char) : Bool := c == ' ' || c == '\t'

/-- The characters before and behind an offset; all of them before it when the offset is not
in the text. -/
def around (source : List Char) (offset : Nat) : List Char × List Char :=
  (splitAt? offset source).getD (source, [])

/-- The blanks at the start of the line that holds an offset. -/
def indentAt (source : List Char) (offset : Nat) : String :=
  let (before, behind) := around source offset
  let line := (before.reverse.takeWhile (· != '\n')).reverse ++ behind
  String.ofList (line.takeWhile isIndent)

/-- A span widened to its whole lines, the last line feed included, when nothing but blanks
shares them; else the span itself. -/
def wholeLines (source : List Char) (span : Span) : Span :=
  let before := (around source span.start).1.reverse
  let behind := (around source span.stop).2
  let blanksBefore := (before.takeWhile isIndent).length
  let blanksBehind := (behind.takeWhile fun c => isIndent c || c == '\r').length
  let beginsLine := (before.drop blanksBefore).head?.all (· == '\n')
  match behind.drop blanksBehind with
  | [] =>
    if beginsLine then ⟨span.start - blanksBefore, span.stop + blanksBehind⟩ else span
  | c :: _ =>
    if beginsLine && c == '\n' then
      ⟨span.start - blanksBefore, span.stop + blanksBehind + 1⟩
    else span

end StopMotion.Text
