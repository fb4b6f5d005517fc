import StopMotion.Text.Slice

/-!
# Edits of a text

An edit puts a text in the place of a span. Edits are collected in any order and applied
together: they are taken by their start, an insertion before a replacement, a wider span
before a narrower one, and an edit that starts before the end of the last one taken is
dropped. Everything between the edits is copied as it stands, so an edit inside a wider
one simply disappears.
-/

namespace StopMotion

/-- A replacement of a span by a text; an insertion when the span is empty. -/
structure Edit where
  span : Span
  text : String
  deriving DecidableEq, Repr

namespace Edit

/-- The removal of a span. -/
def deletion (span : Span) : Edit := ⟨span, ""⟩

/-- A text put between two characters. -/
def insertion (offset : Nat) (text : String) : Edit := ⟨Span.point offset, text⟩

/-- Whether an edit removes nothing. -/
def isInsertion (edit : Edit) : Bool :=
  edit.span.start == edit.span.stop

/-- The order in which edits are taken; of two edits with the same place either comes
first. -/
def precedes (first second : Edit) : Bool :=
  if first.span.start != second.span.start then first.span.start < second.span.start
  else if first.isInsertion != second.isInsertion then first.isInsertion
  else second.span.stop ≤ first.span.stop

/-- Whether some edit of a list replaces or removes all of a span. -/
def covers (edits : List Edit) (span : Span) : Bool :=
  edits.any fun edit => !edit.isInsertion && edit.span.contains span

/-- The edits that are taken, in order, from a sorted list: each starts where the one before
it ends, or behind that. -/
def taken (cursor : Nat) : List Edit → List Edit
  | [] => []
  | edit :: rest =>
    if edit.span.start < cursor then taken cursor rest
    else edit :: taken edit.span.stop rest

/-- The text from `cursor` to `stop` with edits that do not overlap in their places. -/
def splice (source : List Char) (stop : Nat) : (cursor : Nat) → List Edit → List Char
  | cursor, [] => (Text.cut? source cursor stop).getD []
  | cursor, edit :: rest =>
    (Text.cut? source cursor edit.span.start).getD [] ++ edit.text.toList ++
      splice source stop edit.span.stop rest

/-- The text of a range with the edits in it that are wanted. -/
def spliced (edits : List Edit) (source : List Char) (range : Span)
    (wanted : Edit → Bool) : List Char :=
  let inside := edits.filter fun edit => range.contains edit.span && wanted edit
  splice source range.stop range.start (taken range.start (inside.mergeSort precedes))

/-- A text with all edits applied. -/
def apply (edits : List Edit) (source : List Char) : List Char :=
  spliced edits source ⟨0, Text.size source⟩ fun _ => true

/-- The text of a range with the edits inside it applied, those at its edges included. -/
def slice (edits : List Edit) (source : List Char) (range : Span) : String :=
  String.ofList (spliced edits source range fun _ => true)

/-- Whether an edit of a range is neither the whole range nor an insertion at one of its
edges. -/
def isInner (range : Span) (edit : Edit) : Bool :=
  edit.span != range &&
    !(edit.isInsertion && (edit.span.start == range.start || edit.span.start == range.stop))

/-- The text of a range with the edits strictly inside it applied: what a replacement of the
range says if it keeps the finer edits. -/
def render (edits : List Edit) (source : List Char) (range : Span) : String :=
  String.ofList (spliced edits source range (isInner range))

end Edit

end StopMotion
