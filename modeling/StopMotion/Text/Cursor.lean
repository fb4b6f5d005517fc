import StopMotion.Text.Slice

/-!
# A place in a text

A cursor is what is left to read of a text together with the byte offset at which it
begins. Reading moves it forward by whole characters, so its offset stays on a
character boundary.
-/

namespace StopMotion

/-- What is left to read, and where it begins. -/
structure Cursor where
  rest : List Char
  pos : Nat
  deriving Repr, Inhabited

namespace Cursor

/-- The start of a text. -/
def start (text : List Char) : Cursor := ⟨text, 0⟩

/-- The place behind the next `count` characters. -/
def skip : Nat → Cursor → Cursor
  | 0, cursor => cursor
  | _ + 1, ⟨[], pos⟩ => ⟨[], pos⟩
  | count + 1, ⟨c :: rest, pos⟩ => skip count ⟨rest, pos + c.utf8Size⟩

/-- The longest run of characters of a class, and the place behind it. -/
def span (accepts : Char → Bool) (cursor : Cursor) : List Char × Cursor :=
  let taken := cursor.rest.takeWhile accepts
  (taken, ⟨cursor.rest.dropWhile accepts, cursor.pos + Text.size taken⟩)

/-- The byte range from an earlier offset to here. -/
def since (cursor : Cursor) (start : Nat) : Span := ⟨start, cursor.pos⟩

/-- `cursor` is a place in `source`: some of the source lies before it, of as many bytes as
its offset says, and the rest is what is left. -/
def In (cursor : Cursor) (source : List Char) : Prop :=
  ∃ before, source = before ++ cursor.rest ∧ Text.size before = cursor.pos

/-- The start of a text is a place in it. -/
theorem start_in (text : List Char) : (start text).In text :=
  ⟨[], rfl, rfl⟩

/-- A run leaves a place in the same text. -/
theorem In.span {cursor : Cursor} {source : List Char} (place : cursor.In source)
    (accepts : Char → Bool) : (cursor.span accepts).2.In source := by
  obtain ⟨before, joined, bytes⟩ := place
  refine ⟨before ++ cursor.rest.takeWhile accepts, ?_, ?_⟩
  · simp [Cursor.span, joined, List.takeWhile_append_dropWhile]
  · simp [Cursor.span, bytes]

/-- Skipping leaves a place in the same text. -/
theorem In.skip {cursor : Cursor} {source : List Char} (place : cursor.In source)
    (count : Nat) : (cursor.skip count).In source := by
  induction count generalizing cursor with
  | zero => exact place
  | succ count inductionHypothesis =>
      obtain ⟨rest, pos⟩ := cursor
      cases rest with
      | nil => exact place
      | cons c rest =>
          obtain ⟨before, joined, bytes⟩ := place
          refine inductionHypothesis ⟨before ++ [c], ?_, ?_⟩
          · simpa using joined
          · simpa using bytes

end Cursor

end StopMotion
