/-!
# Byte offsets into a text

Positions count UTF-8 bytes. A cut is answered only when both of its ends lie inside
the text on character boundaries, so a slice is always whole characters; the lemmas
at the end say that a cut loses nothing and adds nothing.
-/

namespace StopMotion

namespace Text

/-- The number of bytes of a sequence of characters. -/
def size : List Char → Nat
  | [] => 0
  | c :: rest => c.utf8Size + size rest

/-- The characters before and after the byte offset `offset`; none when it lies past the
end or inside a character. -/
def splitAt? : Nat → List Char → Option (List Char × List Char)
  | 0, text => some ([], text)
  | _ + 1, [] => none
  | offset + 1, c :: rest =>
    if c.utf8Size ≤ offset + 1 then
      (splitAt? (offset + 1 - c.utf8Size) rest).map fun (before, after) => (c :: before, after)
    else
      none

/-- The characters between two byte offsets. -/
def cut? (text : List Char) (start stop : Nat) : Option (List Char) :=
  if stop < start then none
  else
    match splitAt? start text with
    | none => none
    | some (_, after) => (splitAt? (stop - start) after).map (·.1)

/-- What is left of a text from the byte offset `offset` on; none when it lies past the end or
inside a character. -/
def rest? : Nat → List Char → Option (List Char)
  | 0, text => some text
  | _ + 1, [] => none
  | offset + 1, c :: rest =>
    if c.utf8Size ≤ offset + 1 then rest? (offset + 1 - c.utf8Size) rest else none

/-- Whether a byte offset is a character boundary of the text. -/
def isBoundary (text : List Char) (offset : Nat) : Bool :=
  (splitAt? offset text).isSome

@[simp] theorem size_nil : size [] = 0 := rfl

@[simp] theorem size_cons (c : Char) (rest : List Char) :
    size (c :: rest) = c.utf8Size + size rest := rfl

@[simp] theorem size_append (left right : List Char) :
    size (left ++ right) = size left + size right := by
  induction left with
  | nil => simp
  | cons c rest inductionHypothesis => simp [inductionHypothesis, Nat.add_assoc]

/-- Only the empty text has no bytes. -/
theorem size_eq_zero {text : List Char} : size text = 0 ↔ text = [] := by
  cases text with
  | nil => simp
  | cons c rest =>
      have positive := c.utf8Size_pos
      simp
      omega

/-- A split keeps every character in order, and the first part has the asked size. -/
theorem append_of_splitAt? {offset : Nat} {text before after : List Char}
    (split : splitAt? offset text = some (before, after)) :
    before ++ after = text ∧ size before = offset := by
  induction text generalizing offset before after with
  | nil =>
      cases offset with
      | zero =>
          simp [splitAt?] at split
          simp [split]
      | succ offset => simp [splitAt?] at split
  | cons c rest inductionHypothesis =>
      cases offset with
      | zero =>
          simp only [splitAt?, Option.some.injEq, Prod.mk.injEq] at split
          obtain ⟨rfl, rfl⟩ := split
          simp
      | succ offset =>
          simp only [splitAt?] at split
          split at split
          · rename_i fits
            simp only [Option.map_eq_some_iff, Prod.exists, Prod.mk.injEq] at split
            obtain ⟨before', after', inner, rfl, rfl⟩ := split
            obtain ⟨joined, bytes⟩ := inductionHypothesis inner
            refine ⟨by simp [joined], ?_⟩
            simp [bytes]
            omega
          · cases split

/-- A text splits at the size of each of its beginnings. -/
theorem splitAt?_append (before after : List Char) :
    splitAt? (size before) (before ++ after) = some (before, after) := by
  induction before with
  | nil => simp [splitAt?]
  | cons c rest inductionHypothesis =>
      have positive := c.utf8Size_pos
      obtain ⟨count, counted⟩ : ∃ count, c.utf8Size + size rest = count + 1 :=
        ⟨c.utf8Size + size rest - 1, by omega⟩
      have remaining : count + 1 - c.utf8Size = size rest := by omega
      simp only [List.cons_append, size_cons, counted, splitAt?]
      rw [if_pos (by omega), remaining, inductionHypothesis]
      rfl

/-- What is left behind a beginning of a text. -/
theorem rest?_append (before after : List Char) :
    rest? (size before) (before ++ after) = some after := by
  induction before with
  | nil => simp [rest?]
  | cons c before inductionHypothesis =>
      have positive := c.utf8Size_pos
      obtain ⟨count, counted⟩ : ∃ count, c.utf8Size + size before = count + 1 :=
        ⟨c.utf8Size + size before - 1, by omega⟩
      have remaining : count + 1 - c.utf8Size = size before := by omega
      simp only [List.cons_append, size_cons, counted, rest?]
      rw [if_pos (by omega), remaining, inductionHypothesis]

end Text

/-- A half-open range of bytes. -/
structure Span where
  start : Nat
  stop : Nat
  deriving DecidableEq, Repr, Inhabited

namespace Span

/-- The empty span at an offset. -/
def point (offset : Nat) : Span := ⟨offset, offset⟩

/-- The least span that covers both. -/
def cover (left right : Span) : Span :=
  ⟨min left.start right.start, max left.stop right.stop⟩

/-- Whether `inner` lies inside `outer`. -/
def contains (outer inner : Span) : Bool :=
  outer.start ≤ inner.start && inner.stop ≤ outer.stop

/-- The number of bytes. -/
def size (span : Span) : Nat := span.stop - span.start

/-- No bytes. -/
def isEmpty (span : Span) : Bool := span.stop ≤ span.start

/-- The text of a span; empty when the span is not a cut of the text. -/
def text (span : Span) (source : List Char) : String :=
  match Text.cut? source span.start span.stop with
  | some characters => String.ofList characters
  | none => ""

end Span

end StopMotion
