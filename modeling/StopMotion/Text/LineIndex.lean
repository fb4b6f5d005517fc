import StopMotion.Text.Slice

/-!
# Lines and columns

A line index of a text converts byte offsets to one-based lines and columns and
back. Columns count bytes, or UTF-16 units where an outside tool reports them. Every
answer is clamped to the text, so any pair of numbers names a position.
-/

namespace StopMotion

/-- The first offset of each line of a text, and the text's size. -/
structure LineIndex where
  starts : List Nat
  size : Nat
  deriving Repr

namespace LineIndex

/-- The offsets just behind the line feeds of a text that begins at `offset`. -/
def startsAfter (offset : Nat) : List Char → List Nat
  | [] => []
  | c :: rest =>
    let next := offset + c.utf8Size
    if c = '\n' then next :: startsAfter next rest else startsAfter next rest

/-- The line index of a text. -/
def of (text : List Char) : LineIndex :=
  ⟨0 :: startsAfter 0 text, Text.size text⟩

/-- The offset at which a one-based line starts; the first line for zero, the last line
for a number that is too large. -/
def lineStart (index : LineIndex) (line : Nat) : Nat :=
  index.starts[min (max line 1 - 1) (index.starts.length - 1)]?.getD 0

/-- The one-based line and column of an offset. -/
def lineCol (index : LineIndex) (offset : Nat) : Nat × Nat :=
  let offset := min offset index.size
  let before := index.starts.takeWhile (· ≤ offset)
  (before.length, offset - before.getLastD 0 + 1)

/-- The offset of a one-based line and column. -/
def offset (index : LineIndex) (line column : Nat) : Nat :=
  min (index.lineStart line + (max column 1 - 1)) index.size

/-- The number of UTF-16 units of a character. -/
def units16 (c : Char) : Nat :=
  if c.toNat < 0x10000 then 1 else 2

/-- The bytes covered by the first `units` UTF-16 units of a line; a unit inside a
surrogate pair counts the whole pair. -/
def bytesOfUnits : Nat → List Char → Nat
  | 0, _ => 0
  | _ + 1, [] => 0
  | units + 1, c :: rest =>
    if c = '\n' then 0
    else c.utf8Size + bytesOfUnits (units + 1 - units16 c) rest

/-- The offset of a one-based line and a one-based column in UTF-16 units. `text` is the
indexed text. -/
def offsetUnits16 (index : LineIndex) (text : List Char) (line column : Nat) : Nat :=
  let start := index.lineStart line
  match Text.splitAt? start text with
  | some (_, rest) => start + bytesOfUnits (max column 1 - 1) rest
  | none => start

/-- An index always has a first line. -/
theorem starts_ne_nil (text : List Char) : (of text).starts ≠ [] := by
  simp [of]

end LineIndex

end StopMotion
