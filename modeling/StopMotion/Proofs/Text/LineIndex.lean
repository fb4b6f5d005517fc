import Mathlib.Data.List.TakeWhile
import Mathlib.Data.Prod.Lex
import StopMotion.Proofs.Text.Edge
import StopMotion.Proofs.Text.Kept
import StopMotion.Text.LineIndex

/-!
# Lines of a text and positions in it

A text is divided at its line feeds, and each of its offsets lies in one of the lines. A line index
lists where every line begins, so an offset goes to a line and a column and comes back, and of two
offsets the later one has the later place. Columns that count UTF-16 units lead back to the same
offsets: every column leads to a character boundary of its line, a later column not before an
earlier one.
-/

namespace StopMotion.Text

open LineIndex (startsAfter)

/-! ## Bytes -/

/-- The bytes of a text. -/
def bytes (text : List Char) : List UInt8 := text.flatMap String.utf8EncodeChar

theorem startsAfter_append (offset : Nat) (before behind : List Char) :
    startsAfter offset (before ++ behind) =
      startsAfter offset before ++ startsAfter (offset + size before) behind := by
  induction before generalizing offset with
  | nil => rfl
  | cons c before inductionHypothesis =>
      simp only [List.cons_append, startsAfter, inductionHypothesis, size_cons, Nat.add_assoc]
      split <;> rfl

theorem length_startsAfter (offset : Nat) (text : List Char) :
    (startsAfter offset text).length = text.count '\n' := by
  induction text generalizing offset with
  | nil => rfl
  | cons c text inductionHypothesis =>
      rw [startsAfter]
      by_cases isFeed : c = '\n'
      · simp [isFeed, inductionHypothesis]
      · simp [isFeed, inductionHypothesis]

/-- A line that begins behind a line feed begins in the text. -/
theorem bounds_of_mem_startsAfter {offset start : Nat} {text : List Char}
    (isStart : start ∈ startsAfter offset text) : offset < start ∧ start ≤ offset + size text := by
  induction text generalizing offset with
  | nil => cases isStart
  | cons c text inductionHypothesis =>
      have positive := c.utf8Size_pos
      rw [startsAfter] at isStart
      rw [size_cons]
      by_cases isFeed : c = '\n'
      · rw [if_pos isFeed] at isStart
        rcases List.mem_cons.1 isStart with rfl | isStart
        · omega
        · have := inductionHypothesis isStart
          omega
      · rw [if_neg isFeed] at isStart
        have := inductionHypothesis isStart
        omega

/-- There are as many starts as lines. -/
theorem length_starts (text : List Char) :
    (LineIndex.of text).starts.length = text.count '\n' + 1 := by
  rw [LineIndex.of, List.length_cons, length_startsAfter]

theorem le_of_mem_starts {start : Nat} {text : List Char}
    (isStart : start ∈ (LineIndex.of text).starts) : start ≤ size text := by
  rcases List.mem_cons.1 isStart with rfl | isStart
  · exact Nat.zero_le _
  · have := (bounds_of_mem_startsAfter isStart).2
    omega

/-- The last line of a text that ends with a line feed begins at its end. -/
theorem getLast?_starts {text : List Char} (ends : text = [] ∨ text.getLast? = some '\n') :
    (LineIndex.of text).starts.getLast? = some (size text) := by
  rcases ends with rfl | ends
  · rfl
  · obtain ⟨front, rfl⟩ := List.getLast?_eq_some_iff.1 ends
    rw [LineIndex.of, startsAfter_append, ← List.cons_append, List.getLast?_append]
    simp [startsAfter]

/-! ## Lines -/

/-- `content` is the line of a number, counted from one, between what stands before it and what
stands behind it, which begins with the line feed that ends the line. -/
structure IsLine (text : List Char) (number : Nat) (before content behind : List Char) : Prop where
  joined : text = before ++ content ++ behind
  numbered : number = before.count '\n' + 1
  begins : before = [] ∨ before.getLast? = some '\n'
  unbroken : '\n' ∉ content
  ends : behind = [] ∨ behind.head? = some '\n'

variable {text before content behind : List Char} {number offset : Nat}

/-- Lines begin at the start of a text and behind each of its line feeds. -/
theorem exists_before {count : Nat} (counted : count ≤ text.count '\n') :
    ∃ before rest, text = before ++ rest ∧ before.count '\n' = count ∧
      (before = [] ∨ before.getLast? = some '\n') := by
  induction text generalizing count with
  | nil => exact ⟨[], [], rfl, (Nat.le_zero.1 counted).symm, .inl rfl⟩
  | cons c text inductionHypothesis =>
      cases count with
      | zero => exact ⟨[], c :: text, rfl, rfl, .inl rfl⟩
      | succ count =>
          by_cases isFeed : c = '\n'
          · subst isFeed
            rw [List.count_cons_self] at counted
            obtain ⟨before, rest, rfl, counts, begins⟩ :=
              inductionHypothesis (Nat.le_of_succ_le_succ counted)
            refine ⟨'\n' :: before, rest, rfl, by rw [List.count_cons_self, counts], .inr ?_⟩
            rcases begins with rfl | begins
            · rfl
            · rw [List.getLast?_cons, begins, Option.getD_some]
          · rw [List.count_cons_of_ne isFeed] at counted
            obtain ⟨before, rest, rfl, counts, begins⟩ := inductionHypothesis counted
            refine ⟨c :: before, rest, rfl, by rw [List.count_cons_of_ne isFeed, counts], .inr ?_⟩
            rcases begins with rfl | begins
            · cases counts
            · rw [List.getLast?_cons, begins, Option.getD_some]

/-- A line goes on up to the next line feed. -/
theorem isLine_takeWhile {rest : List Char} (joined : text = before ++ rest)
    (begins : before = [] ∨ before.getLast? = some '\n') :
    IsLine text (before.count '\n' + 1) before (rest.takeWhile (· != '\n'))
      (rest.dropWhile (· != '\n')) where
  joined := by rw [List.append_assoc, List.takeWhile_append_dropWhile, joined]
  numbered := rfl
  begins := begins
  unbroken := by
    intro isIn
    simpa using List.mem_takeWhile_imp isIn
  ends := by
    have isFirst := List.head?_dropWhile_not (· != '\n') rest
    cases isBehind : rest.dropWhile (· != '\n') with
    | nil => exact .inl rfl
    | cons c behind =>
        rw [isBehind] at isFirst
        exact .inr (by simpa using isFirst)

/-- Every line that there are line feeds for is there. -/
theorem exists_line (positive : 1 ≤ number) (counted : number ≤ text.count '\n' + 1) :
    ∃ before content behind, IsLine text number before content behind := by
  have feeds : number - 1 ≤ text.count '\n' := by omega
  obtain ⟨before, rest, joined, counts, begins⟩ := exists_before feeds
  have line := isLine_takeWhile joined begins
  rw [counts, Nat.sub_add_cancel positive] at line
  exact ⟨_, _, _, line⟩

/-- Every number chooses a line: its own, or the first or last one if it is out of range. -/
theorem exists_chosen (text : List Char) (wanted : Nat) :
    ∃ before content behind,
      IsLine text (min (max wanted 1) (text.count '\n' + 1)) before content behind := by
  have positive : 1 ≤ min (max wanted 1) (text.count '\n' + 1) := by omega
  exact exists_line positive (Nat.min_le_right _ _)

namespace IsLine

/-- The starts of the lines up to a line, and of those behind it. -/
theorem starts_eq (line : IsLine text number before content behind) :
    (LineIndex.of text).starts = (LineIndex.of before).starts ++
      startsAfter (size before + size content) behind := by
  have noStart : startsAfter (size before) content = [] := by
    rw [← List.length_eq_zero_iff, length_startsAfter, List.count_eq_zero]
    exact line.unbroken
  rw [line.joined, LineIndex.of, LineIndex.of, startsAfter_append, startsAfter_append,
    Nat.zero_add, noStart, List.append_nil, Nat.zero_add, size_append, List.cons_append]

theorem length_starts_before (line : IsLine text number before content behind) :
    (LineIndex.of before).starts.length = number := by
  rw [length_starts, line.numbered]

theorem size_eq (line : IsLine text number before content behind) :
    size text = size before + size content + size behind := by
  rw [line.joined, size_append, size_append]

/-- The index knows where a line starts. A number that is out of range is taken for that of the
first line or of the last one. -/
theorem lineStart_eq {wanted : Nat}
    (line : IsLine text (min (max wanted 1) (text.count '\n' + 1)) before content behind) :
    (LineIndex.of text).lineStart wanted = size before := by
  have counts := line.length_starts_before
  have index : min (max wanted 1 - 1) (text.count '\n' + 1 - 1) =
      (LineIndex.of before).starts.length - 1 := by omega
  rw [LineIndex.lineStart, length_starts, index, line.starts_eq,
    List.getElem?_append_left (by omega), ← List.getLast?_eq_getElem?,
    getLast?_starts line.begins, Option.getD_some]

/-- The number of a line is in range. -/
theorem number_eq (line : IsLine text number before content behind) :
    min (max number 1) (text.count '\n' + 1) = number := by
  rw [line.numbered, line.joined, List.count_append, List.count_append]
  omega

theorem lineStart_number (line : IsLine text number before content behind) :
    (LineIndex.of text).lineStart number = size before := by
  apply lineStart_eq
  rwa [line.number_eq]

/-- An offset in a line is on that line, with one column for each byte. -/
theorem lineCol_eq (line : IsLine text number before content behind)
    (atOrBehind : size before ≤ offset) (within : offset ≤ size before + size content) :
    (LineIndex.of text).lineCol offset = (number, offset - size before + 1) := by
  have inside : min offset (LineIndex.of text).size = offset := by
    have : (LineIndex.of text).size = _ := line.size_eq
    omega
  have noLater :
      (startsAfter (size before + size content) behind).takeWhile (· ≤ offset) = [] := by
    cases later : startsAfter (size before + size content) behind with
    | nil => rfl
    | cons start more =>
        have := (bounds_of_mem_startsAfter (later ▸ List.mem_cons_self)).1
        exact List.takeWhile_cons_of_neg (by rw [decide_eq_true_iff]; omega)
  have taken : (LineIndex.of text).starts.takeWhile (· ≤ offset) =
      (LineIndex.of before).starts := by
    rw [line.starts_eq, List.takeWhile_append_of_pos, noLater, List.append_nil]
    intro start isStart
    exact decide_eq_true (Nat.le_trans (le_of_mem_starts isStart) atOrBehind)
  simp only [LineIndex.lineCol]
  rw [inside, taken, line.length_starts_before, List.getLastD_eq_getLast?,
    getLast?_starts line.begins, Option.getD_some]

end IsLine

/-- Every offset of a text lies in a line. -/
theorem exists_line_of_le (inside : offset ≤ size text) :
    ∃ number before content behind, IsLine text number before content behind ∧
      size before ≤ offset ∧ offset ≤ size before + size content := by
  -- The line of the last start at the offset or before it is the one.
  have positive : 1 ≤ ((LineIndex.of text).starts.takeWhile (· ≤ offset)).length := by
    rw [LineIndex.of, List.takeWhile_cons_of_pos (by simp)]
    exact Nat.succ_pos _
  have counted : ((LineIndex.of text).starts.takeWhile (· ≤ offset)).length ≤
      text.count '\n' + 1 :=
    length_starts text ▸ (List.takeWhile_sublist _).length_le
  obtain ⟨before, content, behind, line⟩ := exists_line positive counted
  have parted := List.takeWhile_append_dropWhile (p := (· ≤ offset))
    (l := (LineIndex.of text).starts)
  have isFirst := List.head?_dropWhile_not (· ≤ offset) (LineIndex.of text).starts
  obtain ⟨taken, dropped⟩ :=
    List.append_inj (parted.trans line.starts_eq) line.length_starts_before.symm
  refine ⟨_, before, content, behind, line, ?_, ?_⟩
  · have isTaken := List.mem_of_getLast? (getLast?_starts line.begins)
    rw [← taken] at isTaken
    simpa using List.mem_takeWhile_imp isTaken
  · have joined := line.size_eq
    rcases line.ends with rfl | ends
    · rw [size_nil] at joined
      omega
    · obtain ⟨rest, rfl⟩ := List.head?_eq_some_iff.1 ends
      rw [dropped, startsAfter, if_pos rfl, List.head?_cons] at isFirst
      have : ('\n').utf8Size = 1 := rfl
      have := of_decide_eq_false isFirst
      omega

end StopMotion.Text

namespace StopMotion.LineIndex

open Text (IsLine bytes)

variable {text before content behind : List Char} {number offset : Nat}

/-! ## Columns of bytes -/

/-- The UTF-16 units of a character: one, or the two halves of a surrogate pair. -/
def encode16 (c : Char) : List UInt16 :=
  if c.toNat < 0x10000 then [UInt16.ofNat c.toNat]
  else
    [UInt16.ofNat (0xd800 + (c.toNat - 0x10000) / 0x400),
      UInt16.ofNat (0xdc00 + (c.toNat - 0x10000) % 0x400)]

/-- The UTF-16 units of a text. -/
def utf16 (text : List Char) : List UInt16 := text.flatMap encode16

theorem length_encode16 (c : Char) : (encode16 c).length = units16 c := by
  rw [encode16, units16]
  split <;> rfl

theorem bytesOfUnits_zero (text : List Char) : bytesOfUnits 0 text = 0 := by
  rw [bytesOfUnits]

/-- The units of a beginning of a line lead to what is behind it. -/
theorem bytesOfUnits_append {head : List Char} (unbroken : '\n' ∉ head) (more : Nat)
    (back : List Char) : bytesOfUnits ((utf16 head).length + more) (head ++ back) =
      Text.size head + bytesOfUnits more back := by
  induction head with
  | nil => simp [utf16]
  | cons c head inductionHypothesis =>
      rw [List.mem_cons, not_or] at unbroken
      obtain ⟨notFeed, unbroken⟩ := unbroken
      have split : (utf16 (c :: head)).length = units16 c + (utf16 head).length := by
        rw [utf16, List.flatMap_cons, List.length_append, length_encode16, utf16]
      obtain ⟨units, counts⟩ : ∃ units, units16 c + (utf16 head).length + more = units + 1 := by
        refine Nat.exists_eq_succ_of_ne_zero ?_
        have : units16 c ≠ 0 := by
          rw [units16]
          split <;> decide
        omega
      have others : units + 1 - units16 c = (utf16 head).length + more := by omega
      rw [split, counts, List.cons_append, bytesOfUnits, if_neg (Ne.symm notFeed), others,
        inductionHypothesis unbroken, Text.size_cons, Nat.add_assoc]

/-- Units lead to a place between two characters of a line, or to one of its ends. -/
theorem exists_bytesOfUnits (units : Nat) (unbroken : '\n' ∉ content)
    (ends : behind = [] ∨ behind.head? = some '\n') :
    ∃ head tail, content = head ++ tail ∧
      bytesOfUnits units (content ++ behind) = Text.size head := by
  induction content generalizing units with
  | nil =>
      refine ⟨[], [], rfl, ?_⟩
      rcases ends with rfl | ends
      · cases units <;> rfl
      · obtain ⟨rest, rfl⟩ := List.head?_eq_some_iff.1 ends
        cases units <;> rfl
  | cons c content inductionHypothesis =>
      rw [List.mem_cons, not_or] at unbroken
      obtain ⟨notFeed, unbroken⟩ := unbroken
      cases units with
      | zero => exact ⟨[], c :: content, rfl, rfl⟩
      | succ units =>
          obtain ⟨head, tail, rfl, bytes⟩ := inductionHypothesis (units + 1 - units16 c) unbroken
          refine ⟨c :: head, tail, rfl, ?_⟩
          rw [List.cons_append, bytesOfUnits, if_neg (Ne.symm notFeed), bytes, Text.size_cons]

/-- More units do not lead back. -/
theorem bytesOfUnits_mono {units more : Nat} (less : units ≤ more) (text : List Char) :
    bytesOfUnits units text ≤ bytesOfUnits more text := by
  induction text generalizing units more with
  | nil =>
      cases units with
      | zero => exact Nat.zero_le _
      | succ units => exact Nat.zero_le _
  | cons c text inductionHypothesis =>
      cases units with
      | zero => exact Nat.zero_le _
      | succ units =>
          cases more with
          | zero => cases less
          | succ more =>
              rw [bytesOfUnits, bytesOfUnits]
              split
              · exact Nat.le_refl _
              · exact Nat.add_le_add_left (inductionHypothesis (by omega)) _

/-- A column leads on from the start of the line that is chosen. -/
theorem offsetUnits16_eq {wanted : Nat}
    (line : IsLine text (min (max wanted 1) (text.count '\n' + 1)) before content behind)
    (column : Nat) : (of text).offsetUnits16 text wanted column =
      Text.size before + bytesOfUnits (max column 1 - 1) (content ++ behind) := by
  have split : Text.splitAt? (Text.size before) text = some (before, content ++ behind) := by
    rw [line.joined, List.append_assoc]
    exact Text.splitAt?_append before (content ++ behind)
  rw [offsetUnits16, line.lineStart_eq, split]

/-- The columns of a number lead into the line that is chosen. -/
structure LeadsInto (text : List Char) (wanted : Nat) (before content : List Char) : Prop where
  boundary : ∀ column,
    Text.isBoundary text ((of text).offsetUnits16 text wanted column) = true
  start_le : ∀ column, Text.size before ≤ (of text).offsetUnits16 text wanted column
  le_stop : ∀ column,
    (of text).offsetUnits16 text wanted column ≤ Text.size before + Text.size content
  monotone : Monotone ((of text).offsetUnits16 text wanted)
  /-- The column between the two halves of a surrogate pair leads behind the pair. -/
  pair : ∀ head c tail, content = head ++ c :: tail → (encode16 c).length = 2 →
    (of text).offsetUnits16 text wanted ((utf16 head).length + 2) =
      Text.size before + Text.size (head ++ [c])

theorem leadsInto {wanted : Nat}
    (line : IsLine text (min (max wanted 1) (text.count '\n' + 1)) before content behind) :
    LeadsInto text wanted before content where
  boundary := by
    intro column
    obtain ⟨head, tail, split, bytes⟩ :=
      exists_bytesOfUnits (max column 1 - 1) line.unbroken line.ends
    have joined : text = before ++ head ++ (tail ++ behind) := by
      rw [line.joined, split]
      simp
    rw [offsetUnits16_eq line, bytes, ← Text.size_append, Text.isBoundary, joined,
      Text.splitAt?_append]
    rfl
  start_le := by
    intro column
    rw [offsetUnits16_eq line]
    exact Nat.le_add_right _ _
  le_stop := by
    intro column
    obtain ⟨head, tail, split, bytes⟩ :=
      exists_bytesOfUnits (max column 1 - 1) line.unbroken line.ends
    rw [offsetUnits16_eq line, bytes, split, Text.size_append]
    omega
  monotone := by
    intro column later less
    rw [offsetUnits16_eq line, offsetUnits16_eq line]
    exact Nat.add_le_add_left (bytesOfUnits_mono (by omega) _) _
  pair := by
    intro head c tail split isPair
    have unbroken := line.unbroken
    rw [split, List.mem_append, List.mem_cons, not_or, not_or] at unbroken
    have one : bytesOfUnits 1 (c :: tail ++ behind) = c.utf8Size := by
      rw [length_encode16] at isPair
      rw [List.cons_append, bytesOfUnits, if_neg (Ne.symm unbroken.2.1), isPair, bytesOfUnits_zero,
        Nat.add_zero]
    have units : max ((utf16 head).length + 2) 1 - 1 = (utf16 head).length + 1 := by omega
    rw [offsetUnits16_eq line, units, split, List.append_assoc,
      bytesOfUnits_append unbroken.1, one, Text.size_append]
    rfl

/-- Columns that count UTF-16 units lead to the offsets that they are the columns of. -/
structure CountsUnits (text : List Char) : Prop where
  back : ∀ offset, Text.isBoundary text offset = true →
    ∃ piece, Text.cut? text ((of text).lineStart ((of text).lineCol offset).1) offset =
        some piece ∧
      (of text).offsetUnits16 text ((of text).lineCol offset).1 ((utf16 piece).length + 1) = offset
  /-- Every number leads into a line: its own, or the first or last one if it is out of range. -/
  leads : ∀ wanted, ∃ before content behind,
    IsLine text (min (max wanted 1) (text.count '\n' + 1)) before content behind ∧
      LeadsInto text wanted before content

/-- Columns of UTF-16 units and offsets go back and forth in every text. -/
theorem countsUnits (text : List Char) : CountsUnits text where
  back := by
    intro offset isBoundary
    obtain ⟨⟨front, back⟩, isSplit⟩ := Option.isSome_iff_exists.1 isBoundary
    obtain ⟨joined, rfl⟩ := Text.append_of_splitAt? isSplit
    have inside : Text.size front ≤ Text.size text := by
      rw [← joined, Text.size_append]
      exact Nat.le_add_right _ _
    obtain ⟨number, before, content, behind, line, atOrBehind, within⟩ :=
      Text.exists_line_of_le inside
    have whole : before ++ (content ++ behind) = front ++ back := by
      rw [joined, line.joined, List.append_assoc]
    obtain ⟨piece, rfl, rest⟩ := Text.exists_append_of_size_le whole atOrBehind
    rw [Text.size_append] at within ⊢
    obtain ⟨tail, rfl, -⟩ := Text.exists_append_of_size_le rest.symm (by omega)
    have unbroken : '\n' ∉ piece := fun isIn => line.unbroken (List.mem_append_left tail isIn)
    have units : max ((utf16 piece).length + 1) 1 - 1 = (utf16 piece).length + 0 := by omega
    have chosen := line
    rw [← line.number_eq] at chosen
    rw [Text.size_append] at atOrBehind
    rw [line.lineCol_eq atOrBehind (by rw [Text.size_append]; omega), line.lineStart_number]
    refine ⟨piece, ?_, ?_⟩
    · rw [← joined]
      exact Text.cut?_append before piece back
    · rw [offsetUnits16_eq chosen, units, List.append_assoc, bytesOfUnits_append unbroken,
        bytesOfUnits_zero, Nat.add_zero]
  leads := by
    intro wanted
    obtain ⟨before, content, behind, line⟩ := Text.exists_chosen text wanted
    exact ⟨before, content, behind, line, leadsInto line⟩

end StopMotion.LineIndex
