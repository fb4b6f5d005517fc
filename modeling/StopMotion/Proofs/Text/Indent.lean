import StopMotion.Proofs.Text.Edge
import StopMotion.Text.Indent
import StopMotion.Text.Pieces

/-!
# The lines of a span

A span that is widened to its lines gains indentation before it and blanks behind it, and
ends with a line feed or with the source. What it gains cannot reach over the line feed of
the span before.
-/

namespace StopMotion.Text

/-- A text is parted where its beginning ends. -/
theorem around_append (before behind : List Char) :
    around (before ++ behind) (size before) = (before, behind) := by
  rw [around, splitAt?_append]
  rfl

/-- Characters of one byte each are as many as their bytes. -/
theorem size_eq_length {text : List Char} (single : ∀ c ∈ text, c.utf8Size = 1) :
    size text = text.length := by
  induction text with
  | nil => rfl
  | cons c rest inductionHypothesis =>
      rw [size_cons, single c (by simp), inductionHypothesis fun d member =>
        single d (by simp [member]), List.length_cons, Nat.add_comm]

/-- A text has the same number of bytes in either direction. -/
theorem size_reverse (text : List Char) : size text.reverse = size text := by
  induction text with
  | nil => rfl
  | cons c rest inductionHypothesis =>
      rw [List.reverse_cons, size_append, inductionHypothesis, size_cons, size_cons, size_nil,
        Nat.add_zero, Nat.add_comm]

theorem isIndent_iff {c : Char} : isIndent c = true ↔ c = ' ' ∨ c = '\t' := by
  simp [isIndent]

/-- Indentation is blank. -/
theorem isBlank_of_isIndent (c : Char) (indents : isIndent c = true) : isBlank c = true := by
  rcases isIndent_iff.mp indents with rfl | rfl <;> rfl

/-- Indentation takes a byte a character. -/
theorem utf8Size_of_isIndent {c : Char} (indents : isIndent c = true) : c.utf8Size = 1 := by
  rcases isIndent_iff.mp indents with rfl | rfl <;> rfl

/-- How the lines of a span lie around it. -/
structure Widened (source : List Char) (span lines : Span) : Prop where
  indented : Run isIndent source lines.start span.start
  blank : Run isBlank source span.stop lines.stop
  ended : lines = span ∨ lines.stop = size source ∨
    ∃ before behind, source = before ++ '\n' :: behind ∧ size before + 1 = lines.stop

/-- The blanks that are cut off at the end of a beginning. -/
theorem run_of_trimEnd (before behind : List Char) :
    Run isBlank (before ++ behind) (size (trimEnd before)) (size before) := by
  have joined : before = trimEnd before ++ (before.reverse.takeWhile isBlank).reverse := by
    rw [trimEnd, ← List.reverse_append, List.takeWhile_append_dropWhile, List.reverse_reverse]
  refine ⟨_, (before.reverse.takeWhile isBlank).reverse, behind, by rw [← joined], rfl, ?_, ?_⟩
  · rw [← size_append, ← joined]
  · exact fun c member => List.all_eq_true.mp List.all_takeWhile c (List.mem_reverse.mp member)

/-- The lines of a span that has them to itself: indentation at the beginning of a line before
it, and behind it blanks up to one line feed or to the end of the source. -/
structure OwnLines (source : List Char) (span lines : Span) : Prop where
  front : ∃ before indent behind, source = before ++ indent ++ behind ∧
    size before = lines.start ∧ size before + size indent = span.start ∧
    (∀ c ∈ indent, isIndent c = true) ∧ (before = [] ∨ before.getLast? = some '\n')
  back : ∃ before filler feed behind, source = before ++ filler ++ feed ++ behind ∧
    size before = span.stop ∧ size before + size filler + size feed = lines.stop ∧
    (∀ c ∈ filler, isIndent c = true ∨ c = '\r') ∧ (feed = ['\n'] ∨ feed = [] ∧ behind = [])

/-- The indentation at the end of a beginning, and where a line begins before it. -/
theorem exists_indent (before : List Char) :
    ∃ line indent, before = line ++ indent ∧ (∀ c ∈ indent, isIndent c = true) ∧
      size indent = (before.reverse.takeWhile isIndent).length ∧
      ((before.reverse.drop (before.reverse.takeWhile isIndent).length).head?.all (· == '\n') =
        true → line = [] ∨ line.getLast? = some '\n') := by
  have parted : before.reverse.takeWhile isIndent ++ before.reverse.dropWhile isIndent =
      before.reverse := List.takeWhile_append_dropWhile
  have indents : ∀ c ∈ before.reverse.takeWhile isIndent, isIndent c = true := fun c member =>
    List.all_eq_true.mp List.all_takeWhile c member
  have dropped := congrArg (List.drop (before.reverse.takeWhile isIndent).length) parted
  rw [List.drop_left] at dropped
  refine ⟨(before.reverse.dropWhile isIndent).reverse,
    (before.reverse.takeWhile isIndent).reverse, ?_, fun c member => ?_, ?_, fun begins => ?_⟩
  · rw [← List.reverse_append, parted, List.reverse_reverse]
  · exact indents c (List.mem_reverse.mp member)
  · rw [size_reverse]
    exact size_eq_length fun c member => utf8Size_of_isIndent (indents c member)
  · rw [← dropped] at begins
    rw [List.getLast?_reverse, List.reverse_eq_nil_iff]
    cases line : before.reverse.dropWhile isIndent with
    | nil => exact .inl rfl
    | cons c rest => exact .inr (by simpa [line] using begins)

/-- The blanks that may stand between a span and the end of its line. -/
theorem exists_filler (text : List Char) :
    ∃ filler rest, text = filler ++ rest ∧
      text.takeWhile (fun c => isIndent c || c == '\r') = filler ∧
      text.drop filler.length = rest ∧ size filler = filler.length ∧
      ∀ c ∈ filler, isIndent c = true ∨ c = '\r' := by
  let isFiller (c : Char) : Bool := isIndent c || c == '\r'
  have parted : text = text.takeWhile isFiller ++ text.dropWhile isFiller :=
    List.takeWhile_append_dropWhile.symm
  have fills : ∀ c ∈ text.takeWhile isFiller, isIndent c = true ∨ c = '\r' := by
    intro c member
    have accepted := List.all_eq_true.mp List.all_takeWhile c member
    simpa only [isFiller, Bool.or_eq_true, beq_iff_eq] using accepted
  have single : ∀ c ∈ text.takeWhile isFiller, c.utf8Size = 1 := by
    intro c member
    rcases fills c member with indents | rfl
    · exact utf8Size_of_isIndent indents
    · rfl
  refine ⟨_, text.dropWhile isFiller, parted, rfl, ?_, size_eq_length single, fills⟩
  have dropped := congrArg (List.drop (text.takeWhile isFiller).length) parted
  rwa [List.drop_left] at dropped

/-- A span between two boundaries is widened to its lines only if it has them to itself. -/
theorem ownLines_wholeLines {source : List Char} {span : Span}
    (opens : OpensAt source span.start) (closes : ClosesAt source span.stop) :
    wholeLines source span = span ∨ OwnLines source span (wholeLines source span) := by
  obtain ⟨before, first, behind, joined, starts, _⟩ := opens
  obtain ⟨within, last, rest, joined', stops, _⟩ := closes
  have front : around source span.start = (before, first :: behind) := by
    rw [joined, ← starts, around_append]
  have whole : source = (within ++ [last]) ++ rest := by simp [joined']
  have bytes : size (within ++ [last]) = span.stop := by simp [stops]
  have back : around source span.stop = (within ++ [last], rest) := by
    rw [whole, ← bytes, around_append]
  obtain ⟨line, indent, ended, indents, width, begun⟩ := exists_indent before
  obtain ⟨filler, more, parted, taken, dropped, filled, fills⟩ := exists_filler rest
  have indented (begins : (before.reverse.drop
      (before.reverse.takeWhile isIndent).length).head?.all (· == '\n') = true) :
      ∃ before' indent behind, source = before' ++ indent ++ behind ∧
        size before' = span.start - (before.reverse.takeWhile isIndent).length ∧
        size before' + size indent = span.start ∧ (∀ c ∈ indent, isIndent c = true) ∧
        (before' = [] ∨ before'.getLast? = some '\n') := by
    have bytes := congrArg size ended
    rw [size_append, starts] at bytes
    exact ⟨line, indent, first :: behind, by rw [joined, ended], by omega, by omega, indents,
      begun begins⟩
  have pieces : source = (within ++ [last]) ++ filler ++ more := by
    rw [List.append_assoc, ← parted, whole]
  unfold wholeLines
  simp only [front, back, taken, dropped]
  cases more with
  | nil =>
      dsimp only
      split
      · rename_i begins
        exact .inr ⟨indented begins, within ++ [last], filler, [], [], by simpa using pieces,
          bytes, by simp [bytes, filled], fills, .inr ⟨rfl, rfl⟩⟩
      · exact .inl rfl
  | cons c more =>
      dsimp only
      split
      · rename_i ends
        obtain ⟨begins, isFeed⟩ := Bool.and_eq_true_iff.mp ends
        obtain rfl : c = '\n' := by simpa using isFeed
        refine .inr ⟨indented begins, within ++ [last], filler, ['\n'], more,
          by simpa using pieces, bytes, ?_, fills, .inl rfl⟩
        rw [bytes, filled]
        rfl
      · exact .inl rfl

/-- What is gained on its own lines lies around a span. -/
theorem OwnLines.widened {source : List Char} {span lines : Span}
    (own : OwnLines source span lines) : Widened source span lines := by
  obtain ⟨⟨before, indent, behind, joined, starts, stops, indents, _⟩,
    before', filler, feed, behind', joined', starts', stops', fills, ended⟩ := own
  refine ⟨⟨before, indent, behind, joined, starts, stops, indents⟩,
    ⟨before', filler ++ feed, behind', by simp [joined'], starts', ?_, fun c member => ?_⟩, ?_⟩
  · rw [size_append, ← Nat.add_assoc, stops']
  · rcases List.mem_append.mp member with isFiller | isFeed
    · rcases fills c isFiller with indents | rfl
      · exact isBlank_of_isIndent c indents
      · rfl
    · rcases ended with rfl | ⟨rfl, _⟩
      · rw [List.mem_singleton.mp isFeed]
        rfl
      · cases isFeed
  · rcases ended with rfl | ⟨rfl, rfl⟩
    · refine .inr (.inr ⟨before' ++ filler, behind', by simp [joined'], ?_⟩)
      rw [size_append, ← stops']
      rfl
    · refine .inr (.inl ?_)
      rw [joined', ← stops']
      simp

/-- A span between two boundaries and its lines. -/
theorem widened_wholeLines {source : List Char} {span : Span}
    (opens : OpensAt source span.start) (closes : ClosesAt source span.stop) :
    Widened source span (wholeLines source span) := by
  rcases ownLines_wholeLines opens closes with same | own
  · rw [same]
    obtain ⟨before, first, behind, joined, starts, _⟩ := opens
    obtain ⟨within, last, rest, joined', stops, _⟩ := closes
    have whole : source = (within ++ [last]) ++ rest := by simp [joined']
    have bytes : size (within ++ [last]) = span.stop := by simp [stops]
    exact ⟨by rw [joined, ← starts]; exact .none rfl, by rw [whole, ← bytes]; exact .none rfl,
      .inl rfl⟩
  · exact own.widened

/-- The indentation gained before a span does not reach into the lines of a span before it. -/
theorem Widened.le_of_le {source : List Char} {first second firstLines secondLines : Span}
    (before : Widened source first firstLines) (behind : Widened source second secondLines)
    (opens : OpensAt source second.start) (closes : ClosesAt source first.stop)
    (ordered : first.stop ≤ second.start) : firstLines.stop ≤ secondLines.start := by
  have upper : firstLines.stop ≤ second.start := before.blank.not_opensAt opens ordered
  have lower : first.stop ≤ secondLines.start :=
    (behind.indented.mono isBlank_of_isIndent).not_closesAt closes ordered
  rcases before.ended with rfl | ended | ⟨front, rest, joined, ended⟩
  · exact lower
  · have := opens.lt_size
    omega
  · apply Nat.le_of_not_lt
    intro overlap
    have := behind.indented.stop_le_of_refused joined rfl (by omega)
    omega

end StopMotion.Text
