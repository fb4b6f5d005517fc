import StopMotion.Text.CharClass
import StopMotion.Text.Cursor

/-!
# Edges in a text

What is written in a source begins and ends with a character that is not blank. Such
edges are what keeps neighbours apart when a span is widened by the blanks around it: a
stretch of blanks cannot pass over one.
-/

namespace StopMotion

namespace Text

/-- A character that is not blank begins at a byte offset. -/
def OpensAt (source : List Char) (offset : Nat) : Prop :=
  ∃ before c behind, source = before ++ c :: behind ∧ size before = offset ∧ isBlank c = false

/-- A character that is not blank ends at a byte offset. -/
def ClosesAt (source : List Char) (offset : Nat) : Prop :=
  ∃ before c behind, source = before ++ c :: behind ∧ size before + c.utf8Size = offset ∧
    isBlank c = false

/-- Only accepted characters stand between two byte offsets. -/
def Run (accepts : Char → Bool) (source : List Char) (start stop : Nat) : Prop :=
  ∃ before between behind, source = before ++ between ++ behind ∧ size before = start ∧
    size before + size between = stop ∧ ∀ c ∈ between, accepts c = true

/-- Of two cuts of a text the later one goes on behind the earlier one. -/
theorem exists_append_of_size_le {before behind before' behind' : List Char}
    (joined : before ++ behind = before' ++ behind') (bytes : size before ≤ size before') :
    ∃ between, before' = before ++ between ∧ behind = between ++ behind' := by
  rcases List.append_eq_append_iff.mp joined with ⟨between, longer, rest⟩ | ⟨between, longer, rest⟩
  · exact ⟨between, longer, rest⟩
  · have empty : between = [] := by
      rw [← size_eq_zero]
      rw [longer, size_append] at bytes
      omega
    subst empty
    exact ⟨[], by simpa using longer.symm, by simpa using rest.symm⟩

/-- An edge lies inside the text. -/
theorem OpensAt.lt_size {source : List Char} {offset : Nat} (opens : OpensAt source offset) :
    offset < size source := by
  obtain ⟨before, c, behind, rfl, rfl, _⟩ := opens
  have positive := c.utf8Size_pos
  simp only [size_append, size_cons]
  omega

/-- Of two characters that are not blank the one before ends where the other begins, or
before that. -/
theorem OpensAt.exists_closesAt {source : List Char} {offset behind : Nat}
    (opens : OpensAt source offset) (opensBehind : OpensAt source behind)
    (ordered : offset < behind) : ∃ edge, offset < edge ∧ edge ≤ behind ∧ ClosesAt source edge := by
  obtain ⟨before, c, rest, joined, rfl, filled⟩ := opens
  obtain ⟨before', c', rest', joined', rfl, _⟩ := opensBehind
  have positive := c.utf8Size_pos
  refine ⟨size before + c.utf8Size, by omega, ?_, before, c, rest, joined, rfl, filled⟩
  rw [joined] at joined'
  obtain ⟨between, rfl, starts⟩ := exists_append_of_size_le joined' (Nat.le_of_lt ordered)
  cases between with
  | nil => simp at ordered
  | cons first between =>
      obtain ⟨rfl, _⟩ := List.cons.inj starts
      simp only [size_append, size_cons]
      omega

/-- A run of no characters. -/
theorem Run.none {accepts : Char → Bool} {before behind : List Char} {offset : Nat}
    (place : size before = offset) : Run accepts (before ++ behind) offset offset :=
  ⟨before, [], behind, by simp, place, by simpa using place, by simp⟩

/-- More characters may be accepted. -/
theorem Run.mono {accepts accepts' : Char → Bool} {source : List Char} {start stop : Nat}
    (run : Run accepts source start stop) (wider : ∀ c, accepts c = true → accepts' c = true) :
    Run accepts' source start stop := by
  obtain ⟨before, between, behind, joined, starts, stops, accepted⟩ := run
  exact ⟨before, between, behind, joined, starts, stops, fun c member => wider c (accepted c member)⟩

/-- A run does not go back. -/
theorem Run.le {accepts : Char → Bool} {source : List Char} {start stop : Nat}
    (run : Run accepts source start stop) : start ≤ stop := by
  obtain ⟨before, between, behind, _, rfl, rfl, _⟩ := run
  exact Nat.le_add_right _ _

/-- A run ends inside the text. -/
theorem Run.le_size {accepts : Char → Bool} {source : List Char} {start stop : Nat}
    (run : Run accepts source start stop) : stop ≤ size source := by
  obtain ⟨before, between, behind, rfl, _, rfl, _⟩ := run
  simp only [size_append]
  omega

/-- No character that is not accepted begins in a run. -/
theorem Run.stop_le_of_refused {accepts : Char → Bool} {source before behind : List Char}
    {start stop : Nat} {c : Char} (run : Run accepts source start stop)
    (joined : source = before ++ c :: behind) (refused : accepts c = false)
    (atOrBehind : start ≤ size before) : stop ≤ size before := by
  obtain ⟨before', between, behind', joined', rfl, rfl, accepted⟩ := run
  apply Nat.le_of_not_lt
  intro inside
  rw [joined', List.append_assoc] at joined
  obtain ⟨skipped, rfl, rest⟩ := exists_append_of_size_le joined atOrBehind
  obtain ⟨left, rfl, more⟩ := exists_append_of_size_le rest.symm (by
    simp only [size_append] at inside
    omega)
  cases left with
  | nil =>
      simp only [List.append_nil, size_append] at inside
      omega
  | cons first left =>
      obtain ⟨rfl, _⟩ := List.cons.inj more
      have isAccepted := accepted c (by simp)
      rw [refused] at isAccepted
      exact Bool.false_ne_true isAccepted

/-- No character that is not blank begins among blanks. -/
theorem Run.not_opensAt {source : List Char} {start stop offset : Nat}
    (blanks : Run isBlank source start stop) (opens : OpensAt source offset)
    (atOrBehind : start ≤ offset) : stop ≤ offset := by
  obtain ⟨before, c, behind, joined, rfl, filled⟩ := opens
  exact blanks.stop_le_of_refused joined filled atOrBehind

/-- No character that is not blank ends among blanks. -/
theorem Run.not_closesAt {source : List Char} {start stop offset : Nat}
    (blanks : Run isBlank source start stop) (closes : ClosesAt source offset)
    (atOrBefore : offset ≤ stop) : offset ≤ start := by
  obtain ⟨before, c, behind, joined, rfl, filled⟩ := closes
  apply Nat.le_of_not_lt
  intro inside
  have opens : OpensAt source (size before) := ⟨before, c, behind, joined, rfl, filled⟩
  have positive := c.utf8Size_pos
  by_cases isBefore : size before < start
  · -- The character would have to reach over the start of the blanks.
    obtain ⟨before', between, behind', joined', rfl, rfl, _⟩ := blanks
    rw [joined, List.append_assoc] at joined'
    obtain ⟨left, rfl, rest⟩ := exists_append_of_size_le joined' (by omega)
    cases left with
    | nil => simp at isBefore
    | cons first left =>
        obtain ⟨rfl, _⟩ := List.cons.inj rest
        simp only [size_append, size_cons] at inside
        omega
  · have := blanks.not_opensAt opens (by omega)
    omega

end Text

namespace Cursor

/-- `after` is the place behind `taken`, read from `before` on. -/
def Reads (before : Cursor) (taken : List Char) (after : Cursor) : Prop :=
  before.rest = taken ++ after.rest ∧ after.pos = before.pos + Text.size taken

/-- Reading nothing stays in place. -/
theorem Reads.none (cursor : Cursor) : cursor.Reads [] cursor := by
  simp [Reads]

/-- Two readings in a row are one. -/
theorem Reads.trans {first second third : Cursor} {taken more : List Char}
    (before : first.Reads taken second) (behind : second.Reads more third) :
    first.Reads (taken ++ more) third := by
  obtain ⟨rest, pos⟩ := before
  obtain ⟨rest', pos'⟩ := behind
  refine ⟨by rw [rest, rest', List.append_assoc], ?_⟩
  rw [pos', pos, Text.size_append, Nat.add_assoc]

/-- A character before what is read is read with it. -/
theorem Reads.cons {c : Char} {rest taken : List Char} {pos : Nat} {after : Cursor}
    (behind : Reads ⟨rest, pos + c.utf8Size⟩ taken after) :
    Reads ⟨c :: rest, pos⟩ (c :: taken) after := by
  obtain ⟨joined, bytes⟩ := behind
  exact ⟨by simpa using joined, by simpa [Nat.add_assoc] using bytes⟩

/-- A run is read. -/
theorem reads_span (cursor : Cursor) (accepts : Char → Bool) :
    cursor.Reads (cursor.span accepts).1 (cursor.span accepts).2 := by
  simp [Reads, Cursor.span, List.takeWhile_append_dropWhile]

/-- What is skipped is read. -/
theorem reads_skip (cursor : Cursor) (count : Nat) :
    cursor.Reads (cursor.rest.take count) (cursor.skip count) := by
  induction count generalizing cursor with
  | zero => simp [Reads, Cursor.skip]
  | succ count inductionHypothesis =>
      obtain ⟨rest, pos⟩ := cursor
      cases rest with
      | nil => simp [Reads, Cursor.skip]
      | cons c rest =>
          obtain ⟨joined, behind⟩ := inductionHypothesis ⟨rest, pos + c.utf8Size⟩
          refine ⟨by simpa [Cursor.skip] using joined, ?_⟩
          simpa [Cursor.skip, Nat.add_assoc] using behind

variable {source taken : List Char} {before after : Cursor}

/-- What is read from a text stands in it. -/
theorem In.exists_front (place : before.In source) (reads : before.Reads taken after) :
    ∃ front, source = front ++ taken ++ after.rest ∧ Text.size front = before.pos ∧
      Text.size front + Text.size taken = after.pos := by
  obtain ⟨front, joined, bytes⟩ := place
  obtain ⟨rest, pos⟩ := reads
  exact ⟨front, by rw [joined, rest, List.append_assoc], bytes, by rw [bytes, pos]⟩

/-- What is read from a text leads to a place in the same text. -/
theorem In.reads (place : before.In source) (reads : before.Reads taken after) :
    after.In source := by
  obtain ⟨front, joined, _, stops⟩ := place.exists_front reads
  exact ⟨front ++ taken, joined, by rw [Text.size_append, stops]⟩

/-- Reading does not go back. -/
theorem Reads.le (reads : before.Reads taken after) : before.pos ≤ after.pos := by
  have := reads.2
  omega

/-- Reading something goes on. -/
theorem Reads.lt (reads : before.Reads taken after) (filled : taken ≠ []) :
    before.pos < after.pos := by
  have positive : Text.size taken ≠ 0 := mt Text.size_eq_zero.mp filled
  have pos := reads.2
  omega

/-- What is read is no longer left. -/
theorem Reads.length_rest (reads : before.Reads taken after) :
    taken.length + after.rest.length = before.rest.length := by
  rw [reads.1, List.length_append]

/-- A place lies inside its text. -/
theorem In.le_size (place : before.In source) : before.pos ≤ Text.size source := by
  obtain ⟨front, rfl, bytes⟩ := place
  simp only [Text.size_append]
  omega

/-- The place behind the last character is the end of the text. -/
theorem In.pos_eq_size (place : before.In source) (ended : before.rest = []) :
    before.pos = Text.size source := by
  obtain ⟨front, rfl, bytes⟩ := place
  rw [ended, List.append_nil, bytes]

/-- At the end of the text nothing is left. -/
theorem In.rest_eq_nil (place : before.In source) (atEnd : before.pos = Text.size source) :
    before.rest = [] := by
  obtain ⟨front, rfl, bytes⟩ := place
  rw [Text.size_append] at atEnd
  exact Text.size_eq_zero.mp (by omega)

/-- A character that is not blank at the cursor is an edge. -/
theorem In.opensAt {c : Char} {rest : List Char} (place : before.In source)
    (next : before.rest = c :: rest) (filled : Text.isBlank c = false) :
    Text.OpensAt source before.pos := by
  obtain ⟨front, joined, bytes⟩ := place
  exact ⟨front, c, rest, by rw [joined, next], bytes, filled⟩

/-- A character that is not blank just before the cursor is an edge. -/
theorem In.closesAt {c : Char} (place : before.In source) (reads : before.Reads taken after)
    (last : taken.getLast? = some c) (filled : Text.isBlank c = false) :
    Text.ClosesAt source after.pos := by
  obtain ⟨front, joined, _, stops⟩ := place.exists_front reads
  obtain ⟨init, rfl⟩ := List.getLast?_eq_some_iff.mp last
  refine ⟨front ++ init, c, after.rest, by simp [joined], ?_, filled⟩
  simp only [Text.size_append, Text.size_cons, Text.size_nil] at stops ⊢
  omega

end Cursor

end StopMotion
