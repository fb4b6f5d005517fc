import StopMotion.Proofs.Text.Edge
import StopMotion.Syntax.Token.Lexer

/-!
# Where tokens stand

Every way of reading a token passes over a stretch of the source and leaves a place in it.
Before the token there are only blanks, byte order marks and whole comments. A token but the
end of input begins and ends with a character that is not blank, and a punctuator stands where
its spelling stands, so that the first character of a longer one can be split off.
-/

namespace StopMotion.Syntax

open Text (isBlank OpensAt ClosesAt)

/-! ## Characters that are not blank -/

/-- No letter or numeral of the tables is a blank of the tables. -/
private theorem blankRanges_apart :
    (Text.alphabeticRanges ++ Text.numericRanges).all (fun range =>
      Text.blankRanges.all fun blank =>
        decide (range.2 ≤ blank.1) || decide (blank.2 ≤ range.1)) = true := by
  decide +kernel

/-- A code point of the letters or numerals is not one of the blanks. -/
theorem not_inRanges_blank {code : Nat}
    (found : Text.inRanges (Text.alphabeticRanges ++ Text.numericRanges) code = true) :
    Text.inRanges Text.blankRanges code = false := by
  simp only [Text.inRanges, List.any_eq_true, Bool.and_eq_true, decide_eq_true_eq] at found
  obtain ⟨range, listed, above, below⟩ := found
  simp only [Text.inRanges, List.any_eq_false, Bool.and_eq_true, decide_eq_true_eq]
  intro blank isBlank inside
  have apart := List.all_eq_true.mp blankRanges_apart range listed
  have apart := List.all_eq_true.mp apart blank isBlank
  simp only [Bool.or_eq_true, decide_eq_true_eq] at apart
  omega

/-- An ASCII character from `!` on is not blank. -/
theorem not_blank_of_ascii {c : Char} (above : 0x20 < c.toNat) (below : c.toNat < 0x80) :
    isBlank c = false := by
  have notSpace : c ≠ ' ' := by
    rintro rfl
    exact absurd above (by decide)
  simp [isBlank, notSpace]
  omega

/-- A letter or digit is not blank. -/
theorem not_blank_of_isAlphanum {c : Char} (plain : c.isAlphanum = true) : isBlank c = false := by
  change ((decide ('A'.val ≤ c.val ∧ c.val ≤ 'Z'.val) ||
    (decide ('a'.val ≤ c.val) && decide (c.val ≤ 'z'.val))) ||
      (decide ('0'.val ≤ c.val) && decide (c.val ≤ '9'.val))) = true at plain
  simp only [Bool.or_eq_true, Bool.and_eq_true, decide_eq_true_eq, UInt32.le_iff_toNat_le] at plain
  have code : c.toNat = c.val.toNat := rfl
  apply not_blank_of_ascii <;> simp at plain <;> omega

/-- A character of the tables of letters and numerals is not blank. -/
theorem not_blank_of_inRanges {c : Char} (above : 0x80 ≤ c.toNat)
    (found : Text.inRanges (Text.alphabeticRanges ++ Text.numericRanges) c.toNat = true) :
    isBlank c = false := by
  have notSpace : c ≠ ' ' := by
    rintro rfl
    exact absurd above (by decide)
  simp [isBlank, notSpace, not_inRanges_blank found]
  omega

/-- A character that goes on a name is not blank. -/
theorem not_blank_of_continuesName {c : Char} (goesOn : continuesName c = true) :
    isBlank c = false := by
  simp only [continuesName, Text.isAlphabetic, Text.isNumeric, Bool.or_eq_true, beq_iff_eq,
    Bool.and_eq_true, decide_eq_true_eq] at goesOn
  have inTables {left right : List (Nat × Nat)} {code : Nat} :
      Text.inRanges (left ++ right) code = (Text.inRanges left code || Text.inRanges right code) :=
    List.any_append
  rcases goesOn with
    ((((rfl | rfl) | letter | ⟨above, letter⟩) | digit | ⟨above, numeral⟩) | join) | join
  · decide
  · decide
  · exact not_blank_of_isAlphanum (by simp [Char.isAlphanum, letter])
  · exact not_blank_of_inRanges above (by simp [inTables, letter])
  · exact not_blank_of_isAlphanum (by simp [Char.isAlphanum, digit])
  · exact not_blank_of_inRanges above (by simp [inTables, numeral])
  · obtain rfl : c = Char.ofNat 0x200c := by rw [← join, Char.ofNat_toNat]
    decide
  · obtain rfl : c = Char.ofNat 0x200d := by rw [← join, Char.ofNat_toNat]
    decide

/-- A digit of a radix up to sixteen is not blank. -/
theorem not_blank_of_isDigitOf {radix : Nat} {c : Char} (bounded : radix ≤ 16)
    (digit : isDigitOf radix c = true) : isBlank c = false := by
  have code : c.toNat = c.val.toNat := rfl
  unfold isDigitOf at digit
  split at digit
  · rename_i plain
    exact not_blank_of_isAlphanum (by simp [Char.isAlphanum, plain])
  · split at digit
    · rename_i letter
      simp only [Char.le_def, UInt32.le_iff_toNat_le] at letter
      apply not_blank_of_ascii <;> simp at letter <;> omega
    · split at digit
      · rename_i letter
        simp only [Char.le_def, UInt32.le_iff_toNat_le] at letter
        apply not_blank_of_ascii <;> simp at letter <;> omega
      · simp at digit
        omega

/-! ## Stretches of text -/

/-- Text without blanks. -/
def Solid (taken : List Char) : Prop := ∀ c ∈ taken, isBlank c = false

/-- Text that ends with a character that is not blank. -/
def Closed (taken : List Char) : Prop := ∃ c, taken.getLast? = some c ∧ isBlank c = false

theorem Solid.append {left right : List Char} (first : Solid left) (second : Solid right) :
    Solid (left ++ right) := by
  intro c member
  rcases List.mem_append.mp member with inLeft | inRight
  · exact first c inLeft
  · exact second c inRight

/-- Text without blanks is closed, if there is any. -/
theorem Solid.closed {taken : List Char} (solid : Solid taken) (filled : taken ≠ []) :
    Closed taken :=
  ⟨taken.getLast filled, List.getLast?_eq_some_getLast filled,
    solid _ (List.getLast_mem filled)⟩

/-- What stands before closed text does not matter. -/
theorem Closed.append {left right : List Char} (closed : Closed right) :
    Closed (left ++ right) := by
  obtain ⟨c, last, filled⟩ := closed
  exact ⟨c, by simp [List.getLast?_append, last], filled⟩

/-- A run of characters none of which is blank. -/
theorem solid_takeWhile {accepts : Char → Bool} {text : List Char}
    (filled : ∀ c, accepts c = true → isBlank c = false) : Solid (text.takeWhile accepts) := by
  intro c member
  exact filled c (List.all_eq_true.mp List.all_takeWhile c member)

/-! ## Numbers -/

/-- Only text without blanks stands between two places. -/
def ReadsSolid (before after : Cursor) : Prop :=
  ∃ taken, before.Reads taken after ∧ Solid taken

theorem ReadsSolid.none (cursor : Cursor) : ReadsSolid cursor cursor :=
  ⟨[], .none cursor, by simp [Solid]⟩

theorem ReadsSolid.trans {first second third : Cursor} (before : ReadsSolid first second)
    (behind : ReadsSolid second third) : ReadsSolid first third := by
  obtain ⟨taken, reads, solid⟩ := before
  obtain ⟨more, readsMore, solidMore⟩ := behind
  exact ⟨taken ++ more, reads.trans readsMore, solid.append solidMore⟩

/-- A run of characters none of which is blank is read. -/
theorem readsSolid_span {cursor : Cursor} {accepts : Char → Bool}
    (filled : ∀ c, accepts c = true → isBlank c = false) :
    ReadsSolid cursor (cursor.span accepts).2 :=
  ⟨_, cursor.reads_span accepts, solid_takeWhile filled⟩

/-- A character that is not blank is skipped. -/
theorem readsSolid_skip_one {cursor : Cursor} {c : Char} {rest : List Char}
    (next : cursor.rest = c :: rest) (filled : isBlank c = false) :
    ReadsSolid cursor (cursor.skip 1) := by
  refine ⟨_, cursor.reads_skip 1, ?_⟩
  simp [next, Solid, filled]

/-- A skipped character moves the cursor. -/
theorem pos_skip_one {cursor : Cursor} {c : Char} {rest : List Char}
    (next : cursor.rest = c :: rest) : (cursor.skip 1).pos = cursor.pos + c.utf8Size := by
  obtain ⟨_, pos⟩ := cursor
  subst next
  rfl

theorem readsSolid_skipBigSuffix (cursor : Cursor) : ReadsSolid cursor (skipBigSuffix cursor) := by
  unfold skipBigSuffix
  split
  · rename_i suffix
    obtain ⟨rest, next⟩ := List.head?_eq_some_iff.mp suffix
    exact readsSolid_skip_one next (by decide)
  · exact .none cursor

theorem not_blank_of_digit_or_separator (c : Char) (accepted : (c.isDigit || c == '_') = true) :
    isBlank c = false := by
  simp only [Bool.or_eq_true, beq_iff_eq] at accepted
  rcases accepted with digit | rfl
  · exact not_blank_of_isAlphanum (by simp [Char.isAlphanum, digit])
  · decide

theorem readsSolid_scanDigits (cursor : Cursor) : ReadsSolid cursor (scanDigits cursor).2 :=
  readsSolid_span not_blank_of_digit_or_separator

theorem readsSolid_scanRadix {radix start : Nat} {cursor after : Cursor} {value : Float}
    (bounded : radix ≤ 16) (read : scanRadix radix start cursor = .ok (value, after)) :
    ReadsSolid cursor after := by
  simp only [scanRadix] at read
  split at read
  · cases read
  · simp only [Except.ok.injEq, Prod.mk.injEq] at read
    obtain ⟨_, rfl⟩ := read
    refine (readsSolid_span fun c accepted => ?_).trans (readsSolid_skipBigSuffix _)
    simp only [Bool.or_eq_true, beq_iff_eq] at accepted
    rcases accepted with digit | rfl
    · exact not_blank_of_isDigitOf bounded digit
    · decide

theorem readsSolid_scanExponent {cursor after : Cursor} {taken : List Char}
    (read : scanExponent cursor = .ok (taken, after)) : ReadsSolid cursor after := by
  unfold scanExponent at read
  split at read
  · rename_i mark rest next
    split at read
    · rename_i isMark
      simp only at read
      split at read
      · cases read
      · simp only [Except.ok.injEq, Prod.mk.injEq] at read
        obtain ⟨_, rfl⟩ := read
        refine ReadsSolid.trans ⟨_, cursor.reads_skip _, ?_⟩ (readsSolid_scanDigits _)
        have signs : Solid (rest.takeWhile fun c => c == '+' || c == '-') :=
          solid_takeWhile fun c sign => by
            simp only [Bool.or_eq_true, beq_iff_eq] at sign
            rcases sign with rfl | rfl <;> decide
        have leading : ((rest.takeWhile fun c => c == '+' || c == '-').take 1) <+: rest :=
          (List.take_prefix ..).trans (List.takeWhile_prefix _)
        rw [next, Nat.add_comm, List.take_succ_cons, ← List.prefix_iff_eq_take.mp leading]
        intro c member
        rcases List.mem_cons.mp member with rfl | sign
        · rcases isMark with rfl | rfl <;> decide
        · exact signs c (List.mem_of_mem_take sign)
    · cases read
      exact .none cursor
  · cases read
    exact .none cursor

/-- Digits are read up to a place behind the first of them. -/
theorem pos_lt_scanDigits {cursor : Cursor} {c : Char} {rest : List Char}
    (next : cursor.rest = c :: rest) (digit : c.isDigit = true) :
    cursor.pos < (scanDigits cursor).2.pos := by
  have positive := c.utf8Size_pos
  simp only [scanDigits, Cursor.span, next, List.takeWhile_cons, digit, Bool.true_or, if_true,
    Text.size_cons]
  omega

/-- A decimal number is read up to a place behind its first character. -/
theorem readsSolid_scanDecimal {cursor after : Cursor} {value : Float} {c : Char}
    {rest : List Char} (next : cursor.rest = c :: rest) (begins : c.isDigit = true ∨ c = '.')
    (read : scanDecimal cursor = .ok (value, after)) :
    ReadsSolid cursor after ∧ cursor.pos < after.pos := by
  have whole := readsSolid_scanDigits cursor
  simp only [scanDecimal, bind, Except.bind] at read
  split at read
  · cases read
  · rename_i exponent scanned
    split at read
    · cases read
    · split at read
      · simp only [Except.ok.injEq, Prod.mk.injEq] at read
        obtain ⟨_, rfl⟩ := read
        have tail {place : Cursor} (scanned : scanExponent place = .ok exponent) :=
          (readsSolid_scanExponent scanned).trans (readsSolid_skipBigSuffix _)
        split at scanned
        · rename_i more fraction
          have point := pos_skip_one fraction
          have pointed :=
            (readsSolid_skip_one fraction (by decide)).trans (readsSolid_scanDigits _)
          refine ⟨whole.trans (pointed.trans (tail scanned)), ?_⟩
          obtain ⟨_, reads, _⟩ := whole
          obtain ⟨_, readsMore, _⟩ := (readsSolid_scanDigits _).trans (tail scanned)
          have := reads.le
          have := readsMore.le
          have := '.'.utf8Size_pos
          omega
        · rename_i pointless
          refine ⟨whole.trans (tail scanned), ?_⟩
          obtain ⟨_, readsMore, _⟩ := tail scanned
          have : (scanDigits cursor).2.pos ≤ _ := readsMore.le
          rcases begins with digit | rfl
          · have := pos_lt_scanDigits next digit
            omega
          · refine absurd ?_ (pointless rest)
            simp [scanDigits, Cursor.span, next]
      · cases read

/-- A number is read up to a place behind its first character. -/
theorem readsSolid_scanNumber {cursor after : Cursor} {value : Float} {c : Char}
    {rest : List Char} (next : cursor.rest = c :: rest) (begins : c.isDigit = true ∨ c = '.')
    (read : scanNumber cursor = .ok (value, after)) :
    ReadsSolid cursor after ∧ cursor.pos < after.pos := by
  unfold scanNumber at read
  split at read
  · rename_i letter more prefixed
    split at read
    · rename_i radix isRadix
      have bounded : radix ≤ 16 ∧ isBlank letter = false := by
        simp only [radixOf?] at isRadix
        split at isRadix
        · rename_i letters
          cases isRadix
          rcases letters with rfl | rfl <;> decide
        · split at isRadix
          · rename_i letters
            cases isRadix
            rcases letters with rfl | rfl <;> decide
          · split at isRadix
            · rename_i letters
              cases isRadix
              rcases letters with rfl | rfl <;> decide
            · cases isRadix
      have digits := readsSolid_scanRadix bounded.1 read
      refine ⟨ReadsSolid.trans ⟨_, cursor.reads_skip 2, ?_⟩ digits, ?_⟩
      · simp [prefixed, Solid, bounded.2]
        decide
      · obtain ⟨_, reads, _⟩ := digits
        have := reads.le
        have positive := '0'.utf8Size_pos
        have moved := (cursor.reads_skip 2).2
        simp only [prefixed, List.take_succ_cons, Text.size_cons] at moved
        omega
    · exact readsSolid_scanDecimal next begins read
  · exact readsSolid_scanDecimal next begins read

/-! ## Strings, templates and regular expressions -/

/-- A stretch that ends with a character that is not blank stands between two places. -/
def ReadsClosed (before after : Cursor) : Prop :=
  ∃ taken, before.Reads taken after ∧ Closed taken

/-- A character before a closed stretch belongs to the stretch. -/
theorem ReadsClosed.cons {c : Char} {rest : List Char} {pos : Nat} {after : Cursor}
    (behind : ReadsClosed ⟨rest, pos + c.utf8Size⟩ after) : ReadsClosed ⟨c :: rest, pos⟩ after := by
  obtain ⟨taken, reads, closed⟩ := behind
  exact ⟨c :: taken, reads.cons, (closed.append : Closed ([c] ++ taken))⟩

/-- A closed stretch of one character. -/
theorem readsClosed_one {c : Char} {rest : List Char} {pos : Nat} (filled : isBlank c = false) :
    ReadsClosed ⟨c :: rest, pos⟩ ⟨rest, pos + c.utf8Size⟩ :=
  ⟨[c], by simp [Cursor.Reads], c, rfl, filled⟩

/-- A string literal is read up to its closing quote. -/
theorem readsClosed_scanString {quote : Char} {start skip pos : Nat} {read text : List Char}
    {value : String} {after : Cursor} (filled : isBlank quote = false)
    (scanned : scanString quote start skip pos read text = .ok (value, after)) :
    ReadsClosed ⟨text, pos⟩ after := by
  fun_induction scanString quote start skip pos read text with
  | case1 | case3 | case4 => cases scanned
  | case2 _ _ _ _ _ inductionHypothesis => exact (inductionHypothesis scanned).cons
  | case5 =>
      rename_i inductionHypothesis
      exact (inductionHypothesis scanned).cons
  | case6 =>
      cases scanned
      exact readsClosed_one filled
  | case7 =>
      rename_i inductionHypothesis
      exact (inductionHypothesis scanned).cons

/-- A template chunk is read up to its closing backtick or the brace of a substitution. -/
theorem readsClosed_scanChunk {start skip pos : Nat} {read text : List Char}
    {chunk : String × Bool} {after : Cursor}
    (scanned : scanChunk start skip pos read text = .ok (chunk, after)) :
    ReadsClosed ⟨text, pos⟩ after := by
  fun_induction scanChunk start skip pos read text with
  | case1 => cases scanned
  | case2 _ _ _ _ _ inductionHypothesis => exact (inductionHypothesis scanned).cons
  | case3 =>
      cases scanned
      exact readsClosed_one (by decide)
  | case4 =>
      rename_i opens
      obtain ⟨rest, joined⟩ := List.head?_eq_some_iff.mp opens.2
      cases scanned
      rw [opens.1, joined]
      exact ReadsClosed.cons (readsClosed_one (by decide))
  | case5 => cases scanned
  | case6 =>
      rename_i inductionHypothesis
      exact (inductionHypothesis scanned).cons
  | case7 =>
      rename_i inductionHypothesis
      exact (inductionHypothesis scanned).cons

/-- A regular expression is read up to its closing slash. -/
theorem readsClosed_scanRegex {start pos : Nat} {escaped inClass : Bool} {text : List Char}
    {after : Cursor} (scanned : scanRegex start escaped inClass pos text = .ok after) :
    ReadsClosed ⟨text, pos⟩ after := by
  fun_induction scanRegex start escaped inClass pos text with
  | case1 | case3 => cases scanned
  | case7 =>
      rename_i closes
      cases scanned
      rw [closes.1]
      exact readsClosed_one (by decide)
  | _ =>
      rename_i inductionHypothesis
      exact (inductionHypothesis scanned).cons

/-! ## Blanks and comments -/

/-- Text that holds nothing but blanks, byte order marks and whole comments; `behind` is what stands
behind it. A line comment takes up the rest of its line, and a block comment ends with the first
mark that closes it. -/
inductive Idle (behind : List Char) : List Char → Prop where
  | none : Idle behind []
  | blank {c : Char} {rest : List Char} (skipped : isBlank c = true ∨ c = '\ufeff')
      (idle : Idle behind rest) : Idle behind (c :: rest)
  | lineComment {body rest : List Char} (inLine : '\n' ∉ body)
      (ends : rest.head? = some '\n' ∨ rest ++ behind = []) (idle : Idle behind rest) :
      Idle behind ('/' :: '/' :: (body ++ rest))
  | blockComment {body rest : List Char} (inComment : ¬ ['*', '/'] <:+: body ++ ['*'])
      (idle : Idle behind rest) : Idle behind ('/' :: '*' :: (body ++ '*' :: '/' :: rest))

/-- The rest of a line comment, and idle text behind it. -/
def EndsLineComment (behind taken : List Char) : Prop :=
  ∃ body rest, taken = body ++ rest ∧ '\n' ∉ body ∧
    (rest.head? = some '\n' ∨ rest ++ behind = []) ∧ Idle behind rest

/-- The rest of a block comment, and idle text behind it. -/
def EndsBlockComment (behind taken : List Char) : Prop :=
  ∃ body rest, taken = body ++ '*' :: '/' :: rest ∧ ¬ ['*', '/'] <:+: body ++ ['*'] ∧
    Idle behind rest

/-- What is passed over from a state on. Next to a mark of a block comment the source goes on with
a character of the mark. -/
def Trivia.Passes (behind taken : List Char) : Trivia → Prop
  | .blank => Idle behind taken
  | .lineComment => EndsLineComment behind taken
  | .commentOpening _ => taken ++ behind ≠ [] → ∃ c rest, taken = c :: rest ∧
      EndsBlockComment behind rest
  | .blockComment _ => EndsBlockComment behind taken
  | .commentClosing => taken ++ behind ≠ [] → ∃ c rest, taken = c :: rest ∧ Idle behind rest

/-- What ends a line is blank. -/
theorem isBlank_of_endsLine {c : Char} (ends : endsLine c = true) : isBlank c = true := by
  simp only [endsLine, Bool.or_eq_true, beq_iff_eq] at ends
  rcases ends with ((rfl | rfl) | code) | code
  · decide
  · decide
  · obtain rfl : c = Char.ofNat 0x2028 := by rw [← code, Char.ofNat_toNat]
    decide
  · obtain rfl : c = Char.ofNat 0x2029 := by rw [← code, Char.ofNat_toNat]
    decide

/-- A character before the rest of a block comment belongs to the comment, unless it is the star of
the closing mark. -/
theorem EndsBlockComment.cons {behind taken : List Char} {c : Char}
    (ends : EndsBlockComment behind taken)
    (goesOn : ¬ (c = '*' ∧ (taken ++ behind).head? = some '/')) :
    EndsBlockComment behind (c :: taken) := by
  obtain ⟨body, rest, rfl, inComment, idle⟩ := ends
  refine ⟨c :: body, rest, rfl, fun closes => ?_, idle⟩
  rcases List.infix_cons_iff.mp closes with begins | inside
  · obtain ⟨rfl, slash⟩ := List.cons_prefix_cons.mp begins
    refine goesOn ⟨rfl, ?_⟩
    cases body with
    | nil => exact absurd slash (by decide)
    | cons first body =>
        obtain ⟨rfl, _⟩ := List.cons_prefix_cons.mp slash
        rfl
  · exact inComment inside

/-- A line comment that opens with two slashes. -/
theorem EndsLineComment.idle {behind taken : List Char} (ends : EndsLineComment behind taken)
    (opens : (taken ++ behind).head? = some '/') : Idle behind ('/' :: taken) := by
  obtain ⟨body, rest, rfl, inLine, atEnd, idle⟩ := ends
  cases body with
  | nil =>
      rcases atEnd with newline | ended
      · simp [newline] at opens
      · simp [ended] at opens
  | cons first body =>
      obtain rfl : first = '/' := by simpa using opens
      exact .lineComment (fun inBody => inLine (List.mem_cons_of_mem _ inBody)) atEnd idle

/-- Nothing but blanks, byte order marks and comments is skipped. Behind them the source has ended
or goes on with a character that is not blank. -/
theorem reads_skipTrivia {state : Trivia} {newline newline' : Bool} {pos : Nat} {text : List Char}
    {after : Cursor} (skipped : skipTrivia state newline pos text = .ok (newline', after)) :
    (∃ taken, Cursor.Reads ⟨text, pos⟩ taken after ∧ state.Passes after.rest taken) ∧
      ∀ c rest, after.rest = c :: rest → isBlank c = false := by
  fun_induction skipTrivia state newline pos text with
  | case1 => cases skipped
  | case2 state newline pos notInside =>
      cases skipped
      refine ⟨⟨[], .none _, ?_⟩, by simp⟩
      cases state with
      | blank => exact .none
      | lineComment => exact ⟨[], [], rfl, List.not_mem_nil, .inr rfl, .none⟩
      | commentOpening => exact fun goesOn => absurd rfl goesOn
      | blockComment start => exact absurd rfl (notInside start)
      | commentClosing => exact fun goesOn => absurd rfl goesOn
  | case3 newline pos rest behind inductionHypothesis =>
      obtain ⟨⟨taken, reads, idle⟩, filled⟩ := inductionHypothesis skipped
      exact ⟨⟨_, reads.cons, [], _, rfl, List.not_mem_nil, .inl rfl,
        .blank (.inl (by decide)) idle⟩, filled⟩
  | case4 newline pos c rest behind notNewline inductionHypothesis =>
      obtain ⟨⟨taken, reads, body, rest', rfl, inLine, ends, idle⟩, filled⟩ :=
        inductionHypothesis skipped
      have inLine : '\n' ∉ c :: body := fun inBody =>
        (List.mem_cons.mp inBody).elim (fun same => notNewline same.symm) inLine
      exact ⟨⟨_, reads.cons, c :: body, rest', rfl, inLine, ends, idle⟩, filled⟩
  | case5 newline pos c rest behind start inductionHypothesis =>
      obtain ⟨⟨taken, reads, ends⟩, filled⟩ := inductionHypothesis skipped
      exact ⟨⟨_, reads.cons, fun _ => ⟨c, taken, rfl, ends⟩⟩, filled⟩
  | case6 newline pos c rest behind start closes inductionHypothesis =>
      obtain ⟨⟨taken, reads, passes⟩, filled⟩ := inductionHypothesis skipped
      obtain ⟨rfl, slash⟩ := closes
      obtain rfl : rest = taken ++ after.rest := reads.1
      obtain ⟨c, rest', rfl, idle⟩ := passes (fun ended => by simp [ended] at slash)
      obtain rfl : c = '/' := by simpa using slash
      exact ⟨⟨_, reads.cons, [], rest', rfl, by decide, idle⟩, filled⟩
  | case7 newline pos c rest behind start goesOn inductionHypothesis =>
      obtain ⟨⟨taken, reads, ends⟩, filled⟩ := inductionHypothesis skipped
      obtain rfl : rest = taken ++ after.rest := reads.1
      exact ⟨⟨_, reads.cons, EndsBlockComment.cons ends goesOn⟩, filled⟩
  | case8 newline pos c rest behind inductionHypothesis =>
      obtain ⟨⟨taken, reads, idle⟩, filled⟩ := inductionHypothesis skipped
      exact ⟨⟨_, reads.cons, fun _ => ⟨c, taken, rfl, idle⟩⟩, filled⟩
  | case9 newline pos c rest behind ends inductionHypothesis =>
      obtain ⟨⟨taken, reads, idle⟩, filled⟩ := inductionHypothesis skipped
      exact ⟨⟨_, reads.cons, .blank (.inl (isBlank_of_endsLine ends)) idle⟩, filled⟩
  | case10 newline pos c rest behind _ blank inductionHypothesis =>
      obtain ⟨⟨taken, reads, idle⟩, filled⟩ := inductionHypothesis skipped
      refine ⟨⟨_, reads.cons, .blank ((Bool.or_eq_true _ _ ▸ blank).imp_right fun mark => ?_) idle⟩,
        filled⟩
      rw [← Char.ofNat_toNat c, beq_iff_eq.mp mark]
  | case11 newline pos c rest behind _ _ opens inductionHypothesis =>
      obtain ⟨⟨taken, reads, ends⟩, filled⟩ := inductionHypothesis skipped
      obtain ⟨rfl, slash⟩ := opens
      obtain rfl : rest = taken ++ after.rest := reads.1
      exact ⟨⟨_, reads.cons, EndsLineComment.idle ends slash⟩, filled⟩
  | case12 newline pos c rest behind _ _ _ opens inductionHypothesis =>
      obtain ⟨⟨taken, reads, passes⟩, filled⟩ := inductionHypothesis skipped
      obtain ⟨rfl, star⟩ := opens
      obtain rfl : rest = taken ++ after.rest := reads.1
      obtain ⟨c, inside, rfl, body, rest', rfl, inComment, idle⟩ :=
        passes (fun ended => by simp [ended] at star)
      obtain rfl : c = '*' := by simpa using star
      exact ⟨⟨_, reads.cons, .blockComment inComment idle⟩, filled⟩
  | case13 newline pos c rest notLine notBlank =>
      cases skipped
      refine ⟨⟨[], .none _, .none⟩, fun c rest next => ?_⟩
      cases next
      simp only [Bool.or_eq_true, not_or, Bool.not_eq_true] at notBlank
      exact notBlank.1

/-! ## Tokens -/

/-- A punctuator is spelled without blanks. -/
theorem solid_punct (punct : Punct) : Solid punct.text.toList ∧ punct.text.toList ≠ [] := by
  have spelled : punct.text.toList.all (fun c => !isBlank c) = true ∧ punct.text.toList ≠ [] := by
    cases punct <;> decide
  refine ⟨fun c member => ?_, spelled.2⟩
  simpa using List.all_eq_true.mp spelled.1 c member

/-- How a word or punctuator is spelled. -/
def TokenKind.spelling? : TokenKind → Option String
  | .word text => some text
  | .punct found => some found.text
  | _ => none

/-- A kind of token is read from one place to another: the stretch between ends with a
character that is not blank, and it spells the word or punctuator that it is. -/
def ReadsKind (before : Cursor) (kind : TokenKind) (after : Cursor) : Prop :=
  ∃ taken, before.Reads taken after ∧ Closed taken ∧ kind.isEnd = false ∧
    ∀ text, kind.spelling? = some text → taken = text.toList

/-- A closed stretch reads any kind of token but a word, a punctuator or the end. -/
theorem ReadsClosed.readsKind {before after : Cursor} {kind : TokenKind}
    (closed : ReadsClosed before after) (goesOn : kind.isEnd = false)
    (unspelled : kind.spelling? = none) : ReadsKind before kind after := by
  obtain ⟨taken, reads, closed⟩ := closed
  exact ⟨taken, reads, closed, goesOn, by simp [unspelled]⟩

/-- A stretch without blanks is closed, if there is any of it. -/
theorem ReadsSolid.readsClosed {before after : Cursor} (solid : ReadsSolid before after)
    (moved : before.pos < after.pos) : ReadsClosed before after := by
  obtain ⟨taken, reads, solid⟩ := solid
  refine ⟨taken, reads, solid.closed ?_⟩
  rintro rfl
  have := reads.2
  simp at this
  omega

/-- A closed stretch behind a stretch without blanks, or none behind it. -/
theorem ReadsClosed.trans_solid {first second third : Cursor} (before : ReadsClosed first second)
    (behind : ReadsSolid second third) : ReadsClosed first third := by
  obtain ⟨taken, reads, closed⟩ := before
  obtain ⟨more, readsMore, solid⟩ := behind
  refine ⟨taken ++ more, reads.trans readsMore, ?_⟩
  cases more with
  | nil => simpa using closed
  | cons c rest => exact (solid.closed (by simp)).append

/-- A word is read as its characters, none of which is blank. -/
theorem readsKind_word {before after : Cursor} {taken : List Char}
    (reads : before.Reads taken after) (solid : Solid taken) (filled : taken ≠ []) :
    ReadsKind before (.word (String.ofList taken)) after := by
  refine ⟨taken, reads, solid.closed filled, rfl, ?_⟩
  rintro _ ⟨⟩
  simp

/-- A name is read where a character begins one. -/
theorem readsKind_name {cursor : Cursor} {accepts : Char → Bool} {c : Char} {rest : List Char}
    (next : cursor.rest = c :: rest) (accepted : accepts c = true)
    (filled : ∀ c, accepts c = true → isBlank c = false) :
    ReadsKind cursor (.word (String.ofList (cursor.span accepts).1)) (cursor.span accepts).2 := by
  apply readsKind_word (cursor.reads_span accepts) (solid_takeWhile filled)
  simp [Cursor.span, next, accepted]

/-- A punctuator that the text begins with is read. -/
theorem readsKind_punct {cursor : Cursor} {candidates : List Punct} {punct : Punct}
    (found : Punct.first? candidates cursor.rest = some punct) :
    ReadsKind cursor (.punct punct) (cursor.skip punct.text.length) := by
  have begins : punct.text.toList <+: cursor.rest := by
    simpa using List.find?_some found
  have taken := cursor.reads_skip punct.text.length
  rw [← String.length_toList, ← List.prefix_iff_eq_take.mp begins] at taken
  refine ⟨_, taken, (solid_punct punct).1.closed (solid_punct punct).2, rfl, ?_⟩
  rintro _ ⟨⟩
  rfl

/-- A character that begins a name goes on it. -/
theorem continuesName_of_startsName {c : Char} (starts : startsName c = true) :
    continuesName c = true := by
  simp only [startsName, continuesName, Bool.or_eq_true] at starts ⊢
  exact .inl (.inl (.inl starts))

/-- The kind of an ordinary token is read. -/
theorem readsKind_readKind {regexMayFollow : Bool} {cursor after : Cursor} {c : Char}
    {rest : List Char} {kind : TokenKind} (next : cursor.rest = c :: rest)
    (read : readKind regexMayFollow cursor c rest = .ok (kind, after)) :
    ReadsKind cursor kind after := by
  obtain ⟨_, pos⟩ := cursor
  subst next
  simp only [readKind, bind, Except.bind] at read
  split at read
  · rename_i starts
    cases read
    exact readsKind_name rfl (continuesName_of_startsName starts)
      fun _ => not_blank_of_continuesName
  split at read
  · rename_i mark
    cases read
    obtain rfl := mark.1
    let start : Cursor := ⟨'#' :: rest, pos⟩
    have mark : start.Reads ['#'] (start.skip 1) := start.reads_skip 1
    have name := (start.skip 1).reads_span continuesName
    have solid : Solid ['#'] := by simp [Solid, isBlank]
    exact readsKind_word (mark.trans name)
      (solid.append (solid_takeWhile fun _ => not_blank_of_continuesName)) (by simp)
  split at read
  · rename_i digit
    split at read
    · cases read
    · rename_i number scanned
      cases read
      obtain ⟨solid, moved⟩ := readsSolid_scanNumber rfl
        (digit.imp id fun point => point.1) scanned
      exact (solid.readsClosed moved).readsKind rfl rfl
  split at read
  · rename_i quote
    split at read
    · cases read
    · rename_i text scanned
      cases read
      have filled : isBlank c = false ∧ c.utf8Size = 1 := by rcases quote with rfl | rfl <;> decide
      refine (ReadsClosed.cons ?_).readsKind rfl rfl
      rw [filled.2]
      exact readsClosed_scanString filled.1 scanned
  split at read
  · rename_i backtick
    split at read
    · cases read
    · rename_i chunk scanned
      cases read
      subst backtick
      exact (ReadsClosed.cons (readsClosed_scanChunk scanned)).readsKind rfl rfl
  split at read
  · rename_i slash
    split at read
    · cases read
    · rename_i place scanned
      cases read
      obtain rfl := slash.1
      exact ((ReadsClosed.cons (readsClosed_scanRegex scanned)).trans_solid
        (readsSolid_span fun _ => not_blank_of_continuesName)).readsKind rfl rfl
  split at read
  · cases read
  · rename_i found
    split at read
    · cases read
      have begins : Punct.optionalDot.text.toList <+: c :: rest := by
        simpa using List.find?_some found
      obtain ⟨behind, joined⟩ := begins
      obtain ⟨rfl, _⟩ := List.cons.inj joined
      refine ⟨['?'], ?_, ⟨'?', rfl, by decide⟩, rfl, ?_⟩
      · exact Cursor.reads_skip ⟨'?' :: rest, pos⟩ 1
      · rintro _ ⟨⟩
        rfl
    · cases read
      exact readsKind_punct found
  · rename_i found
    cases read
    exact readsKind_punct found

/-- Where a token stands in a source. -/
structure Token.Stands (source : List Char) (token : Token) : Prop where
  ordered : token.span.start ≤ token.span.stop
  opens : token.kind.isEnd = false → OpensAt source token.span.start
  closes : token.kind.isEnd = false → ClosesAt source token.span.stop
  filled : token.kind.isEnd = false → token.span.start < token.span.stop
  spelled : ∀ text, token.kind.spelling? = some text →
    ∃ before behind, source = before ++ text.toList ++ behind ∧
      Text.size before = token.span.start ∧
      Text.size before + Text.size text.toList = token.span.stop

/-- A token of a kind that is read behind a character that is not blank stands there. -/
theorem stands_of_readsKind {source : List Char} {cursor after : Cursor} {c : Char}
    {rest : List Char} {kind : TokenKind} (afterNewline : Bool) (place : cursor.In source)
    (next : cursor.rest = c :: rest) (filled : isBlank c = false)
    (read : ReadsKind cursor kind after) :
    after.In source ∧ Token.Stands source ⟨kind, after.since cursor.pos, afterNewline⟩ := by
  obtain ⟨taken, reads, ⟨last, isLast, lastFilled⟩, _, spelled⟩ := read
  have moved : cursor.pos < after.pos := reads.lt (by rintro rfl; cases isLast)
  refine ⟨place.reads reads, ⟨Nat.le_of_lt moved, fun _ => place.opensAt next filled,
    fun _ => place.closesAt reads isLast lastFilled, fun _ => moved, ?_⟩⟩
  intro text isSpelled
  obtain rfl := spelled text isSpelled
  obtain ⟨before, joined, starts, stops⟩ := place.exists_front reads
  exact ⟨before, after.rest, joined, starts, stops⟩

/-- The end of input stands where it is. -/
theorem stands_endOfInput (source : List Char) (cursor : Cursor) (afterNewline : Bool) :
    Token.Stands source ⟨.endOfInput, cursor.since cursor.pos, afterNewline⟩ where
  ordered := Nat.le_refl _
  opens goesOn := by cases goesOn
  closes goesOn := by cases goesOn
  filled goesOn := by cases goesOn
  spelled _ same := by cases same

/-- The kind of a token inside a tag is read. -/
theorem readsKind_readTagKind {cursor after : Cursor} {c : Char} {rest : List Char}
    {kind : TokenKind} (next : cursor.rest = c :: rest)
    (read : readTagKind cursor c rest = .ok (kind, after)) : ReadsKind cursor kind after := by
  unfold readTagKind at read
  split at read
  · rename_i starts
    cases read
    refine readsKind_name next ?_ fun c accepted => ?_
    · simp [continuesTagName, continuesName_of_startsName starts]
    · simp only [continuesTagName, Bool.or_eq_true, beq_iff_eq] at accepted
      rcases accepted with goesOn | rfl
      · exact not_blank_of_continuesName goesOn
      · decide
  · split at read
    · rename_i quote
      simp only at read
      split at read
      · cases read
      · rename_i open_
        cases read
        have filled : isBlank c = false := by rcases quote with rfl | rfl <;> decide
        obtain ⟨last, more, closing⟩ := List.exists_cons_of_ne_nil (by simpa using open_)
        have isQuote : last = c := by
          have stopped := List.head?_dropWhile_not (fun x => x != c) (cursor.skip 1).rest
          have rest : (cursor.skip 1).rest.dropWhile (fun x => x != c) = last :: more := closing
          simpa [rest] using stopped
        subst isQuote
        refine ReadsClosed.readsKind ⟨_, ((cursor.reads_skip 1).trans
          (Cursor.reads_span ..)).trans (Cursor.reads_skip _ 1), ?_⟩ rfl rfl
        rw [closing]
        exact Closed.append ⟨last, rfl, filled⟩
    · split at read
      · rename_i found
        cases read
        rw [← next] at found
        exact readsKind_punct found
      · cases read

/-! ## How much a token holds -/

/-- The number of tokens that can be passed over one by one inside a punctuator: a closing
angle bracket may be split off its front. -/
def Punct.weight : Punct → Nat
  | .shiftRight | .greaterEqual => 2
  | .shiftRightZero | .shiftRightAssign => 3
  | .shiftRightZeroAssign => 4
  | _ => 1

/-- The number of tokens that can be passed over one by one inside a token. -/
def TokenKind.weight : TokenKind → Nat
  | .punct found => found.weight
  | .endOfInput => 0
  | _ => 1

/-- What is left behind a closing angle bracket holds one token less. -/
theorem Punct.weight_of_afterClosingAngle? {punct left : Punct}
    (split : punct.afterClosingAngle? = some (some left)) : left.weight + 1 = punct.weight := by
  cases punct <;> cases split <;> rfl

/-- A punctuator is at least as long as the number of tokens it holds. -/
theorem Punct.weight_le (punct : Punct) :
    0 < punct.weight ∧ punct.weight ≤ punct.text.toList.length := by
  cases punct <;> decide

/-- Only the end of input holds no token. -/
theorem TokenKind.weight_pos {kind : TokenKind} (goesOn : kind.isEnd = false) :
    0 < kind.weight := by
  cases kind with
  | punct found => exact found.weight_le.1
  | endOfInput => cases goesOn
  | _ => exact Nat.one_pos

/-- A token that is not the end counts for one at most. -/
theorem TokenKind.one_le_weight (kind : TokenKind) :
    (if kind.isEnd then 0 else 1) ≤ kind.weight := by
  split
  · exact Nat.zero_le _
  · rename_i goesOn
    exact weight_pos (by simpa using goesOn)

/-- A kind of token takes up at least as many characters as it holds tokens. -/
theorem ReadsKind.weight_le {before after : Cursor} {kind : TokenKind}
    (read : ReadsKind before kind after) :
    after.rest.length + kind.weight ≤ before.rest.length := by
  obtain ⟨taken, reads, ⟨last, isLast, _⟩, _, spelled⟩ := read
  have lengths := reads.length_rest
  have filled : 0 < taken.length := by
    obtain ⟨init, rfl⟩ := List.getLast?_eq_some_iff.mp isLast
    simp
  cases kind with
  | punct found =>
      obtain rfl := spelled found.text rfl
      have := found.weight_le.2
      simp only [TokenKind.weight]
      omega
  | _ =>
      simp only [TokenKind.weight]
      omega

/-! ## Tokens in their source -/

/-- Nothing but blanks, byte order marks and comments stands between two byte offsets. -/
def IdleBetween (source : List Char) (start stop : Nat) : Prop :=
  ∃ before between behind, source = before ++ between ++ behind ∧ Text.size before = start ∧
    Text.size before + Text.size between = stop ∧ Idle behind between

theorem IdleBetween.le {source : List Char} {start stop : Nat}
    (idle : IdleBetween source start stop) : start ≤ stop := by
  obtain ⟨before, between, behind, _, rfl, rfl, _⟩ := idle
  exact Nat.le_add_right _ _

/-- Idle text that is passed over stands where it is passed over. -/
theorem idleBetween_of_reads {source taken : List Char} {before after : Cursor}
    (place : before.In source) (reads : before.Reads taken after) (idle : Idle after.rest taken) :
    IdleBetween source before.pos after.pos := by
  obtain ⟨front, joined, starts, stops⟩ := place.exists_front reads
  exact ⟨front, taken, after.rest, joined, starts, stops, idle⟩

/-- A token that was read from a cursor of a source, and the cursor behind it. -/
structure Token.Read (source : List Char) (before : Cursor) (token : Token) (after : Cursor) :
    Prop where
  place : after.In source
  stands : token.Stands source
  idle : IdleBetween source before.pos token.span.start
  atEnd : token.kind.isEnd = true → token.span = .point (Text.size source)
  ends : token.span.stop = after.pos
  shorter : after.rest.length + token.kind.weight ≤ before.rest.length

variable {source : List Char} {cursor after : Cursor} {token : Token}

theorem Token.Read.behind (read : token.Read source cursor after) :
    cursor.pos ≤ token.span.start :=
  read.idle.le

/-- A token is read from its source behind blanks and comments, if its kind is. -/
theorem read_token {kindAt : Cursor → Char → List Char → Reading (TokenKind × Cursor)}
    (kinds : ∀ {cursor after : Cursor} {c : Char} {rest : List Char} {kind : TokenKind},
      cursor.rest = c :: rest → kindAt cursor c rest = .ok (kind, after) →
        ReadsKind cursor kind after)
    (place : cursor.In source)
    (read : (do
      let (afterNewline, cursor) ← skipTrivia .blank false cursor.pos cursor.rest
      match cursor.rest with
      | [] => .ok (⟨.endOfInput, cursor.since cursor.pos, afterNewline⟩, cursor)
      | c :: rest =>
        let (kind, after) ← kindAt cursor c rest
        .ok (⟨kind, after.since cursor.pos, afterNewline⟩, after)) = Except.ok (token, after)) :
    token.Read source cursor after := by
  simp only [bind, Except.bind] at read
  split at read
  · cases read
  · rename_i trivia skipped
    obtain ⟨⟨taken, reads, idle⟩, filled⟩ := reads_skipTrivia skipped
    have here : trivia.2.In source := place.reads reads
    have idle : IdleBetween source cursor.pos trivia.2.pos := idleBetween_of_reads place reads idle
    split at read
    · rename_i ended
      cases read
      have atEnd : trivia.2.pos = Text.size source := here.pos_eq_size ended
      exact ⟨here, stands_endOfInput .., idle, fun _ => by simp [Cursor.since, Span.point, atEnd],
        rfl, by
          have lengths : _ = cursor.rest.length := reads.length_rest
          simp only [TokenKind.weight]
          omega⟩
    · rename_i c rest next
      split at read
      · cases read
      · rename_i kind kindRead
        cases read
        have kindReads := kinds next kindRead
        obtain ⟨behind, stands⟩ := stands_of_readsKind trivia.1 here next (filled c rest next)
          kindReads
        have lengths : _ = cursor.rest.length := reads.length_rest
        have shorter := kindReads.weight_le
        obtain ⟨_, _, _, goesOn, _⟩ := kindReads
        exact ⟨behind, stands, idle, fun atEnd => by simp [goesOn] at atEnd, rfl,
          by simp only; omega⟩

/-- An ordinary token is read from its source. -/
theorem read_readToken {regexMayFollow : Bool} (place : cursor.In source)
    (read : readToken regexMayFollow cursor = .ok (token, after)) :
    token.Read source cursor after :=
  read_token readsKind_readKind place read

/-- A token inside a tag is read from its source. -/
theorem read_readTagToken (place : cursor.In source)
    (read : readTagToken cursor = .ok (token, after)) : token.Read source cursor after :=
  read_token readsKind_readTagKind place read

/-- A template chunk that goes on behind the brace at `start` is read from its source. -/
theorem stands_readChunk {start : Nat} {afterNewline : Bool} (place : cursor.In source)
    (opens : OpensAt source start) (before : start < cursor.pos)
    (read : readChunk start afterNewline cursor = .ok (token, after)) :
    after.In source ∧ token.Stands source ∧ token.span = ⟨start, after.pos⟩ ∧
      after.rest.length + token.kind.weight ≤ cursor.rest.length := by
  simp only [readChunk, bind, Except.bind] at read
  split at read
  · cases read
  · rename_i chunk scanned
    cases read
    obtain ⟨taken, reads, last, isLast, filled⟩ := readsClosed_scanChunk scanned
    have moved : start < chunk.2.pos := Nat.lt_of_lt_of_le before reads.le
    refine ⟨place.reads reads, ⟨Nat.le_of_lt moved, fun _ => opens,
      fun _ => place.closesAt reads isLast filled, fun _ => moved,
      fun _ same => by cases same⟩, rfl, ?_⟩
    have lengths : _ = cursor.rest.length := reads.length_rest
    have filled : taken ≠ [] := by
      rintro rfl
      cases isLast
    have := List.length_pos_iff.mpr filled
    simp only [TokenKind.weight]
    omega

/-- The text between tags is read from its source, and takes up all that was passed over. -/
theorem reads_readText (cursor : Cursor) : ∃ taken, cursor.Reads taken (readText cursor).2 ∧
    ∀ value span, (readText cursor).1 = some (value, span) →
      span = ⟨cursor.pos, (readText cursor).2.pos⟩ ∧ taken ≠ [] := by
  simp only [readText]
  split
  · exact ⟨[], .none cursor, by rintro _ _ ⟨⟩⟩
  · rename_i filled
    refine ⟨_, cursor.reads_span _, ?_⟩
    rintro _ _ ⟨⟩
    exact ⟨rfl, by simpa using filled⟩

/-- A text between tags ends where a brace or an angle bracket stands. -/
theorem rest_readText (cursor : Cursor) (c : Char) (rest : List Char)
    (next : (readText cursor).2.rest = c :: rest) : c = '\x7b' ∨ c = '<' := by
  have spans : (readText cursor).2.rest =
      cursor.rest.dropWhile fun c => c != '<' && c != '\x7b' := by
    unfold readText
    by_cases empty : (cursor.rest.takeWhile fun c => c != '<' && c != '\x7b') = []
    · have joined := List.takeWhile_append_dropWhile
        (p := fun c => c != '<' && c != '\x7b') (l := cursor.rest)
      rw [empty, List.nil_append] at joined
      simp [Cursor.span, empty, joined]
    · simp [Cursor.span, empty]
  have stops := List.head?_dropWhile_not (fun c => c != '<' && c != '\x7b') cursor.rest
  rw [← spans, next] at stops
  by_cases isBrace : c = '\x7b'
  · exact .inl isBrace
  · exact .inr (by simpa [isBrace] using stops)

end StopMotion.Syntax
