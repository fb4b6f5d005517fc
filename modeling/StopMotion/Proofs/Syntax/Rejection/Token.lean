import StopMotion.Proofs.Syntax.Progress
import StopMotion.Proofs.Syntax.Refusal
import StopMotion.Proofs.Syntax.Spans

/-!
# Where a token is refused

A refusal names a stretch of the source: it begins and ends where characters do, as it is made of
places that the reading has been at. There is one exception. The escape `\u` is refused behind the
four bytes that should follow it, and where these are not there, or end within a character, that is
no place in the source.
-/

namespace StopMotion

namespace Text

/-- A character begins at an offset, or the text ends there. -/
def EdgeAt (source : List Char) (offset : Nat) : Prop :=
  ∃ before behind, source = before ++ behind ∧ size before = offset

/-- Whole characters stand between two edges. -/
theorem EdgeAt.cuts {source : List Char} {start stop : Nat} (first : EdgeAt source start)
    (second : EdgeAt source stop) (le : start ≤ stop) : Span.Cuts source ⟨start, stop⟩ := by
  obtain ⟨before, behind, rfl, rfl⟩ := first
  obtain ⟨before', behind', whole, rfl⟩ := second
  obtain ⟨between, rfl, rfl⟩ := exists_append_of_size_le whole le
  exact ⟨before, between, behind', by rw [List.append_assoc], rfl, by rw [size_append],
    fun _ _ => rfl⟩

/-- What is cut off the front of a text is what the text is split behind. -/
theorem cut?_zero (text : List Char) (count : Nat) :
    cut? text 0 count = (splitAt? count text).map (·.1) := by
  cases text <;> simp [cut?, splitAt?]

theorem OpensAt.edgeAt {source : List Char} {offset : Nat} (opens : OpensAt source offset) :
    EdgeAt source offset := by
  obtain ⟨before, c, behind, whole, bytes, _⟩ := opens
  exact ⟨before, c :: behind, whole, bytes⟩

end Text

open Text (EdgeAt)

variable {source : List Char}

theorem Span.Cuts.edges {span : Span} (cuts : span.Cuts source) :
    EdgeAt source span.start ∧ EdgeAt source span.stop := by
  obtain ⟨before, between, behind, whole, starts, stops, _⟩ := cuts
  refine ⟨⟨before, between ++ behind, ?_, starts⟩, before ++ between, behind, whole, ?_⟩
  · rw [whole, List.append_assoc]
  · rw [Text.size_append, stops]

theorem Cursor.In.edgeAt {cursor : Cursor} (place : cursor.In source) :
    EdgeAt source cursor.pos := by
  obtain ⟨before, whole, bytes⟩ := place
  exact ⟨before, cursor.rest, whole, bytes⟩

/-- Behind the character at a place is another place. -/
theorem Cursor.In.behind {c : Char} {rest : List Char} {pos : Nat}
    (place : (⟨c :: rest, pos⟩ : Cursor).In source) :
    (⟨rest, pos + c.utf8Size⟩ : Cursor).In source :=
  place.skip 1

/-- Behind the characters that a text begins with is an edge. -/
theorem Cursor.In.edgeAt_append {text spelling rest : List Char} {pos : Nat}
    (place : (⟨text, pos⟩ : Cursor).In source) (whole : text = spelling ++ rest) :
    EdgeAt source (pos + Text.size spelling) := by
  have reads : Cursor.Reads ⟨text, pos⟩ spelling ⟨rest, pos + Text.size spelling⟩ := ⟨whole, rfl⟩
  exact (place.reads reads).edgeAt

/-- What is cut off the front of a text ends at an edge. -/
theorem Cursor.In.edgeAt_cut {text spelling : List Char} {pos count : Nat}
    (place : (⟨text, pos⟩ : Cursor).In source) (cut : Text.cut? text 0 count = some spelling) :
    EdgeAt source (pos + count) := by
  rw [Text.cut?_zero] at cut
  obtain ⟨⟨taken, rest⟩, split, rfl⟩ := Option.map_eq_some_iff.mp cut
  obtain ⟨whole, rfl⟩ := Text.append_of_splitAt? split
  exact place.edgeAt_append whole.symm

namespace Syntax

/-- Behind `\u` stands neither a brace nor four bytes of whole characters, and the place that is
refused is the one behind four bytes. -/
def SyntaxError.CutShort (source : List Char) (error : SyntaxError) : Prop :=
  ∃ before behind, source = before ++ '\\' :: 'u' :: behind ∧ behind.head? ≠ some '\x7b' ∧
    Text.cut? behind 0 4 = none ∧ error = ⟨.point (Text.size before + 6), .invalidUnicodeEscape⟩

/-- A refusal names a stretch of the source, unless an escape is cut short. -/
def SyntaxError.Placed (source : List Char) (error : SyntaxError) : Prop :=
  error.span.Cuts source ∨ error.CutShort source

/-- Behind an escape that is cut short no character begins where it is refused. -/
theorem SyntaxError.CutShort.not_cuts {error : SyntaxError} (short : error.CutShort source) :
    ¬ error.span.Cuts source := by
  obtain ⟨before, behind, rfl, _, noCut, rfl⟩ := short
  intro cuts
  obtain ⟨before', rest, whole, bytes⟩ := cuts.edges.1
  have bytes : Text.size before' = Text.size before + 6 := bytes
  have escape : Text.size ['\\', 'u'] = 2 := rfl
  have split : (before ++ ['\\', 'u']) ++ behind = before' ++ rest := by simpa using whole
  obtain ⟨digits, rfl, rfl⟩ := Text.exists_append_of_size_le split (by
    rw [Text.size_append]
    omega)
  have four : Text.size digits = 4 := by
    simp only [Text.size_append] at bytes
    omega
  rw [← four, Text.cut?_zero, Text.splitAt?_append] at noCut
  cases noCut

/-- A reading answers, or it is refused at a place of a source. -/
def Points {α : Type} (source : List Char) (reading : Reading α) : Prop :=
  ∀ error, reading = .error error → error.Placed source

variable {α β : Type} {start stop pos : Nat}

theorem points_ok (value : α) : Points source (.ok value) := by
  rintro _ ⟨⟩

theorem points_refuse {cause : Cause} (first : EdgeAt source start) (second : EdgeAt source stop)
    (le : start ≤ stop) : Points source (refuse start stop cause : Reading α) := by
  rintro _ ⟨⟩
  exact .inl (first.cuts second le)

theorem points_refuse_point {cause : Cause} (place : EdgeAt source pos) :
    Points source (refuse pos pos cause : Reading α) :=
  points_refuse place place (Nat.le_refl _)

/-- A refusal that is passed on. -/
theorem Points.error {reading : Reading α} {error : SyntaxError} (points : Points source reading)
    (refused : reading = .error error) : Points source (.error error : Reading β) := by
  rintro _ ⟨⟩
  exact points error refused

theorem Points.bind {reading : Reading α} {more : α → Reading β} (points : Points source reading)
    (rest : ∀ value, reading = .ok value → Points source (more value)) :
    Points source (reading >>= more) := by
  cases answer : reading with
  | error error => exact points.error answer
  | ok value => exact rest value answer

theorem Points.ite {condition : Prop} [Decidable condition] {first second : Reading α}
    (left : condition → Points source first) (right : ¬ condition → Points source second) :
    Points source (if condition then first else second) := by
  by_cases held : condition
  · rw [if_pos held]
    exact left held
  · rw [if_neg held]
    exact right held

/-! ## Blanks and numbers -/

/-- Where a comment began that is being skipped is an edge. -/
def Trivia.Begins (source : List Char) (pos : Nat) : Trivia → Prop
  | .commentOpening start | .blockComment start => EdgeAt source start ∧ start ≤ pos
  | _ => True

theorem points_skipTrivia {state : Trivia} {newline : Bool} {text : List Char}
    (place : (⟨text, pos⟩ : Cursor).In source) (begins : state.Begins source pos) :
    Points source (skipTrivia state newline pos text) := by
  fun_induction skipTrivia state newline pos text with
  | case1 => exact points_refuse begins.1 place.edgeAt begins.2
  | case2 => exact points_ok _
  | case13 => exact points_ok _
  | case5 | case7 =>
      rename_i inductionHypothesis
      exact inductionHypothesis place.behind ⟨begins.1, Nat.le_add_right_of_le begins.2⟩
  | case12 =>
      rename_i inductionHypothesis
      exact inductionHypothesis place.behind ⟨place.edgeAt, Nat.le_add_right _ _⟩
  | _ =>
      rename_i inductionHypothesis
      exact inductionHypothesis place.behind trivial

theorem points_scanRadix {radix : Nat} {cursor : Cursor} (place : cursor.In source)
    (begins : EdgeAt source start) (le : start ≤ cursor.pos) :
    Points source (scanRadix radix start cursor) := by
  obtain ⟨_, digits⟩ := (⟨_, cursor.reads_span _⟩ : ∃ taken, cursor.Reads taken
    (cursor.span fun c => isDigitOf radix c || c == '_').2)
  obtain ⟨_, suffix, _⟩ := readsSolid_skipBigSuffix
    (cursor.span fun c => isDigitOf radix c || c == '_').2
  have reads := digits.trans suffix
  simp only [scanRadix]
  split
  · exact points_refuse begins (place.reads reads).edgeAt (Nat.le_trans le reads.le)
  · exact points_ok _

theorem points_scanExponent {cursor : Cursor} (place : cursor.In source) :
    Points source (scanExponent cursor) := by
  unfold scanExponent
  split
  · split
    · simp only
      split
      · exact points_refuse_point place.edgeAt
      · exact points_ok _
    · exact points_ok _
  · exact points_ok _

theorem points_scanDecimal {cursor : Cursor} (place : cursor.In source) :
    Points source (scanDecimal cursor) := by
  have whole := readsSolid_scanDigits cursor
  unfold scanDecimal
  dsimp only
  split
  case' h_1 point =>
    have reads := whole.trans
      ((readsSolid_skip_one point (by decide)).trans (readsSolid_scanDigits _))
  case' h_2 => have reads := whole
  all_goals
    obtain ⟨_, reads, _⟩ := reads
    refine (points_scanExponent (place.reads reads)).bind fun answered scanned => ?_
    obtain ⟨exponent, after⟩ := answered
    obtain ⟨_, more, _⟩ := (readsSolid_scanExponent scanned).trans (readsSolid_skipBigSuffix after)
    have whole := reads.trans more
    split
    · exact points_refuse_point (place.reads whole).edgeAt
    · split
      · exact points_ok _
      · exact points_refuse place.edgeAt (place.reads whole).edgeAt whole.le

theorem points_scanNumber {cursor : Cursor} (place : cursor.In source) :
    Points source (scanNumber cursor) := by
  unfold scanNumber
  split
  · split
    · exact points_scanRadix (place.skip 2) place.edgeAt (cursor.reads_skip 2).le
    · exact points_scanDecimal place
  · exact points_scanDecimal place

/-! ## Escapes, strings and templates -/

/-- An escape is refused at a place of the source, or it is cut short. -/
theorem points_readEscape {text : List Char} (opens : (⟨'\\' :: text, pos⟩ : Cursor).In source)
    (begins : EdgeAt source start) (le : start ≤ pos) :
    Points source (readEscape start (pos + 1) text) := by
  have place : (⟨text, pos + 1⟩ : Cursor).In source := opens.behind
  obtain ⟨before, whole, bytes⟩ := opens
  unfold readEscape
  split
  · exact points_refuse begins place.edgeAt (Nat.le_succ_of_le le)
  · rename_i c rest
    dsimp only
    -- The characters that stand for one character come first.
    repeat refine .ite (fun _ => points_ok _) fun _ => ?_
    refine .ite (fun _ => ?_) fun _ => .ite (fun isUnicode => ?_) fun _ => points_ok _
    · split
      · exact points_refuse_point place.behind.edgeAt
      · split
        · exact points_refuse_point place.behind.edgeAt
        · exact points_ok _
    · subst isUnicode
      split
      · rename_i rest
        refine .ite (fun _ => points_refuse_point place.behind.edgeAt) fun closes => ?_
        split
        · -- The digits end before the closing brace.
          have joined := List.takeWhile_append_dropWhile (p := fun c => c != '\x7d') (l := rest)
          cases behind : rest.dropWhile fun c => c != '\x7d' with
          | nil =>
              rw [behind, List.append_nil] at joined
              exact absurd (congrArg List.length joined) closes
          | cons close more =>
              have isClose : close = '\x7d' := by
                have stopped := List.head?_dropWhile_not (fun c => c != '\x7d') rest
                rw [behind] at stopped
                simpa using stopped
              subst isClose
              rw [behind, List.append_cons] at joined
              have edge := place.behind.behind.edgeAt_append joined.symm
              rw [Text.size_append] at edge
              refine points_refuse_point ?_
              have shifted : pos + 1 + 'u'.utf8Size + 2 +
                  Text.size (rest.takeWhile fun c => c != '\x7d') =
                    pos + 1 + 'u'.utf8Size + '\x7b'.utf8Size +
                      (Text.size (rest.takeWhile fun c => c != '\x7d') + Text.size ['\x7d']) := by
                have brace : '\x7b'.utf8Size = 1 ∧ '\x7d'.utf8Size = 1 := by decide
                simp only [Text.size_cons, Text.size_nil]
                omega
              rw [shifted]
              exact edge
        · exact points_ok _
      · rename_i noBrace
        split
        · rename_i short
          rintro _ ⟨⟩
          refine .inr ⟨before, rest, whole, ?_, short, ?_⟩
          · intro isBrace
            obtain ⟨more, rfl⟩ := List.head?_eq_some_iff.mp isBrace
            exact noBrace more rfl
          · have bytes : Text.size before = pos := bytes
            rw [bytes]
            rfl
        · rename_i cut
          split
          · exact points_refuse_point (place.behind.edgeAt_cut cut)
          · exact points_ok _

theorem points_scanString {quote : Char} {skip : Nat} {read text : List Char}
    (place : (⟨text, pos⟩ : Cursor).In source) (begins : EdgeAt source start) (le : start ≤ pos) :
    Points source (scanString quote start skip pos read text) := by
  fun_induction scanString quote start skip pos read text with
  | case1 | case3 => exact points_refuse begins place.edgeAt le
  | case4 => exact (points_readEscape place begins le).error ‹_›
  | case6 => exact points_ok _
  | _ =>
      rename_i inductionHypothesis
      exact inductionHypothesis place.behind (Nat.le_add_right_of_le le)

theorem points_scanChunk {skip : Nat} {read text : List Char}
    (place : (⟨text, pos⟩ : Cursor).In source) (begins : EdgeAt source start) (le : start ≤ pos) :
    Points source (scanChunk start skip pos read text) := by
  fun_induction scanChunk start skip pos read text with
  | case1 => exact points_refuse begins place.edgeAt le
  | case3 | case4 => exact points_ok _
  | case5 => exact (points_readEscape place begins le).error ‹_›
  | _ =>
      rename_i inductionHypothesis
      exact inductionHypothesis place.behind (Nat.le_add_right_of_le le)

theorem points_scanRegex {escaped inClass : Bool} {text : List Char}
    (place : (⟨text, pos⟩ : Cursor).In source) (begins : EdgeAt source start) (le : start ≤ pos) :
    Points source (scanRegex start escaped inClass pos text) := by
  fun_induction scanRegex start escaped inClass pos text with
  | case1 | case3 => exact points_refuse begins place.edgeAt le
  | case7 => exact points_ok _
  | _ =>
      rename_i inductionHypothesis
      exact inductionHypothesis place.behind (Nat.le_add_right_of_le le)

/-! ## Tokens -/

theorem points_readChunk {afterNewline : Bool} {cursor : Cursor} (place : cursor.In source)
    (begins : EdgeAt source start) (le : start ≤ cursor.pos) :
    Points source (readChunk start afterNewline cursor) :=
  (points_scanChunk place begins le).bind fun _ _ => points_ok _

theorem points_readKind {regexMayFollow : Bool} {cursor : Cursor} {c : Char} {rest : List Char}
    (place : cursor.In source) (next : cursor.rest = c :: rest) :
    Points source (readKind regexMayFollow cursor c rest) := by
  obtain ⟨text, pos⟩ := cursor
  subst next
  have begins := place.edgeAt
  unfold readKind
  simp only
  split
  · exact points_ok _
  split
  · exact points_ok _
  split
  · exact (points_scanNumber place).bind fun _ _ => points_ok _
  split
  · rename_i quote
    have short : c.utf8Size = 1 := by rcases quote with rfl | rfl <;> decide
    have behind := place.behind
    rw [short] at behind
    exact (points_scanString behind begins (Nat.le_succ _)).bind fun _ _ => points_ok _
  split
  · rename_i backtick
    subst backtick
    exact (points_scanChunk place.behind begins (Nat.le_succ _)).bind fun _ _ => points_ok _
  split
  · rename_i slash
    obtain rfl := slash.1
    exact (points_scanRegex place.behind begins (Nat.le_succ _)).bind fun _ _ => points_ok _
  split
  · exact points_refuse begins place.behind.edgeAt (Nat.le_add_right _ _)
  · split
    · exact points_ok _
    · exact points_ok _
  · exact points_ok _

theorem points_readTagKind {cursor : Cursor} {c : Char} {rest : List Char}
    (place : cursor.In source) (next : cursor.rest = c :: rest) :
    Points source (readTagKind cursor c rest) := by
  unfold readTagKind
  split
  · exact points_ok _
  split
  · simp only
    split
    · have reads := (cursor.reads_skip 1).trans (Cursor.reads_span _ fun x => x != c)
      exact points_refuse place.edgeAt (place.reads reads).edgeAt reads.le
    · exact points_ok _
  · split
    · exact points_ok _
    · obtain ⟨text, pos⟩ := cursor
      subst next
      exact points_refuse place.edgeAt place.behind.edgeAt (Nat.le_add_right _ _)

/-- A token behind blanks points to a place if its kind does. -/
theorem points_token {kindAt : Cursor → Char → List Char → Reading (TokenKind × Cursor)}
    (kinds : ∀ {cursor : Cursor} {c : Char} {rest : List Char}, cursor.In source →
      cursor.rest = c :: rest → Points source (kindAt cursor c rest))
    {cursor : Cursor} (place : cursor.In source) :
    Points source (do
      let (afterNewline, cursor) ← skipTrivia .blank false cursor.pos cursor.rest
      match cursor.rest with
      | [] => .ok ((⟨.endOfInput, cursor.since cursor.pos, afterNewline⟩ : Token), cursor)
      | c :: rest =>
        let (kind, after) ← kindAt cursor c rest
        .ok (⟨kind, after.since cursor.pos, afterNewline⟩, after)) := by
  have begins : Trivia.Begins source cursor.pos .blank := trivial
  refine (points_skipTrivia place begins).bind fun trivia skipped => ?_
  obtain ⟨newline, after⟩ := trivia
  obtain ⟨⟨_, reads, _⟩, _⟩ := reads_skipTrivia skipped
  simp only
  split
  · exact points_ok _
  · rename_i next
    exact (kinds (place.reads reads) next).bind fun _ _ => points_ok _

theorem points_readToken {regexMayFollow : Bool} {cursor : Cursor} (place : cursor.In source) :
    Points source (readToken regexMayFollow cursor) :=
  points_token points_readKind place

theorem points_readTagToken {cursor : Cursor} (place : cursor.In source) :
    Points source (readTagToken cursor) :=
  points_token points_readTagKind place

/-- A token stands just before a cursor, at `low` or behind it. -/
structure Token.Before (source : List Char) (low : Nat) (token : Token) (cursor : Cursor) :
    Prop where
  place : cursor.In source
  stands : token.Stands source
  begins : EdgeAt source token.span.start
  ends : token.span.stop = cursor.pos
  behind : low ≤ token.span.start
  exhausted : token.kind.isEnd = true → cursor.rest = []

namespace Token.Before

variable {low lower : Nat} {token : Token} {cursor : Cursor}

theorem cuts (before : token.Before source low cursor) : token.span.Cuts source := by
  have stops := before.place.edgeAt
  rw [← before.ends] at stops
  exact before.begins.cuts stops before.stands.ordered

theorem le (before : token.Before source low cursor) : low ≤ cursor.pos := by
  rw [← before.ends]
  exact Nat.le_trans before.behind before.stands.ordered

/-- The cursor behind a token that is not the end stands at an edge. -/
theorem closes (before : token.Before source low cursor) (goesOn : token.kind.isEnd = false) :
    Text.ClosesAt source cursor.pos := by
  rw [← before.ends]
  exact before.stands.closes goesOn

theorem mono (before : token.Before source low cursor) (le : lower ≤ low) :
    token.Before source lower cursor :=
  { before with behind := Nat.le_trans le before.behind }

end Token.Before

/-- A token that was read stands before the cursor that is left. -/
theorem Token.Read.before {cursor after : Cursor} {token : Token}
    (read : token.Read source cursor after) : token.Before source cursor.pos after where
  place := read.place
  stands := read.stands
  begins := read.cuts.edges.1
  ends := read.ends
  behind := read.behind
  exhausted isEnd := by
    have atEnd : token.span.stop = Text.size source := congrArg Span.stop (read.atEnd isEnd)
    exact read.place.rest_eq_nil (read.ends.symm.trans atEnd)

theorem before_readToken {regexMayFollow : Bool} {cursor after : Cursor} {token : Token}
    (place : cursor.In source) (read : readToken regexMayFollow cursor = .ok (token, after)) :
    token.Before source cursor.pos after :=
  (read_readToken place read).before

theorem before_readTagToken {cursor after : Cursor} {token : Token} (place : cursor.In source)
    (read : readTagToken cursor = .ok (token, after)) : token.Before source cursor.pos after :=
  (read_readTagToken place read).before

/-- A template chunk stands before the cursor that is left, from its brace on. -/
theorem before_readChunk {afterNewline : Bool} {cursor after : Cursor} {token : Token}
    (place : cursor.In source) (opens : Text.OpensAt source start) (moved : start < cursor.pos)
    (read : readChunk start afterNewline cursor = .ok (token, after)) :
    token.Before source start after ∧ token.span.start = start ∧ token.kind.isEnd = false := by
  obtain ⟨placeBehind, stands, span, _⟩ := stands_readChunk place opens moved read
  have goesOn : token.kind.isEnd = false := by
    obtain ⟨_, _, answer⟩ := bind_eq_ok read
    cases answer
    rfl
  have begins : token.span.start = start := congrArg Span.start span
  refine ⟨⟨placeBehind, stands, ?_, congrArg Span.stop span, Nat.le_of_eq begins.symm,
    fun atEnd => ?_⟩, begins, goesOn⟩
  · rw [begins]
    exact opens.edgeAt
  · exact absurd (goesOn.symm.trans atEnd) (by decide)

/-! ## Targets -/

/-- A node that lies somewhere has a span that cuts the source, an empty one at its start where
the category has none. -/
theorem Node.cuts_of_liesAt {c : Category} {node : Node c} {site : Site}
    (lies : node.plan.LiesAt source site) : node.span.Cuts source := by
  unfold Node.span
  cases has : node.span? with
  | some span => exact (span_of_liesAt lies has).2.2.1
  | none => exact ⟨[], [], source, rfl, rfl, rfl, fun _ _ => rfl⟩

/-- An expression that is refused as a target is refused at one of its nodes. -/
theorem Node.points_asTarget {c : Category} {node : Node c} {site : Site}
    (lies : node.plan.LiesAt source site) : Points source node.asTarget := by
  have refused {c c' : Category} {node : Node c} {cause : Cause} {site : Site}
      (lies : node.plan.LiesAt source site) :
      Points source (refuse node.span.start node.span.stop cause : Reading (Node c')) := by
    rintro _ ⟨⟩
    exact .inl (cuts_of_liesAt lies)
  fun_induction Node.asTarget node generalizing site with
  | case2 _ _ _ head tail =>
      obtain ⟨_, _, _, _, _, headLies, tailLies⟩ := Plan.LiesAt.of_append lies
      exact (head headLies).bind fun _ _ => (tail tailLies).bind fun _ _ => points_ok _
  | case5 _ _ _ value => exact (value lies).bind fun _ _ => points_ok _
  | case10 | case11 =>
      rename_i inner
      exact inner lies.of_one.2
  | case4 | case12 | case13 | case17 =>
      rename_i inner
      exact (inner lies.of_one.2).bind fun _ _ => points_ok _
  | case15 =>
      rename_i value
      obtain ⟨_, _, _, _, _, _, valueLies⟩ := Plan.LiesAt.of_append lies.of_one.2
      exact (value valueLies).bind fun _ _ => points_ok _
  | case18 | case19 => exact refused lies
  | _ => exact points_ok _

theorem Node.points_asSimpleTarget {expr : Expr} {site : Site}
    (lies : expr.plan.LiesAt source site) : Points source expr.asSimpleTarget :=
  .ite (fun _ => points_asTarget lies) fun _ => by
    rintro _ ⟨⟩
    exact .inl (cuts_of_liesAt lies)

end Syntax

end StopMotion
