import Mathlib.Data.List.Chain
import StopMotion.Proofs.Syntax.Progress

/-!
# Tokens in a row

The ways of reading may be taken one after the other in any order, each from the place behind the
one before. What they read stands in the source in that order, and between two of them there is
nothing but blanks, byte order marks and comments.
-/

namespace StopMotion.Syntax

/-- A way of reading. -/
inductive Way where
  | ordinary (regexMayFollow : Bool)
  | chunk (start : Nat) (afterNewline : Bool)
  | text
  | tag

/-- What a way of reading takes up: its span, and whether it is the end of input. -/
structure Lexeme where
  span : Span
  isEnd : Bool

/-- What a token takes up. -/
def Token.lexeme (token : Token) : Lexeme := ⟨token.span, token.kind.isEnd⟩

/-- What a way of reading takes up from a cursor, and the cursor behind it. Where there is no text
between tags, nothing is taken up. A template chunk is counted from the cursor on, which is behind
the brace that its token begins with. -/
def Way.read : Way → Cursor → Reading (Option Lexeme × Cursor)
  | .ordinary regexMayFollow, cursor => do
    let (token, after) ← readToken regexMayFollow cursor
    .ok (some token.lexeme, after)
  | .chunk start afterNewline, cursor => do
    let (token, after) ← readChunk start afterNewline cursor
    .ok (some { token.lexeme with span := ⟨cursor.pos, token.span.stop⟩ }, after)
  | .text, cursor =>
    let (found, after) := readText cursor
    .ok (found.map fun (_, span) => ⟨span, false⟩, after)
  | .tag, cursor => do
    let (token, after) ← readTagToken cursor
    .ok (some token.lexeme, after)

/-- What ways of reading take up one after the other, and the cursor behind the last of them. -/
def readAll : List Way → Cursor → Reading (List Lexeme × Cursor)
  | [], cursor => .ok ([], cursor)
  | way :: ways, cursor => do
    let (lexeme, after) ← way.read cursor
    let (lexemes, last) ← readAll ways after
    .ok (lexeme.toList ++ lexemes, last)

/-! ## One reading -/

/-- Where what is read stands in a source. -/
structure Lexeme.Stands (source : List Char) (lexeme : Lexeme) : Prop where
  cuts : lexeme.span.Cuts source
  filled : lexeme.isEnd = false → lexeme.span.start < lexeme.span.stop
  atEnd : lexeme.isEnd = true → lexeme.span = .point (Text.size source)

/-- What is read from a cursor of a source, and the cursor behind it. -/
structure Lexeme.Read (source : List Char) (before : Cursor) (lexeme : Lexeme) (after : Cursor) :
    Prop where
  stands : lexeme.Stands source
  idle : IdleBetween source before.pos lexeme.span.start
  ends : lexeme.span.stop = after.pos

variable {source : List Char} {cursor after : Cursor} {token : Token}

theorem Token.Read.lexeme (read : token.Read source cursor after) :
    token.lexeme.Read source cursor after where
  stands := ⟨read.cuts, read.stands.filled, read.atEnd⟩
  idle := read.idle
  ends := read.ends

/-- Characters that are read right from a cursor on are read from the source. -/
theorem Lexeme.Read.of_reads {taken : List Char} (place : cursor.In source)
    (reads : cursor.Reads taken after) (filled : taken ≠ []) :
    Lexeme.Read source cursor ⟨⟨cursor.pos, after.pos⟩, false⟩ after where
  stands := ⟨reads.cuts place, fun _ => reads.lt filled, nofun⟩
  idle := idleBetween_of_reads place (.none cursor) .none
  ends := rfl

/-- What a way of reading takes up is read from the source. Where nothing is taken up, nothing is
passed over. -/
theorem Way.reads_read {way : Way} {lexeme : Option Lexeme} (place : cursor.In source)
    (read : way.read cursor = .ok (lexeme, after)) :
    after.In source ∧ ((lexeme = none ∧ after = cursor) ∨
      ∃ found, lexeme = some found ∧ found.Read source cursor after) := by
  cases way with
  | ordinary regexMayFollow =>
      obtain ⟨⟨token, behind⟩, tokenRead, same⟩ := bind_eq_ok read
      cases same
      have read := read_readToken place tokenRead
      exact ⟨read.place, .inr ⟨_, rfl, read.lexeme⟩⟩
  | chunk start afterNewline =>
      obtain ⟨⟨token, behind⟩, tokenRead, same⟩ := bind_eq_ok read
      cases same
      obtain ⟨⟨chunk, behind⟩, scanned, same⟩ := bind_eq_ok tokenRead
      cases same
      obtain ⟨taken, reads, last, isLast, _⟩ := readsClosed_scanChunk scanned
      have filled : taken ≠ [] := by
        rintro rfl
        cases isLast
      exact ⟨place.reads reads, .inr ⟨_, rfl, .of_reads place reads filled⟩⟩
  | text =>
      simp only [Way.read, readText] at read
      split at read
      · cases read
        exact ⟨place, .inl ⟨rfl, rfl⟩⟩
      · rename_i filled
        cases read
        have filled : (cursor.span fun c => c != '<' && c != '\x7b').1 ≠ [] := by
          simpa using filled
        exact ⟨place.span _, .inr ⟨_, rfl, .of_reads place (cursor.reads_span _) filled⟩⟩
  | tag =>
      obtain ⟨⟨token, behind⟩, tokenRead, same⟩ := bind_eq_ok read
      cases same
      have read := read_readTagToken place tokenRead
      exact ⟨read.place, .inr ⟨_, rfl, read.lexeme⟩⟩

/-! ## Readings one after the other -/

/-- What was read from a source stands in a row behind an offset, with nothing but blanks, byte
order marks and comments before the first and between the others. -/
inductive InRow (source : List Char) : Nat → List Lexeme → Prop where
  | nil {offset : Nat} : InRow source offset []
  | cons {offset : Nat} {lexeme : Lexeme} {rest : List Lexeme} (stands : lexeme.Stands source)
      (idle : IdleBetween source offset lexeme.span.start)
      (behind : InRow source lexeme.span.stop rest) : InRow source offset (lexeme :: rest)

variable {lexemes : List Lexeme} {ways : List Way} {last : Cursor} {offset : Nat}

theorem inRow_readAll (place : cursor.In source) (read : readAll ways cursor = .ok (lexemes, last)) :
    InRow source cursor.pos lexemes := by
  induction ways generalizing cursor lexemes with
  | nil =>
      cases read
      exact .nil
  | cons way ways inductionHypothesis =>
      obtain ⟨⟨lexeme, after⟩, first, read⟩ := bind_eq_ok read
      obtain ⟨⟨rest, _⟩, behind, same⟩ := bind_eq_ok read
      cases same
      obtain ⟨placeBehind, ⟨rfl, rfl⟩ | ⟨found, rfl, isRead⟩⟩ := way.reads_read place first
      · exact inductionHypothesis placeBehind behind
      · refine .cons isRead.stands isRead.idle ?_
        rw [isRead.ends]
        exact inductionHypothesis placeBehind behind

theorem InRow.stands (row : InRow source offset lexemes) :
    ∀ lexeme ∈ lexemes, lexeme.Stands source := by
  induction row with
  | nil => exact nofun
  | cons stands _ _ inductionHypothesis =>
      exact List.forall_mem_cons.mpr ⟨stands, inductionHypothesis⟩

/-- Nothing in a row begins before the offset that the row is behind. -/
theorem InRow.le (row : InRow source offset lexemes) :
    ∀ lexeme ∈ lexemes, offset ≤ lexeme.span.start := by
  induction row with
  | nil => exact nofun
  | @cons offset lexeme rest stands idle _ inductionHypothesis =>
      refine List.forall_mem_cons.mpr ⟨idle.le, fun later isLater => ?_⟩
      calc offset
        _ ≤ lexeme.span.start := idle.le
        _ ≤ lexeme.span.stop := stands.cuts.le
        _ ≤ later.span.start := inductionHypothesis later isLater

theorem InRow.pairwise (row : InRow source offset lexemes) :
    lexemes.Pairwise fun first second => first.span.stop ≤ second.span.start := by
  induction row with
  | nil => exact .nil
  | cons _ _ behind inductionHypothesis => exact .cons behind.le inductionHypothesis

theorem InRow.isChain (row : InRow source offset lexemes) :
    lexemes.IsChain fun first second => IdleBetween source first.span.stop second.span.start := by
  induction row with
  | nil => exact .nil
  | @cons _ lexeme rest _ _ behind inductionHypothesis =>
      cases behind with
      | nil => exact .singleton lexeme
      | cons _ idle _ => exact .cons_cons idle inductionHypothesis

/-- Whatever the ways of reading are that are taken one after the other: what they take up stands
in whole characters of the source and, but for the end of input, is not empty. It stands in order
without overlaps, and between two in a row there is nothing but blanks, byte order marks and whole
comments. -/
theorem lexemes_in_row (place : cursor.In source)
    (read : readAll ways cursor = .ok (lexemes, last)) :
    (∀ lexeme ∈ lexemes, lexeme.Stands source) ∧
      (lexemes.Pairwise fun first second => first.span.stop ≤ second.span.start) ∧
      lexemes.IsChain fun first second =>
        IdleBetween source first.span.stop second.span.start := by
  have row : InRow source cursor.pos lexemes := inRow_readAll place read
  exact ⟨row.stands, row.pairwise, row.isChain⟩

/-- A template, a comment, a tag, its text and a comment at the end, each read its own way. -/
theorem lexemes_in_row_of_template :
    ∃ (source : List Char) (lexemes : List Lexeme) (last : Cursor),
      source = "`$\x7ba\x7d` /* b */<c>d<e// f".toList ∧
      readAll [.ordinary true, .ordinary true, .ordinary false, .chunk 4 false, .ordinary false,
        .tag, .tag, .text, .text, .ordinary true, .tag, .tag] (.start source) =
          .ok (lexemes, last) ∧
      lexemes.length = 11 ∧ (∀ lexeme ∈ lexemes, lexeme.Stands source) ∧
      (lexemes.Pairwise fun first second => first.span.stop ≤ second.span.start) ∧
      lexemes.IsChain fun first second =>
        IdleBetween source first.span.stop second.span.start := by
  have read : readAll [.ordinary true, .ordinary true, .ordinary false, .chunk 4 false,
      .ordinary false, .tag, .tag, .text, .text, .ordinary true, .tag, .tag]
        (.start "`$\x7ba\x7d` /* b */<c>d<e// f".toList) =
      .ok ([⟨⟨0, 3⟩, false⟩, ⟨⟨3, 4⟩, false⟩, ⟨⟨4, 5⟩, false⟩, ⟨⟨5, 6⟩, false⟩, ⟨⟨14, 15⟩, false⟩,
        ⟨⟨15, 16⟩, false⟩, ⟨⟨16, 17⟩, false⟩, ⟨⟨17, 18⟩, false⟩, ⟨⟨18, 19⟩, false⟩,
        ⟨⟨19, 20⟩, false⟩, ⟨⟨24, 24⟩, true⟩], ⟨[], 24⟩) := rfl
  exact ⟨_, _, _, rfl, read, rfl, lexemes_in_row (Cursor.start_in _) read⟩

end StopMotion.Syntax
