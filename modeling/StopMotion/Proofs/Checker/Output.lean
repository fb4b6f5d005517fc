import Mathlib.Data.List.Basic
import StopMotion.Checker.Output
import StopMotion.Proofs.Number.Shape
import StopMotion.Proofs.Syntax.Token
import StopMotion.Proofs.Text.Splitting

/-!
# Diagnostics as text

What a checker says about a source is a text in which each diagnostic has a line of its own,
behind the path of a file. The diagnostics are read back from it as they are, whatever brackets,
commas and colons there are in paths and messages, and whatever other lines stand between them.
-/

namespace StopMotion.Checker

open Text

/-! ## Places -/

/-- The numeral of a line or column is read as its number. -/
theorem place?_digitsOf {count : Nat} (small : count < UInt32.size) :
    place? (Number.digitsOf count) = some count := by
  have filled : ∀ c ∈ Number.digitsOf count, isBlank c = false := by
    intro c isIn
    apply Syntax.not_blank_of_isAlphanum
    rw [Char.isAlphanum, Number.isDigit_of_mem_digitsOf isIn, Bool.or_true]
  have greatest : Number.greatest32 = UInt32.size - 1 := rfl
  rw [place?, trim_of_filled filled, greatest, Number.count?_digitsOf, if_pos (by omega)]

/-- A character that is no digit is in no numeral. -/
theorem not_mem_digitsOf {c : Char} (noDigit : c.isDigit = false) (count : Nat) :
    c ∉ Number.digitsOf count := by
  intro isIn
  rw [Number.isDigit_of_mem_digitsOf isIn] at noDigit
  exact Bool.noConfusion noDigit

/-! ## Diagnostics -/

/-- The characters between the path and the code of a diagnostic, behind its place. -/
def mark : List Char := "): error ".toList

/-- A place behind a path, in brackets that the mark closes. -/
def placed (path : List Char) (found : Diagnostic) : List Char :=
  path ++ '(' :: (Number.digitsOf found.line ++ ',' :: Number.digitsOf found.column)

/-- The line of a diagnostic, behind the path of a file. -/
def located (path : String) (found : Diagnostic) : String :=
  path ++ "(" ++ toString found.line ++ "," ++ toString found.column ++ "): error " ++
    found.code ++ ": " ++ found.message

/-- A diagnostic and a path that may stand on one line. -/
structure IsPrintable (path : String) (found : Diagnostic) : Prop where
  line_lt : found.line < UInt32.size
  column_lt : found.column < UInt32.size
  code_trimmed : trim found.code.toList = found.code.toList
  code_unparted : ¬": ".toList <:+: found.code.toList
  message_trimmed : trim found.message.toList = found.message.toList
  path_unmarked : ¬"): error ".toList <:+: path.toList
  path_unbroken : '\n' ∉ path.toList
  code_unbroken : '\n' ∉ found.code.toList
  message_unbroken : '\n' ∉ found.message.toList

theorem toList_located (path : String) (found : Diagnostic) :
    (located path found).toList = placed path.toList found ++
      (mark ++ (found.code.toList ++ (": ".toList ++ found.message.toList))) := by
  have numeral (count : Nat) : (toString count).toList = Number.digitsOf count := by
    unfold Number.digitsOf
    exact Nat.toList_repr
  have bracket : "(".toList = ['('] := rfl
  have comma : ",".toList = [','] := rfl
  have isMark : "): error ".toList = mark := rfl
  simp only [located, placed, String.toList_append, numeral, bracket, comma, isMark,
    List.append_assoc, List.cons_append, List.nil_append]

/-- No mark is in a place behind a path without one. -/
theorem unmarked_placed {path : List Char} (unmarked : ¬mark <:+: path) (found : Diagnostic) :
    ¬mark <:+: placed path found := by
  rw [placed, List.infix_append_iff, not_or, not_or]
  refine ⟨unmarked, ?_, ?_⟩
  · -- A mark begins with a closing bracket, and none is in a place.
    intro within
    have isIn := within.subset (show ')' ∈ mark by decide)
    simp [not_mem_digitsOf (c := ')') rfl] at isIn
  · -- No opening bracket is in a mark, so nothing of it reaches over the end of the path.
    rintro ⟨left, right, split, isSuffix, isPrefix⟩
    cases right with
    | nil =>
        rw [List.append_nil] at split
        exact unmarked (split ▸ isSuffix.isInfix)
    | cons c right =>
        obtain ⟨rfl, -⟩ := List.cons_prefix_cons.1 isPrefix
        have isIn : '(' ∈ mark := split ▸ List.mem_append_right left List.mem_cons_self
        exact absurd isIn (by decide)

/-- The line of a diagnostic is read as the diagnostic. -/
theorem diagnostic?_located {path : String} {found : Diagnostic}
    (printable : IsPrintable path found) :
    diagnostic? (located path found).toList = some found := by
  have place : splitFirst? "): error ".toList (located path found).toList =
      some (placed path.toList found,
        found.code.toList ++ (": ".toList ++ found.message.toList)) := by
    rw [toList_located]
    exact splitFirst?_append (by decide) (unmarked_placed printable.path_unmarked found) _
  have bracket : splitLast? '(' (placed path.toList found) =
      some (path.toList, Number.digitsOf found.line ++ ',' :: Number.digitsOf found.column) := by
    apply splitLast?_append
    simp [not_mem_digitsOf (c := '(') rfl]
  have comma :
      splitFirst? [','] (Number.digitsOf found.line ++ ',' :: Number.digitsOf found.column) =
        some (Number.digitsOf found.line, Number.digitsOf found.column) := by
    apply splitFirst?_append List.not_mem_nil
    intro within
    exact not_mem_digitsOf rfl _ (within.subset List.mem_cons_self)
  have colon :
      splitFirst? ": ".toList (found.code.toList ++ (": ".toList ++ found.message.toList)) =
        some (found.code.toList, found.message.toList) :=
    splitFirst?_append (by decide) printable.code_unparted _
  simp only [diagnostic?, place, bracket, comma, colon, Option.bind_eq_bind, Option.bind_some,
    place?_digitsOf printable.line_lt, place?_digitsOf printable.column_lt]
  simp [printable.code_trimmed, printable.message_trimmed]

/-! ## What a checker writes -/

/-- A line of what a checker writes. -/
inductive OutputLine where
  | diagnostic (path : String) (found : Diagnostic)
  | other (said : String)

namespace OutputLine

/-- The text of a line, without its end. -/
def text : OutputLine → String
  | diagnostic path found => located path found
  | other said => said

/-- The diagnostic of a line. -/
def found? : OutputLine → Option Diagnostic
  | diagnostic _ found => some found
  | other _ => none

/-- A line with a diagnostic that may stand on it, or with nothing that is taken for one. -/
def IsPlain : OutputLine → Prop
  | diagnostic path found => IsPrintable path found
  | other said => '\n' ∉ said.toList ∧ ¬"): error ".toList <:+: said.toList

/-- Lines below each other. The last one is ended, or it is not. -/
def written (ended : Bool) : List OutputLine → String
  | [] => ""
  | [line] => line.text ++ if ended then "\n" else ""
  | line :: next :: lines => line.text ++ "\n" ++ written ended (next :: lines)

variable {line : OutputLine} {lines : List OutputLine}

/-- A line says what it is the line of. -/
theorem diagnostic?_text (plain : line.IsPlain) :
    diagnostic? line.text.toList = line.found? := by
  cases line with
  | diagnostic path found => exact diagnostic?_located plain
  | other said =>
      rw [text, diagnostic?, splitFirst?_eq_none_iff.2 plain.2]
      rfl

/-- A carriage return at the end of a line says nothing. -/
theorem diagnostic?_dropLast (plain : line.IsPlain)
    (isReturn : line.text.toList.getLast? = some '\r') :
    diagnostic? line.text.toList.dropLast = diagnostic? line.text.toList := by
  cases line with
  | diagnostic path found =>
      -- The last character is one of a trimmed message or the blank before it.
      have last : (": ".toList ++ found.message.toList).getLast? = some '\r' := by
        rw [text, toList_located] at isReturn
        simpa [List.getLast?_append] using isReturn
      cases isLast : found.message.toList.getLast? with
      | none =>
          rw [List.getLast?_append, isLast] at last
          cases last
      | some c =>
          rw [List.getLast?_append, isLast] at last
          obtain rfl : c = '\r' := Option.some.inj last
          rw [← plain.message_trimmed] at isLast
          exact absurd (not_blank_of_getLast?_trim isLast) (by decide)
  | other said =>
      have unmarked : ¬"): error ".toList <:+: said.toList.dropLast :=
        fun within => plain.2 (within.trans (List.dropLast_prefix _).isInfix)
      rw [text, diagnostic?, diagnostic?, splitFirst?_eq_none_iff.2 plain.2,
        splitFirst?_eq_none_iff.2 unmarked]

/-- No line feed is in a line. -/
theorem unbroken_text (plain : line.IsPlain) : ∀ c ∈ line.text.toList, (c == '\n') = false := by
  have apart : '\n' ∉ line.text.toList := by
    cases line with
    | diagnostic path found =>
        have inPlace : '\n' ∉ placed path.toList found := by
          simp [placed, plain.path_unbroken, not_mem_digitsOf (c := '\n') rfl]
        have inMark : '\n' ∉ mark := by decide
        have inColon : '\n' ∉ ": ".toList := by decide
        rw [text, toList_located]
        simp only [List.mem_append, not_or]
        exact ⟨inPlace, inMark, plain.code_unbroken, inColon, plain.message_unbroken⟩
    | other said => exact plain.1
  intro c isIn
  rw [beq_eq_false_iff_ne]
  rintro rfl
  exact apart isIn

/-- The parts of a text between its line feeds are its lines and maybe nothing at the end. -/
theorem exists_splitBy_written (ended : Bool) (plain : ∀ line ∈ lines, line.IsPlain) :
    ∃ more, splitBy (· == '\n') (written ended lines).toList =
        lines.map (·.text.toList) ++ more ∧ ∀ part ∈ more, part = [] := by
  induction lines with
  | nil => exact ⟨[[]], rfl, by simp⟩
  | cons line lines inductionHypothesis =>
      obtain ⟨isPlain, plain⟩ := List.forall_mem_cons.1 plain
      have unbroken := unbroken_text isPlain
      have isFeed : ('\n' == '\n') = true := rfl
      cases lines with
      | nil =>
          rw [written, String.toList_append]
          cases ended with
          | false =>
              refine ⟨[], ?_, nofun⟩
              rw [if_neg Bool.false_ne_true]
              exact (congrArg _ (List.append_nil _)).trans (splitBy_eq_singleton unbroken)
          | true =>
              refine ⟨[[]], ?_, by simp⟩
              rw [if_pos rfl]
              exact splitBy_append unbroken isFeed []
      | cons next lines =>
          obtain ⟨more, split, empty⟩ := inductionHypothesis plain
          refine ⟨more, ?_, empty⟩
          have ends : (line.text ++ "\n" ++ written ended (next :: lines)).toList =
              line.text.toList ++ '\n' :: (written ended (next :: lines)).toList := by
            simp [String.toList_append]
          rw [written, ends, splitBy_append unbroken isFeed, split]
          rfl

/-- The diagnostics that are written are read, in their order. -/
theorem diagnostics_written (ended : Bool) (lines : List OutputLine)
    (plain : ∀ line ∈ lines, line.IsPlain) :
    diagnostics (written ended lines) = lines.filterMap found? := by
  obtain ⟨more, split, empty⟩ := exists_splitBy_written ended plain
  have nothing : diagnostic? [] = none := rfl
  rw [diagnostics, filterMap_lines nothing, split, List.filterMap_append, List.filterMap_map]
  · have noMore : more.filterMap diagnostic? = [] := by
      rw [List.filterMap_eq_nil_iff]
      intro part isIn
      rw [empty part isIn, nothing]
    rw [noMore, List.append_nil]
    exact List.filterMap_congr fun line isIn => diagnostic?_text (plain line isIn)
  · intro part isPart isReturn
    rw [split] at isPart
    rcases List.mem_append.1 isPart with isPart | isPart
    · obtain ⟨line, isIn, rfl⟩ := List.mem_map.1 isPart
      exact diagnostic?_dropLast (plain line isIn) isReturn
    · rw [empty part isPart] at isReturn
      cases isReturn

/-- Two diagnostics behind paths with brackets, commas and colons, with an empty line and a count
around the second one. -/
def misleading : List OutputLine :=
  [.diagnostic "a (1), error: b/(2,3).tsx" ⟨"no '): error ' here: x", 12, 5, "TS2304"⟩, .other "",
    .diagnostic "C:\\)" ⟨"", 4294967295, 0, "TS:"⟩, .other "Found 2 errors.\r"]

/-- Brackets and colons do not mislead. -/
theorem diagnostics_written_misleading :
    (∀ line ∈ misleading, line.IsPlain) ∧
      diagnostics (written true misleading) =
        [⟨"no '): error ' here: x", 12, 5, "TS2304"⟩, ⟨"", 4294967295, 0, "TS:"⟩] := by
  have plain : ∀ line ∈ misleading, line.IsPlain := by
    simp only [misleading, List.forall_mem_cons]
    refine ⟨⟨by decide, by decide, by decide, ?_, by decide, ?_, by decide, by decide, by decide⟩,
      ⟨by decide, ?_⟩, ⟨by decide, by decide, by decide, ?_, by decide, ?_, by decide, by decide,
      by decide⟩, ⟨by decide, ?_⟩, nofun⟩
    all_goals exact splitFirst?_eq_none_iff.1 (by decide)
  exact ⟨plain, diagnostics_written true misleading plain⟩

end OutputLine

end StopMotion.Checker
