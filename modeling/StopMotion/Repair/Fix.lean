import StopMotion.Text.Slice

/-!
# Fixes

A fix deletes quotes of one string literal. The deletions of one pass over a text are
disjoint and in order; applying them keeps every other character.
-/

namespace StopMotion.Repair

/-- Why quotes are deleted. -/
inductive Rule where
  | doubledOpeningQuote
  | quoteRun
  | strayTrailingQuote
  deriving DecidableEq, Repr

/-- The wording of a rule in an audit. -/
def Rule.text : Rule → String
  | doubledOpeningQuote => "collapsed doubled opening quote"
  | quoteRun => "collapsed quote run"
  | strayTrailingQuote => "dropped stray trailing quote"

/-- One applied fix: where its first deleted quote stood in the text of its pass, and the
literal before and after. -/
structure Fix where
  offset : Nat
  before : String
  after : String
  rule : Rule
  deriving DecidableEq, Repr

/-- The audit line of a fix. -/
def Fix.message (fix : Fix) : String :=
  fix.rule.text ++ " at byte " ++ toString fix.offset ++ ": " ++ fix.before ++ " -> " ++ fix.after

/-- The bytes that a fix deletes. -/
structure Deletion where
  span : Span
  fix : Fix
  deriving DecidableEq, Repr

/-- Whether a byte offset is deleted. -/
def deletes (deletions : List Deletion) (offset : Nat) : Bool :=
  deletions.any fun deletion =>
    deletion.span.start ≤ offset && offset < deletion.span.stop

/-- A text that starts at `offset` without the characters that start at a deleted offset. -/
def applyFrom (deletions : List Deletion) (offset : Nat) : List Char → List Char
  | [] => []
  | c :: rest =>
    let kept := applyFrom deletions (offset + c.utf8Size) rest
    if deletes deletions offset then kept else c :: kept

/-- A text without the deleted quotes. -/
def apply (deletions : List Deletion) (text : List Char) : List Char :=
  applyFrom deletions 0 text

/-- Nothing is lost where nothing is deleted. -/
theorem apply_nil (text : List Char) : apply [] text = text := by
  suffices all : ∀ offset, applyFrom [] offset text = text from all 0
  induction text with
  | nil => intro offset; rfl
  | cons c rest inductionHypothesis =>
      intro offset
      simp [applyFrom, deletes, inductionHypothesis]

/-- What is left is what was there, in order. -/
theorem apply_sublist (deletions : List Deletion) (text : List Char) :
    (apply deletions text).Sublist text := by
  suffices all : ∀ offset, (applyFrom deletions offset text).Sublist text from all 0
  induction text with
  | nil => intro offset; exact List.Sublist.slnil
  | cons c rest inductionHypothesis =>
      intro offset
      simp only [applyFrom]
      split
      · exact (inductionHypothesis _).cons c
      · exact (inductionHypothesis _).cons_cons c

end StopMotion.Repair
