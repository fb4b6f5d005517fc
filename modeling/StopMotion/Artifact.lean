/-!
# Artifacts

A source text under the name it arrived with, and the id of its composition: the letters
and digits of the name, with one hyphen for everything between two of them.
-/

namespace StopMotion

/-- A source text and its name. -/
structure Artifact where
  text : String
  identifier : String
  deriving DecidableEq, Repr

namespace Artifact

/-- The runs of letters and digits of a text, joined by hyphens. `pending` says whether
something else stands between the last run and here. -/
def hyphenated (pending : Bool) : List Char → List Char
  | [] => []
  | c :: rest =>
    if c.isAlphanum then
      if pending then '-' :: c :: hyphenated false rest else c :: hyphenated false rest
    else hyphenated true rest

/-- The id of the composition for an identifier: `Artifact` when no letter and no digit is in
it. -/
def compositionIdOf (identifier : String) : String :=
  match hyphenated false (identifier.toList.dropWhile fun c => !c.isAlphanum) with
  | [] => "Artifact"
  | id => String.ofList id

/-- The id of an artifact's composition. -/
def compositionId (artifact : Artifact) : String :=
  compositionIdOf artifact.identifier

/-- The letters and digits of a text are kept in order, and hyphens are all that is
added. -/
theorem filter_hyphenated (pending : Bool) (text : List Char) :
    (hyphenated pending text).filter (·.isAlphanum) = text.filter (·.isAlphanum) := by
  induction text generalizing pending with
  | nil => rfl
  | cons c rest inductionHypothesis =>
      have hyphenDropped : ('-').isAlphanum = false := by decide
      by_cases kept : c.isAlphanum
      · cases pending <;> simp [hyphenated, kept, hyphenDropped, inductionHypothesis]
      · simp [hyphenated, kept, inductionHypothesis]

end Artifact

end StopMotion
