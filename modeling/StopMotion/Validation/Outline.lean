import StopMotion.Syntax.Tree

/-!
# Outlines

What a module says about names and nothing else: where a name is mentioned, and which
names a part of the module declares for itself. A mention is resolved when some part
around it declares its name.
-/

namespace StopMotion.Validation

open StopMotion.Syntax (Name)

/-- The mentions and scopes of a part of a module. -/
inductive Outline where
  /-- Nothing is said about names. -/
  | silent
  | mention (name : Name)
  | beside (first second : Outline)
  /-- Names that are declared for a part, and the part. -/
  | scope (names : List String) (inside : Outline)

namespace Outline

/-- The mentions whose name is not visible, where `visible` are the names declared
around. -/
def unresolved (visible : List String) : Outline → List Name
  | silent => []
  | mention name => if visible.contains name.text then [] else [name]
  | beside first second => first.unresolved visible ++ second.unresolved visible
  | scope names inside => inside.unresolved (names ++ visible)

/-- All mentions, in order. -/
def mentions : Outline → List Name
  | silent => []
  | mention name => [name]
  | beside first second => first.mentions ++ second.mentions
  | scope _ inside => inside.mentions

/-- The mentions of some names. -/
def ofNames : List Name → Outline
  | [] => silent
  | name :: rest => beside (mention name) (ofNames rest)

/-- What is unresolved is mentioned, in the same order. -/
theorem unresolved_sublist (outline : Outline) (visible : List String) :
    (outline.unresolved visible).Sublist outline.mentions := by
  induction outline generalizing visible with
  | silent => simp [unresolved, mentions]
  | mention name =>
      simp only [unresolved, mentions]
      split <;> simp
  | beside first second firstHypothesis secondHypothesis =>
      exact List.Sublist.append (firstHypothesis visible) (secondHypothesis visible)
  | scope names inside inductionHypothesis =>
      exact inductionHypothesis (names ++ visible)

end Outline

end StopMotion.Validation
