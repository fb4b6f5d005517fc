import Mathlib.Data.List.Infix
import StopMotion.Artifact

/-!
# Ids of compositions

An id is made of letters and digits with one hyphen at most between two of them, so it begins and
ends with a letter or digit. It has the letters and digits of the identifier that it is made from,
and an id that is made into one again stays as it is.
-/

namespace StopMotion.Artifact

theorem not_isAlphanum_hyphen : ('-').isAlphanum = false := rfl

/-- A letter or digit is no hyphen. -/
theorem ne_hyphen {c : Char} (kept : c.isAlphanum = true) : c ≠ '-' := by
  rintro rfl
  exact Bool.noConfusion (not_isAlphanum_hyphen.symm.trans kept)

/-- Letters and digits, with one hyphen at most between two of them. -/
inductive IsHyphenated : List Char → Prop where
  | last {c : Char} (kept : c.isAlphanum = true) : IsHyphenated [c]
  | beside {c : Char} {id : List Char} (kept : c.isAlphanum = true) (more : IsHyphenated id) :
      IsHyphenated (c :: id)
  | apart {c : Char} {id : List Char} (kept : c.isAlphanum = true) (more : IsHyphenated id) :
      IsHyphenated (c :: '-' :: id)

namespace IsHyphenated

variable {id : List Char}

/-- An id begins with a letter or digit. -/
theorem exists_cons (isHyphenated : IsHyphenated id) :
    ∃ c rest, id = c :: rest ∧ c.isAlphanum = true := by
  cases isHyphenated with
  | last kept => exact ⟨_, _, rfl, kept⟩
  | beside kept _ => exact ⟨_, _, rfl, kept⟩
  | apart kept _ => exact ⟨_, _, rfl, kept⟩

theorem ne_nil (isHyphenated : IsHyphenated id) : id ≠ [] := by
  obtain ⟨c, rest, rfl, -⟩ := isHyphenated.exists_cons
  exact List.cons_ne_nil c rest

theorem head?_ne (isHyphenated : IsHyphenated id) : id.head? ≠ some '-' := by
  obtain ⟨c, rest, rfl, kept⟩ := isHyphenated.exists_cons
  intro isHyphen
  exact ne_hyphen kept (Option.some.inj isHyphen)

/-- An id ends with a letter or digit. -/
theorem getLast?_ne (isHyphenated : IsHyphenated id) : id.getLast? ≠ some '-' := by
  induction isHyphenated with
  | last kept =>
      intro isHyphen
      exact ne_hyphen kept (Option.some.inj isHyphen)
  | beside kept more inductionHypothesis =>
      obtain ⟨c, rest, rfl, -⟩ := more.exists_cons
      rwa [List.getLast?_cons_cons]
  | apart kept more inductionHypothesis =>
      obtain ⟨c, rest, rfl, -⟩ := more.exists_cons
      rwa [List.getLast?_cons_cons, List.getLast?_cons_cons]

/-- Letters, digits and hyphens are all that is in an id. -/
theorem plain (isHyphenated : IsHyphenated id) : ∀ c ∈ id, c.isAlphanum = true ∨ c = '-' := by
  induction isHyphenated with
  | last kept => simp [kept]
  | beside kept more inductionHypothesis => simpa [kept] using inductionHypothesis
  | apart kept more inductionHypothesis => simpa [kept] using inductionHypothesis

/-- A hyphen is followed by a letter or digit. -/
theorem not_infix (isHyphenated : IsHyphenated id) : ¬['-', '-'] <:+: id := by
  induction isHyphenated with
  | last kept => simp [List.infix_cons_iff]
  | beside kept more inductionHypothesis =>
      rw [List.infix_cons_iff]
      rintro (⟨_, begins⟩ | within)
      · exact ne_hyphen kept (List.cons.inj begins).1.symm
      · exact inductionHypothesis within
  | @apart c id kept more inductionHypothesis =>
      rw [List.infix_cons_iff, List.infix_cons_iff]
      rintro (⟨_, begins⟩ | ⟨_, begins⟩ | within)
      · exact ne_hyphen kept (List.cons.inj begins).1.symm
      · obtain ⟨first, rest, rfl, keptFirst⟩ := more.exists_cons
        obtain ⟨-, begins⟩ := List.cons.inj begins
        exact ne_hyphen keptFirst (List.cons.inj begins).1.symm
      · exact inductionHypothesis within

/-- The letters and digits of an id are what is in it beside the hyphens. -/
theorem filter_eq (isHyphenated : IsHyphenated id) :
    id.filter (· != '-') = id.filter (·.isAlphanum) := by
  apply List.filter_congr
  intro c isIn
  rcases isHyphenated.plain c isIn with kept | rfl
  · rw [kept, bne_iff_ne.2 (ne_hyphen kept)]
  · rfl

/-- An id is left as it is. -/
theorem hyphenated_eq (isHyphenated : IsHyphenated id) : hyphenated false id = id := by
  induction isHyphenated with
  | last kept => simp [hyphenated, kept]
  | beside kept more inductionHypothesis => simp [hyphenated, kept, inductionHypothesis]
  | apart kept more inductionHypothesis =>
      obtain ⟨first, rest, rfl, keptFirst⟩ := more.exists_cons
      have again : hyphenated false rest = rest := by
        simpa [hyphenated, keptFirst] using inductionHypothesis
      simp [hyphenated, kept, not_isAlphanum_hyphen, keptFirst, again]

end IsHyphenated

/-- What is made of a text stands behind a letter or digit. -/
theorem isHyphenated_cons {c : Char} (kept : c.isAlphanum = true) (pending : Bool)
    (text : List Char) : IsHyphenated (c :: hyphenated pending text) := by
  induction text generalizing c pending with
  | nil => exact .last kept
  | cons d text inductionHypothesis =>
      rw [hyphenated]
      by_cases keptNext : d.isAlphanum = true
      · rw [if_pos keptNext]
        cases pending with
        | false => exact .beside kept (inductionHypothesis keptNext false)
        | true => exact .apart kept (inductionHypothesis keptNext false)
      · rw [if_neg keptNext]
        exact inductionHypothesis kept true

/-- Nothing is kept of what stands before the first letter or digit. -/
theorem filter_dropWhile (text : List Char) :
    (text.dropWhile fun c => !c.isAlphanum).filter (·.isAlphanum) =
      text.filter (·.isAlphanum) := by
  induction text with
  | nil => rfl
  | cons c text inductionHypothesis =>
      by_cases kept : c.isAlphanum = true
      · rw [List.dropWhile_cons_of_neg (by simp [kept])]
      · rw [List.dropWhile_cons_of_pos (by simpa using kept), inductionHypothesis,
          List.filter_cons_of_neg kept]

/-- The letters and digits that an id is made of: those of its identifier, or those of the name
that stands in for them. -/
def lettersOf (identifier : String) : List Char :=
  match identifier.toList.filter (·.isAlphanum) with
  | [] => "Artifact".toList
  | letters => letters

/-- Every identifier is made into an id with its letters. -/
theorem isHyphenated_compositionIdOf (identifier : String) :
    IsHyphenated (compositionIdOf identifier).toList ∧
      (compositionIdOf identifier).toList.filter (·.isAlphanum) = lettersOf identifier := by
  have letters := filter_dropWhile identifier.toList
  cases begins : identifier.toList.dropWhile (fun c => !c.isAlphanum) with
  | nil =>
      have fallback : compositionIdOf identifier = "Artifact" := by
        rw [compositionIdOf, begins]
        rfl
      rw [begins, List.filter_nil] at letters
      rw [fallback, lettersOf, ← letters]
      exact ⟨isHyphenated_cons rfl false "rtifact".toList, rfl⟩
  | cons c rest =>
      have kept : c.isAlphanum = true := by
        have isFirst := List.head?_dropWhile_not (fun c : Char => !c.isAlphanum) identifier.toList
        rw [begins] at isFirst
        simpa using isFirst
      have isMade : (compositionIdOf identifier).toList = c :: hyphenated false rest := by
        rw [compositionIdOf, begins, hyphenated, if_pos kept]
        exact String.toList_ofList
      rw [begins, List.filter_cons_of_pos kept] at letters
      rw [isMade, lettersOf, ← letters]
      refine ⟨isHyphenated_cons kept false rest, ?_⟩
      rw [List.filter_cons_of_pos kept, filter_hyphenated]

/-- An id is made into itself. -/
theorem IsHyphenated.compositionIdOf_eq {id : String} (isHyphenated : IsHyphenated id.toList) :
    compositionIdOf id = id := by
  obtain ⟨c, rest, split, kept⟩ := isHyphenated.exists_cons
  have whole : id.toList.dropWhile (fun c => !c.isAlphanum) = id.toList := by
    rw [split, List.dropWhile_cons_of_neg (by simp [kept])]
  rw [compositionIdOf, whole, isHyphenated.hyphenated_eq]
  split
  · rename_i empty
    exact absurd empty isHyphenated.ne_nil
  · exact String.ofList_toList

/-- `id` is fit to be the id of the composition of an identifier. -/
structure IsIdOf (identifier id : String) : Prop where
  filled : id ≠ ""
  plain : ∀ c ∈ id.toList, c.isAlphanum = true ∨ c = '-'
  begins : id.toList.head? ≠ some '-'
  ends : id.toList.getLast? ≠ some '-'
  /-- No two hyphens stand beside each other. -/
  parted : ¬['-', '-'] <:+: id.toList
  letters : id.toList.filter (· != '-') = lettersOf identifier
  /-- An id that is made into one again stays as it is. -/
  settled : compositionIdOf id = id

/-- The id of a composition is fit to be one, whatever the identifier of the artifact is. -/
theorem isIdOf_compositionId (artifact : Artifact) :
    IsIdOf artifact.identifier artifact.compositionId := by
  obtain ⟨isHyphenated, letters⟩ := isHyphenated_compositionIdOf artifact.identifier
  constructor
  · intro empty
    apply isHyphenated.ne_nil
    rw [← compositionId, empty]
    rfl
  · exact isHyphenated.plain
  · exact isHyphenated.head?_ne
  · exact isHyphenated.getLast?_ne
  · exact isHyphenated.not_infix
  · exact isHyphenated.filter_eq.trans letters
  · exact isHyphenated.compositionIdOf_eq

end StopMotion.Artifact
