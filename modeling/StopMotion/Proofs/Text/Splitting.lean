import StopMotion.Text.Pieces

/-!
# Texts put together and split

A text is split at a separator where it was put together at it: at the first one if none stands
before it, at the last one if none stands behind it, and at every line feed into lines.
-/

namespace StopMotion.Text

/-! ## One separator -/

/-- A text is not split at what does not occur in it. -/
theorem splitFirst?_eq_none_iff {wanted text : List Char} :
    splitFirst? wanted text = none ↔ ¬wanted <:+: text := by
  induction text with
  | nil =>
      rw [splitFirst?, List.infix_nil]
      cases wanted <;> simp
  | cons c text inductionHypothesis =>
      have isHere (behind : List Char) :
          after? wanted (c :: text) = some behind ↔ wanted ++ behind = c :: text :=
        after?_eq_some_iff.trans eq_comm
      rw [splitFirst?, List.infix_cons_iff, not_or, ← inductionHypothesis]
      cases here : after? wanted (c :: text) with
      | none =>
          have notHere : ¬wanted <+: c :: text := by
            rintro ⟨behind, whole⟩
            rw [(isHere behind).2 whole] at here
            cases here
          simp [notHere]
      | some behind =>
          have begins : wanted <+: c :: text := ⟨behind, (isHere behind).1 here⟩
          simp [begins]

/-- A separator whose first character is not in its rest does not overlap with itself, so a text
that it is not in can be put before it. -/
theorem splitFirst?_append {first : Char} {rest before : List Char} (single : first ∉ rest)
    (apart : ¬first :: rest <:+: before) (behind : List Char) :
    splitFirst? (first :: rest) (before ++ (first :: rest ++ behind)) = some (before, behind) := by
  induction before with
  | nil =>
      have isHere : after? (first :: rest) (first :: (rest ++ behind)) = some behind :=
        after?_eq_some_iff.2 rfl
      rw [List.nil_append, List.cons_append, splitFirst?, isHere]
  | cons c before inductionHypothesis =>
      rw [List.infix_cons_iff, not_or] at apart
      have notHere :
          after? (first :: rest) (c :: (before ++ (first :: rest ++ behind))) = none := by
        rw [Option.eq_none_iff_forall_ne_some]
        intro behind' isHere
        obtain ⟨rfl, whole⟩ := List.cons.inj (after?_eq_some_iff.1 isHere)
        rcases List.append_eq_append_iff.1 whole with ⟨overlap, rfl, overlap_eq⟩ | ⟨overlap, rfl, -⟩
        · cases overlap with
          | nil => exact apart.1 (by simp)
          | cons d overlap =>
              obtain ⟨rfl, -⟩ := List.cons.inj overlap_eq
              exact single (by simp)
        · exact apart.1 ⟨overlap, by simp⟩
      rw [List.cons_append, splitFirst?, notHere, inductionHypothesis apart.2]
      rfl

/-- A text is split at the last one of a character. -/
theorem splitLast?_append {wanted : Char} {behind : List Char} (apart : wanted ∉ behind)
    (before : List Char) :
    splitLast? wanted (before ++ wanted :: behind) = some (before, behind) := by
  have isReversed : (before ++ wanted :: behind).reverse =
      behind.reverse ++ wanted :: before.reverse := by simp
  have passed : ∀ c ∈ behind.reverse, (c != wanted) = true := by
    intro c isIn
    rw [bne_iff_ne]
    rintro rfl
    exact apart (List.mem_reverse.1 isIn)
  have taken : (behind.reverse ++ wanted :: before.reverse).takeWhile (· != wanted) =
      behind.reverse := by
    rw [List.takeWhile_append_of_pos passed, List.takeWhile_cons_of_neg (by simp), List.append_nil]
  simp only [splitLast?]
  rw [isReversed, taken, List.drop_left]
  simp only [List.reverse_reverse]

/-! ## Trimmed texts -/

theorem not_blank_of_getLast?_trim {text : List Char} {c : Char}
    (last : (trim text).getLast? = some c) : isBlank c = false := by
  have isFirst := List.head?_dropWhile_not isBlank (trimStart text).reverse
  rw [trim, trimEnd, List.getLast?_reverse] at last
  rwa [last] at isFirst

/-! ## Lines -/

section

variable {separates : Char → Bool}

theorem splitBy_ne_nil (text : List Char) : splitBy separates text ≠ [] := by
  cases text with
  | nil => exact List.cons_ne_nil _ _
  | cons c text =>
      rw [splitBy]
      split
      · exact List.cons_ne_nil _ _
      · split <;> exact List.cons_ne_nil _ _

/-- A part goes on up to the next separator. -/
theorem splitBy_append {part : List Char} (whole : ∀ c ∈ part, separates c = false)
    {separator : Char} (isSeparator : separates separator = true) (text : List Char) :
    splitBy separates (part ++ separator :: text) = part :: splitBy separates text := by
  induction part with
  | nil =>
      obtain ⟨first, parts, split⟩ := List.exists_cons_of_ne_nil (splitBy_ne_nil text)
      rw [List.nil_append, splitBy, split]
      simp [isSeparator]
  | cons c part inductionHypothesis =>
      obtain ⟨goesOn, whole⟩ := List.forall_mem_cons.1 whole
      rw [List.cons_append, splitBy, inductionHypothesis whole]
      simp [goesOn]

/-- A text without separators is one part. -/
theorem splitBy_eq_singleton {part : List Char} (whole : ∀ c ∈ part, separates c = false) :
    splitBy separates part = [part] := by
  induction part with
  | nil => rfl
  | cons c part inductionHypothesis =>
      obtain ⟨goesOn, whole⟩ := List.forall_mem_cons.1 whole
      rw [splitBy, inductionHypothesis whole]
      simp [goesOn]

end

theorem filterMap_mapIdx {α β : Type} {read : α → Option β} {change : Nat → α → α}
    {list : List α} (same : ∀ index, ∀ a ∈ list, read (change index a) = read a) :
    (list.mapIdx change).filterMap read = list.filterMap read := by
  induction list generalizing change with
  | nil => rfl
  | cons a list inductionHypothesis =>
      rw [List.mapIdx_cons, List.filterMap_cons, List.filterMap_cons, same 0 a List.mem_cons_self,
        inductionHypothesis fun index b isIn => same (index + 1) b (List.mem_cons_of_mem a isIn)]

/-- What reads nothing in an empty line, and the same in a line with and without the carriage
return at its end, reads from the lines what it reads from the parts between line feeds. -/
theorem filterMap_lines {α : Type} {read : List Char → Option α} {text : List Char}
    (nothing : read [] = none)
    (same : ∀ part ∈ splitBy (· == '\n') text, part.getLast? = some '\r' →
      read part.dropLast = read part) :
    (lines text).filterMap read = (splitBy (· == '\n') text).filterMap read := by
  simp only [lines]
  rw [filterMap_mapIdx]
  · split
    · rename_i isLast
      obtain ⟨parts, split⟩ := List.getLast?_eq_some_iff.1 isLast
      rw [split, List.dropLast_concat, List.filterMap_append]
      simp [nothing]
    · rfl
  · intro index part isIn
    have isPart : part ∈ splitBy (· == '\n') text := by
      split at isIn
      · exact (List.dropLast_sublist _).subset isIn
      · exact isIn
    split
    · rename_i isReturn
      simp only [Bool.and_eq_true, decide_eq_true_eq] at isReturn
      exact same part isPart isReturn.2
    · rfl

end StopMotion.Text
