import StopMotion.Disk.Path

/-!
# Steps of a path

What a path says is its steps: its parts without the empty ones and those that are one dot.
Joining paths appends their steps, the folder that a path names something in has its steps up
to the last, and slashes at the end are no steps. A path that ends in a part that says
nothing can only lead to a folder, so this is kept beside the steps.
-/

namespace StopMotion.Path

/-- Whether a part of a path says nothing. -/
def isBlank (part : String) : Bool := part == "" || part == "."

theorem isBlank_iff {part : String} : isBlank part = true ↔ part = "" ∨ part = "." := by
  simp [isBlank]

/-- The parts of the characters of a path that say something. -/
def stepsOf (chars : List Char) : List String :=
  (parts.split chars).filter fun part => !isBlank part

/-- The parts of a path that say something. -/
def steps (path : String) : List String := stepsOf path.toList

/-- Whether the last part of a path says nothing. -/
def EndsBlank (path : String) : Prop := ∃ last ∈ (parts path).getLast?, isBlank last

theorem steps_eq (path : String) :
    steps path = (parts path).filter fun part => !isBlank part := rfl

theorem ne_empty_of_speaks {path : String} (speaks : ¬ EndsBlank path) : path ≠ "" := by
  rintro rfl
  exact speaks ⟨"", rfl, rfl⟩

/-- The last step of a path is its last part if that says something. -/
theorem getLast?_steps {path : String} (speaks : ¬ EndsBlank path) :
    (steps path).getLast? = (parts path).getLast? := by
  rw [steps_eq]
  rcases List.eq_nil_or_concat (parts path) with isNil | ⟨front, last, isParts⟩
  · rw [isNil]
    rfl
  · have isLast : ¬ isBlank last := fun isBlank => speaks ⟨last, by simp [isParts], isBlank⟩
    simp [isParts, isLast]

/-! ## Characters -/

theorem split_ne_nil : (chars : List Char) → parts.split chars ≠ []
  | [] => by simp [parts.split]
  | c :: rest => by
      rw [parts.split]
      split
      · simp
      · split <;> simp

theorem split_append_slash (left right : List Char) :
    parts.split (left ++ '/' :: right) = parts.split left ++ parts.split right := by
  induction left with
  | nil => simp [parts.split]
  | cons c left inductionHypothesis =>
      rw [List.cons_append, parts.split, parts.split, inductionHypothesis]
      split
      · rfl
      · obtain ⟨part, more, first⟩ := List.exists_cons_of_ne_nil (split_ne_nil left)
        simp [first]

theorem split_of_slashless {chars : List Char} (slashless : '/' ∉ chars) :
    parts.split chars = [String.ofList chars] := by
  induction chars with
  | nil => rfl
  | cons c rest inductionHypothesis =>
      simp only [List.mem_cons, not_or] at slashless
      rw [parts.split, if_neg (Ne.symm slashless.1), inductionHypothesis slashless.2]
      simp [String.ofList_cons]

theorem stepsOf_append_slash (left right : List Char) :
    stepsOf (left ++ '/' :: right) = stepsOf left ++ stepsOf right := by
  simp [stepsOf, split_append_slash]

@[simp] theorem stepsOf_nil : stepsOf [] = [] := by
  simp [stepsOf, parts.split, isBlank]

@[simp] theorem stepsOf_dot : stepsOf ['.'] = [] := by decide

theorem stepsOf_concat_slash (chars : List Char) :
    stepsOf (chars ++ ['/']) = stepsOf chars := by
  simp [stepsOf_append_slash]

theorem length_stepsOf_le {chars : List Char} (slashless : '/' ∉ chars) :
    (stepsOf chars).length ≤ 1 := by
  rw [stepsOf, split_of_slashless slashless]
  exact List.length_filter_le ..

/-- What is left out at the end of a path says nothing. -/
theorem stepsOf_dropBlankParts (reversed : List Char) :
    stepsOf (dropBlankParts reversed).reverse = stepsOf reversed.reverse := by
  fun_induction dropBlankParts reversed with
  | case1 | case2 | case4 | case6 => rfl
  | case3 c rest inductionHypothesis =>
      calc stepsOf (dropBlankParts (c :: rest)).reverse
          = stepsOf (c :: rest).reverse := inductionHypothesis
        _ = stepsOf ((c :: rest).reverse ++ ['/']) := (stepsOf_concat_slash _).symm
        _ = stepsOf ('/' :: c :: rest).reverse := by rw [← List.reverse_cons]
  | case5 rest inductionHypothesis =>
      calc stepsOf (dropBlankParts ('/' :: rest)).reverse
          = stepsOf ('/' :: rest).reverse := inductionHypothesis
        _ = stepsOf rest.reverse := by rw [List.reverse_cons, stepsOf_concat_slash]
        _ = stepsOf (rest.reverse ++ '/' :: ['.']) := by simp [stepsOf_append_slash]
        _ = stepsOf ('.' :: '/' :: rest).reverse := by simp

theorem slashless_takeWhile (reversed : List Char) :
    '/' ∉ (reversed.takeWhile (· != '/')).reverse := by
  intro isIn
  simpa using List.all_eq_true.mp List.all_takeWhile _ (List.mem_reverse.mp isIn)

/-- The last part of a path, as it is read from the end. -/
theorem getLast?_split (reversed : List Char) : (parts.split reversed.reverse).getLast? =
    some (String.ofList (reversed.takeWhile (· != '/')).reverse) := by
  have slashless := slashless_takeWhile reversed
  have isReversed : reversed.reverse =
      (reversed.dropWhile (· != '/')).reverse ++ (reversed.takeWhile (· != '/')).reverse := by
    rw [← List.reverse_append, List.takeWhile_append_dropWhile]
  have first := List.head?_dropWhile_not (· != '/') reversed
  rw [isReversed]
  cases outer : reversed.dropWhile (· != '/') with
  | nil => simp [split_of_slashless slashless]
  | cons slash around =>
      obtain rfl : slash = '/' := by simpa [outer] using first
      simp [split_append_slash, split_of_slashless slashless]

/-- Nothing that says nothing is left at the end of a path, unless nothing else is left. -/
theorem endsBlank_dropBlankParts (reversed : List Char) :
    ¬ EndsBlank (String.ofList (dropBlankParts reversed).reverse) ∨
      stepsOf (dropBlankParts reversed).reverse = [] := by
  fun_induction dropBlankParts reversed with
  | case1 | case4 => exact .inr (by simp)
  | case2 => exact .inr (stepsOf_concat_slash [])
  | case3 _ _ inductionHypothesis => exact inductionHypothesis
  | case5 _ inductionHypothesis => exact inductionHypothesis
  | case6 c rest notTop notSlash notDot notBlank =>
      have filled : c ≠ '/' := by
        rintro rfl
        cases rest with
        | nil => exact notTop rfl rfl
        | cons c rest => exact notSlash c rest rfl rfl
      left
      rintro ⟨last, isLast, isBlank⟩
      rw [parts, String.toList_ofList, getLast?_split, List.takeWhile_cons_of_pos (by simpa)]
        at isLast
      cases isLast
      rcases isBlank_iff.mp isBlank with isEmpty | isDot
      · simp at isEmpty
      · have isDot : (c :: rest.takeWhile (· != '/')).reverse = ['.'] := by
          simpa using congrArg String.toList isDot
        obtain ⟨rfl, isNil⟩ := List.cons.inj (List.reverse_eq_iff.mp isDot)
        cases rest with
        | nil => exact notDot rfl rfl
        | cons c rest =>
            obtain rfl : c = '/' := by simpa [List.takeWhile_cons] using isNil
            exact notBlank rest rfl rfl

theorem length_dropBlankParts_le (reversed : List Char) :
    (dropBlankParts reversed).length ≤ reversed.length := by
  fun_induction dropBlankParts reversed with
  | case1 | case2 | case4 | case6 => exact Nat.le_refl _
  | case3 _ _ inductionHypothesis => exact Nat.le_succ_of_le inductionHypothesis
  | case5 _ inductionHypothesis => exact Nat.le_succ_of_le inductionHypothesis

/-- A slash is left at the end of a path only if nothing else is. -/
theorem dropBlankParts_eq_cons_slash {reversed rest : List Char}
    (ends : dropBlankParts reversed = '/' :: rest) : rest = [] := by
  fun_induction dropBlankParts reversed with
  | case1 | case4 => cases ends
  | case2 => exact (List.cons.inj ends).2.symm
  | case3 _ _ inductionHypothesis => exact inductionHypothesis ends
  | case5 _ inductionHypothesis => exact inductionHypothesis ends
  | case6 c inner notTop notSlash =>
      obtain ⟨rfl, rfl⟩ := List.cons.inj ends
      cases inner with
      | nil => rfl
      | cons c inner => exact (notSlash c inner rfl rfl).elim

/-- What is left out at the end of a path leaves its first character. -/
theorem getLast?_dropBlankParts (reversed : List Char) :
    (dropBlankParts reversed).getLast? = reversed.getLast? := by
  fun_induction dropBlankParts reversed with
  | case1 | case2 | case4 | case6 => rfl
  | case3 c rest inductionHypothesis => simpa using inductionHypothesis
  | case5 rest inductionHypothesis => simpa using inductionHypothesis

/-! ## The folder around -/

/-- The folder that a path names something in is where relative paths start, or its steps are
those of the path up to the last. -/
theorem steps_of_parent? {path parent : String} (isParent : parent? path = some parent) :
    parent = "" ∧ isAbsolute path = false ∧ (steps path).length ≤ 1 ∨
      parent ≠ "" ∧ isAbsolute parent = isAbsolute path ∧
        ∃ last, last.length ≤ 1 ∧ steps path = steps parent ++ last ∧
          (last = [] → steps path = []) := by
  generalize isTrimmed : dropBlankParts path.toList.reverse = trimmed at *
  have stepsTrimmed : steps path = stepsOf trimmed.reverse := by
    rw [← isTrimmed, stepsOf_dropBlankParts, List.reverse_reverse, steps]
  have slashless := slashless_takeWhile trimmed
  have firstTrimmed : path.toList.head? = trimmed.getLast? := by
    rw [← isTrimmed, getLast?_dropBlankParts, List.getLast?_reverse]
  have speaks : stepsOf (trimmed.takeWhile (· != '/')).reverse = [] → steps path = [] := by
    intro isSilent
    have ends := isTrimmed ▸ endsBlank_dropBlankParts path.toList.reverse
    rw [← stepsTrimmed] at ends
    refine ends.resolve_left fun speaks => speaks ?_
    refine ⟨_, by rw [parts, String.toList_ofList, getLast?_split]; rfl, ?_⟩
    rw [stepsOf, split_of_slashless slashless] at isSilent
    simpa using isSilent
  have isDropped : parent =
      String.ofList (dropBlankParts (trimmed.dropWhile (· != '/'))).reverse := by
    rw [parent?, isTrimmed] at isParent
    split at isParent
    · cases isParent
    · cases isParent
    · exact (Option.some.inj isParent).symm
  have divided := List.takeWhile_append_dropWhile (p := (· != '/')) (l := trimmed)
  generalize trimmed.takeWhile (· != '/') = name at *
  cases outer : trimmed.dropWhile (· != '/') with
  | nil =>
      rw [outer, List.append_nil] at divided
      subst divided
      refine .inl ⟨by simp [isDropped, outer, dropBlankParts], ?_, ?_⟩
      · rw [isAbsolute, firstTrimmed, beq_eq_false_iff_ne]
        intro isSlash
        exact slashless (List.mem_reverse.mpr (List.mem_of_getLast? isSlash))
      · exact stepsTrimmed ▸ length_stepsOf_le slashless
  | cons slash around =>
      have isSlash : slash = '/' := by
        have first := List.head?_dropWhile_not (· != '/') trimmed
        rw [outer] at first
        simpa using first
      subst isSlash
      rw [outer] at divided isDropped
      have isReversed : trimmed.reverse = around.reverse ++ '/' :: name.reverse := by
        simp [← divided]
      have steps_parent : steps parent = stepsOf around.reverse := by
        rw [isDropped, steps, String.toList_ofList, stepsOf_dropBlankParts, List.reverse_cons,
          stepsOf_concat_slash]
      have last_trimmed : trimmed.getLast? = ('/' :: around).getLast? := by
        simp [← divided, List.getLast?_append, List.getLast?_cons]
      have first_parent : parent.toList.head? = ('/' :: around).getLast? := by
        rw [isDropped, String.toList_ofList, List.head?_reverse, getLast?_dropBlankParts]
      refine .inr ⟨?_, ?_, stepsOf name.reverse, length_stepsOf_le slashless, ?_, speaks⟩
      · rintro rfl
        simp [List.getLast?_cons] at first_parent
      · rw [isAbsolute, isAbsolute, firstTrimmed, first_parent, last_trimmed]
      · rw [stepsTrimmed, isReversed, stepsOf_append_slash, steps_parent]

/-- The folder that a path names something in does not end in a part that says nothing, unless
it has no steps. -/
theorem endsBlank_of_parent? {path parent : String} (isParent : parent? path = some parent) :
    ¬ EndsBlank parent ∨ steps parent = [] := by
  rw [parent?] at isParent
  split at isParent
  · cases isParent
  · cases isParent
  · cases isParent
    simpa [steps] using endsBlank_dropBlankParts _

/-- The folder that a path names something in is written shorter than the path. -/
theorem length_of_parent? {path parent : String} (isParent : parent? path = some parent) :
    parent.length < path.length := by
  have trimmedLe := length_dropBlankParts_le path.toList.reverse
  rw [parent?] at isParent
  split at isParent
  · cases isParent
  · cases isParent
  · rename_i notNil notTop
    cases isParent
    cases isTrimmed : dropBlankParts path.toList.reverse with
    | nil => exact (notNil isTrimmed).elim
    | cons c rest =>
        have speaks : c ≠ '/' := by
          rintro rfl
          cases dropBlankParts_eq_cons_slash isTrimmed
          exact notTop isTrimmed
        rw [isTrimmed] at trimmedLe
        have parentLe := length_dropBlankParts_le (rest.dropWhile (· != '/'))
        have droppedLe := (List.dropWhile_suffix (l := rest) (· != '/')).length_le
        rw [List.dropWhile_cons_of_pos (by simpa)]
        simp only [String.length_ofList, List.length_reverse, List.length_cons,
          String.length_toList] at *
        omega

/-- A path that names nothing in a folder has no steps. -/
theorem steps_of_parent?_eq_none {path : String} (isNone : parent? path = none) :
    steps path = [] := by
  have isTrimmed := stepsOf_dropBlankParts path.toList.reverse
  rw [List.reverse_reverse] at isTrimmed
  rw [steps, ← isTrimmed]
  rw [parent?] at isNone
  split at isNone
  · rename_i isNil
    simp [isNil]
  · rename_i isTop
    rw [isTop]
    exact stepsOf_concat_slash []
  · cases isNone

/-! ## Slashes at the end -/

/-- A path is its text without the slashes at its end, and these. -/
theorem exists_trimSlashes (path : String) : ∃ count,
    path.toList = (trimSlashes path).toList ++ List.replicate count '/' := by
  have slashes : ∀ c ∈ path.toList.reverse.takeWhile (· == '/'), c = '/' := fun c isIn => by
    simpa using List.all_eq_true.mp List.all_takeWhile c isIn
  refine ⟨(path.toList.reverse.takeWhile (· == '/')).length, ?_⟩
  rw [trimSlashes, String.toList_ofList, ← List.reverse_replicate,
    ← List.eq_replicate_of_mem slashes, ← List.reverse_append, List.takeWhile_append_dropWhile,
    List.reverse_reverse]

@[simp] theorem steps_trimSlashes (path : String) : steps (trimSlashes path) = steps path := by
  obtain ⟨count, isTrimmed⟩ := exists_trimSlashes path
  rw [steps, steps, isTrimmed]
  clear isTrimmed
  induction count with
  | zero => simp
  | succ count inductionHypothesis =>
      rw [List.replicate_succ', ← List.append_assoc, stepsOf_concat_slash, inductionHypothesis]

theorem endsInSlash_trimSlashes (path : String) : endsInSlash (trimSlashes path) = false := by
  rw [endsInSlash, trimSlashes, String.toList_ofList, List.getLast?_reverse, beq_eq_false_iff_ne]
  intro isSlash
  have first := List.head?_dropWhile_not (· == '/') path.toList.reverse
  rw [isSlash] at first
  exact nomatch first

theorem endsInSlash_of_speaks {path : String} (speaks : ¬ EndsBlank path) :
    endsInSlash path = false := by
  rw [endsInSlash, beq_eq_false_iff_ne]
  intro isSlash
  obtain ⟨front, isPath⟩ := List.getLast?_eq_some_iff.mp isSlash
  exact speaks ⟨"", by simp [parts, isPath, split_append_slash, parts.split], rfl⟩

theorem trimSlashes_of_endsInSlash {path : String} (ends : endsInSlash path = false) :
    trimSlashes path = path := by
  obtain ⟨count, isTrimmed⟩ := exists_trimSlashes path
  cases count with
  | zero => exact (String.toList_inj.mp (by simpa using isTrimmed)).symm
  | succ count =>
      rw [endsInSlash, isTrimmed, List.replicate_succ'] at ends
      simp [← List.append_assoc] at ends

theorem isAbsolute_trimSlashes {path : String} (filled : trimSlashes path ≠ "") :
    isAbsolute (trimSlashes path) = isAbsolute path := by
  obtain ⟨count, isTrimmed⟩ := exists_trimSlashes path
  have nonempty : (trimSlashes path).toList ≠ [] := by simpa using filled
  obtain ⟨c, rest, isCons⟩ := List.exists_cons_of_ne_nil nonempty
  simp [isAbsolute, isTrimmed, isCons]

/-! ## Joined paths -/

section Join

variable {folder path : String} (relative : isAbsolute path = false)

include relative

/-- Joining puts the parts of a path behind parts that say what the folder says. -/
theorem exists_parts_join : ∃ before, parts (join folder path) = before ++ parts path ∧
    before.filter (fun part => !isBlank part) = steps folder := by
  rw [join, if_neg (by simp [relative])]
  split
  · rename_i isShort
    rcases Bool.or_eq_true .. ▸ isShort with isEmpty | ends
    · refine ⟨[], ?_, ?_⟩ <;> simp_all [steps]
    · obtain ⟨before, isFolder⟩ := List.getLast?_eq_some_iff.mp (by simpa [endsInSlash] using ends)
      refine ⟨parts.split before, ?_, ?_⟩
      · simp [parts, isFolder, split_append_slash]
      · rw [steps, isFolder, stepsOf_concat_slash, stepsOf]
  · exact ⟨parts folder, by simp [parts, split_append_slash], rfl⟩

theorem steps_join : steps (join folder path) = steps folder ++ steps path := by
  obtain ⟨before, isJoined, isFolder⟩ := @exists_parts_join folder path relative
  rw [steps_eq, isJoined, List.filter_append, isFolder, steps_eq path]

theorem endsBlank_join : EndsBlank (join folder path) ↔ EndsBlank path := by
  obtain ⟨before, isJoined, -⟩ := @exists_parts_join folder path relative
  obtain ⟨part, more, isCons⟩ := List.exists_cons_of_ne_nil (split_ne_nil path.toList)
  rw [EndsBlank, EndsBlank, isJoined, parts, isCons, List.getLast?_append]
  simp [List.getLast?_cons]

theorem isAbsolute_join : isAbsolute (join folder path) = isAbsolute folder := by
  rw [join, if_neg (by simp [relative])]
  cases isFolder : folder.toList with
  | nil =>
      obtain rfl : folder = "" := by simpa using isFolder
      rw [isAbsolute, isAbsolute] at *
      simpa using relative
  | cons c rest => split <;> simp [isAbsolute, isFolder]

theorem join_ne_empty (filled : path ≠ "") : join folder path ≠ "" := by
  have nonempty : path.toList ≠ [] := by simpa using filled
  obtain ⟨c, rest, isCons⟩ := List.exists_cons_of_ne_nil nonempty
  rw [join, if_neg (by simp [relative]), Ne, ← String.toList_inj]
  split <;> simp [isCons]

theorem endsInSlash_join (filled : path ≠ "") :
    endsInSlash (join folder path) = endsInSlash path := by
  have nonempty : path.toList ≠ [] := by simpa using filled
  obtain ⟨c, rest, isCons⟩ := List.exists_cons_of_ne_nil nonempty
  rw [join, if_neg (by simp [relative])]
  split <;> simp [endsInSlash, isCons, List.getLast?_append, List.getLast?_cons]

end Join

end StopMotion.Path
