import StopMotion.Project.Template
import StopMotion.Proofs.Disk.Path
import StopMotion.Proofs.Syntax.Spelling

/-!
# Specifiers of imports

A specifier is made of parts of the path that it leads to, of slashes and of dots, so it may
stand in quotes as it is where the path may.

From the folder of the file that imports, a specifier leads to the file that is imported, without
its extension. The way up ends where the two paths part, which is never inside the name of the
file: only folders are compared. From there on the specifier names what is left of the path.
-/

namespace StopMotion.Path

/-- A character of a part of a path is one of the path. -/
theorem mem_of_mem_split {chars : List Char} {part : String} {c : Char}
    (isPart : part ∈ parts.split chars) (isIn : c ∈ part.toList) : c ∈ chars := by
  induction chars generalizing part with
  | nil =>
      obtain rfl : part = "" := by simpa [parts.split] using isPart
      simp at isIn
  | cons first rest inductionHypothesis =>
      rw [parts.split] at isPart
      split at isPart
      · rcases List.mem_cons.1 isPart with rfl | isPart
        · simp at isIn
        · exact List.mem_cons_of_mem _ (inductionHypothesis isPart isIn)
      · split at isPart
        · obtain rfl := List.mem_singleton.1 isPart
          simp at isIn
          simp [isIn]
        · rename_i found more isSplit
          rcases List.mem_cons.1 isPart with rfl | isPart
          · rw [String.toList_append, List.mem_append] at isIn
            rcases isIn with isFirst | isIn
            · simp at isFirst
              simp [isFirst]
            · exact List.mem_cons_of_mem _
                (inductionHypothesis (isSplit ▸ List.mem_cons_self) isIn)
          · exact List.mem_cons_of_mem _
              (inductionHypothesis (isSplit ▸ List.mem_cons_of_mem _ isPart) isIn)

end StopMotion.Path

namespace StopMotion.Project

open Syntax (IsVerbatim)

theorem mem_of_mem_withoutExtension {name : String} {c : Char}
    (isIn : c ∈ (withoutExtension name).toList) : c ∈ name.toList := by
  unfold withoutExtension at isIn
  split at isIn
  · rename_i stem extension isSplit
    split at isIn
    · exact isIn
    · unfold Text.splitLast? at isSplit
      dsimp only at isSplit
      split at isSplit
      · cases isSplit
      · rename_i dot before isBefore
        cases isSplit
        have isDropped : c ∈ name.toList.reverse.drop _ :=
          isBefore ▸ List.mem_cons_of_mem dot (by simpa using isIn)
        simpa using List.mem_of_mem_drop isDropped
  · exact isIn

/-- What a specifier may name is written in one of the parts of the path. -/
theorem exists_of_mem_moduleParts {path part : String} (isPart : part ∈ moduleParts path) :
    ∃ whole ∈ pathParts path, ∀ c ∈ part.toList, c ∈ whole.toList := by
  unfold moduleParts at isPart
  dsimp only at isPart
  split at isPart
  · rename_i last isLast
    rcases List.mem_append.1 isPart with isPart | isPart
    · exact ⟨part, List.mem_of_mem_dropLast isPart, fun _ isIn => isIn⟩
    · obtain rfl := List.mem_singleton.1 isPart
      exact ⟨last, List.mem_of_getLast? isLast, fun _ => mem_of_mem_withoutExtension⟩
  · cases isPart

theorem mem_of_mem_moduleParts {path part : String} {c : Char}
    (isPart : part ∈ moduleParts path) (isIn : c ∈ part.toList) : c ∈ path.toList := by
  obtain ⟨whole, isWhole, within⟩ := exists_of_mem_moduleParts isPart
  exact Path.mem_of_mem_split (List.mem_of_mem_filter isWhole) (within c isIn)

theorem mem_of_mem_intercalate {α : Type} {separator : List α} {lists : List (List α)} {a : α}
    (isIn : a ∈ separator.intercalate lists) : a ∈ separator ∨ ∃ list ∈ lists, a ∈ list := by
  induction lists with
  | nil => simp [List.intercalate] at isIn
  | cons list lists inductionHypothesis =>
      cases lists with
      | nil => exact .inr ⟨list, by simp, by simpa [List.intercalate] using isIn⟩
      | cons second lists =>
          have split : a ∈ list ∨ a ∈ separator ∨ a ∈ separator.intercalate (second :: lists) := by
            simpa [List.intercalate] using isIn
          rcases split with isIn | isIn | isIn
          · exact .inr ⟨list, by simp, isIn⟩
          · exact .inl isIn
          · rcases inductionHypothesis isIn with isIn | ⟨found, isFound, isIn⟩
            · exact .inl isIn
            · exact .inr ⟨found, List.mem_cons_of_mem _ isFound, isIn⟩

/-- A specifier has the characters of the path that it leads to, slashes and dots. -/
theorem mem_specifier {importer imported : String} {c : Char}
    (isIn : c ∈ (specifier importer imported).toList) :
    c ∈ imported.toList ∨ c = '/' ∨ c = '.' := by
  unfold specifier at isIn
  dsimp only at isIn
  rw [String.toList_intercalate] at isIn
  rcases mem_of_mem_intercalate isIn with isSlash | ⟨_, isListed, isIn⟩
  · exact .inr (.inl (by simpa using isSlash))
  · obtain ⟨part, isPart, rfl⟩ := List.mem_map.1 isListed
    rcases List.mem_append.1 isPart with isUp | isTarget
    · have isDots : part = "." ∨ part = ".." := by
        split at isUp
        · exact .inl (by simpa using isUp)
        · exact .inr (List.eq_of_mem_replicate isUp)
      rcases isDots with rfl | rfl <;>
      · right
        right
        simpa using isIn
    · exact .inl (mem_of_mem_moduleParts (List.mem_of_mem_drop isTarget) isIn)

/-- A specifier may stand in quotes as it is if the path that it leads to may. -/
theorem isVerbatim_specifier {importer imported : String}
    (verbatim : IsVerbatim imported.toList) : IsVerbatim (specifier importer imported).toList := by
  intro c isIn
  rcases mem_specifier isIn with isIn | rfl | rfl
  · exact verbatim c isIn
  · decide
  · decide

end StopMotion.Project

namespace StopMotion

namespace Path

theorem slashless_of_mem_split {chars : List Char} {part : String}
    (isPart : part ∈ parts.split chars) : '/' ∉ part.toList := by
  induction chars generalizing part with
  | nil => simp_all [parts.split]
  | cons c rest inductionHypothesis =>
      obtain ⟨first, more, isSplit⟩ := List.exists_cons_of_ne_nil (split_ne_nil rest)
      rw [isSplit] at inductionHypothesis
      rw [parts.split, isSplit] at isPart
      by_cases isSlash : c = '/'
      · rw [if_pos isSlash] at isPart
        rcases List.mem_cons.mp isPart with rfl | later
        · simp
        · exact inductionHypothesis later
      · rw [if_neg isSlash] at isPart
        rcases List.mem_cons.mp isPart with rfl | later
        · simpa [Ne.symm isSlash] using inductionHypothesis (.head _)
        · exact inductionHypothesis (.tail _ later)

/-- Names with slashes between them are the parts of a path. -/
theorem split_intercalate {names : List String} (named : names ≠ [])
    (slashless : ∀ name ∈ names, '/' ∉ name.toList) :
    parts.split (['/'].intercalate (names.map String.toList)) = names := by
  induction names with
  | nil => exact absurd rfl named
  | cons name rest inductionHypothesis =>
      obtain ⟨slashlessName, slashlessRest⟩ := List.forall_mem_cons.mp slashless
      cases rest with
      | nil => simp [List.intercalate, split_of_slashless slashlessName]
      | cons second rest =>
          have onwards := inductionHypothesis (by simp) slashlessRest
          have joined : ['/'].intercalate ((name :: second :: rest).map String.toList) =
              name.toList ++ '/' :: ['/'].intercalate ((second :: rest).map String.toList) := by
            simp [List.intercalate]
          rw [joined, split_append_slash, onwards, split_of_slashless slashlessName]
          simp

theorem parts_intercalate {names : List String} (named : names ≠ [])
    (slashless : ∀ name ∈ names, '/' ∉ name.toList) : parts ("/".intercalate names) = names := by
  rw [parts, String.toList_intercalate]
  exact split_intercalate named slashless

/-- A path that begins with a part, and goes on, is written with the part and a slash first. -/
theorem prefix_of_split {chars : List Char} {first : String} {more : List String}
    (isSplit : parts.split chars = first :: more) (goesOn : more ≠ []) :
    first.toList ++ ['/'] <+: chars := by
  induction chars generalizing first with
  | nil =>
      cases isSplit
      exact absurd rfl goesOn
  | cons c rest inductionHypothesis =>
      rw [parts.split] at isSplit
      split at isSplit
      · rename_i isSlash
        cases isSplit
        simp [isSlash]
      · split at isSplit
        · rename_i isNil
          exact absurd isNil (split_ne_nil rest)
        · rename_i found others isFound
          cases isSplit
          simpa using inductionHypothesis isFound

end Path

namespace Project

/-- Where the parts of a path lead from a folder, as the names on the way to it: a lone dot leads
to the folder itself, and two dots to the folder around it, if there is one. -/
def follow : (folder : List String) → List String → Option (List String)
  | folder, [] => some folder
  | folder, part :: rest =>
    if part = "." then follow folder rest
    else if part = ".." then if folder = [] then none else follow folder.dropLast rest
    else follow (folder ++ [part]) rest

theorem follow_names {names : List String} (plain : ∀ name ∈ names, name ≠ "." ∧ name ≠ "..")
    (folder : List String) : follow folder names = some (folder ++ names) := by
  induction names generalizing folder with
  | nil => simp [follow]
  | cons name rest inductionHypothesis =>
      obtain ⟨⟨notDot, notUp⟩, plainRest⟩ := List.forall_mem_cons.mp plain
      rw [follow, if_neg notDot, if_neg notUp, inductionHypothesis plainRest]
      simp

/-- As many levels up as there are names behind a folder lead to that folder. -/
theorem follow_up (base inner rest : List String) :
    follow (base ++ inner) (List.replicate inner.length ".." ++ rest) = follow base rest := by
  induction inner using List.reverseRecOn with
  | nil => simp
  | append_singleton inner name inductionHypothesis =>
      rw [List.length_append, List.length_singleton, List.replicate_succ, List.cons_append, follow,
        if_neg (by decide), if_pos rfl, if_neg (by simp), ← List.append_assoc, List.dropLast_concat,
        inductionHypothesis]

/-- Two lists go apart behind as many names as they have in common at their beginning. -/
theorem exists_common (folder target : List String) : ∃ base inner rest,
    folder = base ++ inner ∧ target = base ++ rest ∧ base.length = commonLength folder target := by
  fun_induction commonLength folder target with
  | case1 _ shared _ inductionHypothesis =>
      obtain ⟨base, inner, rest, rfl, rfl, isLength⟩ := inductionHypothesis
      exact ⟨shared :: base, inner, rest, rfl, rfl, by simp [isLength]⟩
  | case2 first folder other target differs => exact ⟨[], _, _, rfl, rfl, rfl⟩
  | case3 folder target _ => exact ⟨[], _, _, rfl, rfl, rfl⟩

theorem pathParts_eq (path : String) : pathParts path = Path.steps path := by
  rw [pathParts, Path.steps_eq]
  refine List.filter_congr fun part _ => ?_
  have isEmpty : part.isEmpty = (part == "") := by
    rw [Bool.eq_iff_iff]
    simp
  rw [Path.isBlank, Bool.not_or, bne, isEmpty]

theorem withoutExtension_eq (name : String) : withoutExtension name = (Path.splitName name).1 := by
  simp only [withoutExtension, Path.splitName, Text.splitLast?]
  rcases name.toList.reverse.drop (name.toList.reverse.takeWhile (· != '.')).length with
    _ | ⟨dot, _ | ⟨c, before⟩⟩
  · rfl
  · rfl
  · simp

theorem moduleParts_eq {path name : String} (isLast : (Path.steps path).getLast? = some name) :
    moduleParts path = (Path.steps path).dropLast ++ [(Path.splitName name).1] := by
  rw [← withoutExtension_eq, moduleParts, pathParts_eq, isLast]

theorem slashless_of_mem_moduleParts {path part : String} (isPart : part ∈ moduleParts path) :
    '/' ∉ part.toList := by
  obtain ⟨whole, isWhole, within⟩ := exists_of_mem_moduleParts isPart
  exact fun isIn =>
    Path.slashless_of_mem_split (List.mem_of_mem_filter isWhole) (within '/' isIn)

/-- The parts of a specifier: the way up to where the two paths part, and from there the path of
the imported file. -/
theorem parts_specifier (importer : String) {imported name : String} {folder : List String}
    (isTarget : moduleParts imported = folder ++ [name]) :
    ∃ base inner rest, (Path.steps importer).dropLast = base ++ inner ∧ folder = base ++ rest ∧
      Path.parts (specifier importer imported) =
        (if inner = [] then ["."] else List.replicate inner.length "..") ++ (rest ++ [name]) := by
  obtain ⟨base, inner, rest, isAround, isFolder, isLength⟩ :=
    exists_common (Path.steps importer).dropLast folder
  refine ⟨base, inner, rest, isAround, isFolder, ?_⟩
  have isSpecifier : specifier importer imported = "/".intercalate
      ((if inner = [] then ["."] else List.replicate inner.length "..") ++ (rest ++ [name])) := by
    simp only [specifier, pathParts_eq, isTarget, List.dropLast_concat]
    rw [← isLength, isAround, List.length_append, Nat.add_sub_cancel_left, isFolder,
      List.append_assoc, List.drop_left]
    cases inner <;> rfl
  rw [isSpecifier]
  refine Path.parts_intercalate (by simp) fun part isPart => ?_
  rcases List.mem_append.mp isPart with isUp | isRest
  · have isDots : part = "." ∨ part = ".." := by
      split at isUp
      · exact .inl (List.mem_singleton.mp isUp)
      · exact .inr (List.eq_of_mem_replicate isUp)
    rcases isDots with rfl | rfl <;> decide
  · have isListed : part ∈ moduleParts imported := by
      rw [isTarget, isFolder, List.append_assoc]
      exact List.mem_append_right base isRest
    exact slashless_of_mem_moduleParts isListed

/-- From the folder of the file that imports, a specifier leads to the imported file without its
extension, and it says from the start that it is relative. -/
theorem follow_specifier {importer imported name : String}
    (stays : ".." ∉ Path.parts imported) (isLast : (Path.steps imported).getLast? = some name)
    (speaks : (Path.splitName name).1 ≠ "." ∧ (Path.splitName name).1 ≠ "..") :
    follow (Path.steps importer).dropLast (Path.parts (specifier importer imported)) =
        some ((Path.steps imported).dropLast ++ [(Path.splitName name).1]) ∧
      ("./".toList <+: (specifier importer imported).toList ∨
        "../".toList <+: (specifier importer imported).toList) := by
  obtain ⟨base, inner, rest, isAround, isFolder, isParts⟩ :=
    parts_specifier importer (moduleParts_eq isLast)
  have plain : ∀ part ∈ rest ++ [(Path.splitName name).1], part ≠ "." ∧ part ≠ ".." := by
    intro part isPart
    rcases List.mem_append.mp isPart with isRest | isName
    · have isStep : part ∈ Path.steps imported :=
        List.mem_of_mem_dropLast (isFolder ▸ List.mem_append_right base isRest)
      obtain ⟨isPart, speaks⟩ := List.mem_filter.mp isStep
      constructor
      · rintro rfl
        exact absurd speaks (by decide)
      · rintro rfl
        exact stays isPart
    · exact List.mem_singleton.mp isName ▸ speaks
  rw [isAround, isFolder, List.append_assoc, isParts]
  cases inner with
  | nil =>
      constructor
      · rw [if_pos rfl, List.append_nil, List.singleton_append, follow, if_pos rfl,
          follow_names plain]
      · exact .inl (Path.prefix_of_split isParts (by simp))
  | cons outer inner =>
      constructor
      · rw [if_neg (List.cons_ne_nil outer inner), follow_up, follow_names plain]
      · exact .inr (Path.prefix_of_split isParts (by simp))

theorem follow_specifier_up :
    follow ["src", "a"] (Path.parts (specifier "src/a/./Root.tsx" "src//b.ts/a.test.tsx")) =
        some ["src", "b.ts", "a.test"] ∧
      ("./".toList <+: (specifier "src/a/./Root.tsx" "src//b.ts/a.test.tsx").toList ∨
        "../".toList <+: (specifier "src/a/./Root.tsx" "src//b.ts/a.test.tsx").toList) :=
  @follow_specifier "src/a/./Root.tsx" "src//b.ts/a.test.tsx" "a.test.tsx"
    (by decide) (by decide) (by decide)

end Project

end StopMotion
