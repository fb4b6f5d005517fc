import Mathlib.Data.List.Forall2
import StopMotion.Render

/-!
# Arguments of a renderer

What it means to fill in all placeholders of an argument at once, and when filling them in one
after the other comes to the same. What has been filled in is read again for the placeholders
that are still to be filled in. So the entry point and the composition have to be such that no
placeholder can be made out of them, neither inside nor across one of their ends; nothing is
asked of the path of the video, which is filled in last.
-/

namespace StopMotion

/-! ## Replacing -/

namespace Text

variable {wanted replacement text rest : List Char} {c : Char}

/-- What is left of an occurrence is passed over. -/
theorem replaceFrom_skip (wanted replacement taken rest : List Char) :
    replaceFrom wanted replacement taken.length (taken ++ rest) =
      replaceFrom wanted replacement 0 rest := by
  induction taken with
  | nil => rfl
  | cons _ _ inductionHypothesis => exact inductionHypothesis

/-- An occurrence is recognised. -/
theorem isSome_after?_iff : (after? wanted text).isSome = true ↔ wanted <+: text := by
  rw [Option.isSome_iff_exists]
  constructor
  · rintro ⟨behind, found⟩
    exact ⟨behind, (after?_eq_some_iff.mp found).symm⟩
  · rintro ⟨behind, rfl⟩
    exact ⟨behind, after?_eq_some_iff.mpr rfl⟩

/-- An occurrence at the start is replaced. -/
theorem replaceFrom_append (replacement rest : List Char) (filled : wanted ≠ []) :
    replaceFrom wanted replacement 0 (wanted ++ rest) =
      replacement ++ replaceFrom wanted replacement 0 rest := by
  obtain ⟨first, more, rfl⟩ := List.exists_cons_of_ne_nil filled
  have occurs : (after? (first :: more) (first :: (more ++ rest))).isSome = true :=
    isSome_after?_iff.mpr ⟨rest, rfl⟩
  rw [List.cons_append, replaceFrom, occurs, if_pos (by rfl), List.length_cons,
    Nat.add_sub_cancel, replaceFrom_skip]

/-- A character where no occurrence begins stays. -/
theorem replaceFrom_cons (replacement : List Char) (absent : ¬ wanted <+: c :: rest) :
    replaceFrom wanted replacement 0 (c :: rest) =
      c :: replaceFrom wanted replacement 0 rest := by
  rw [← isSome_after?_iff, Bool.not_eq_true] at absent
  rw [replaceFrom, absent, Bool.false_and, if_neg Bool.false_ne_true]

/-- A text in which no occurrence begins stays. -/
theorem replaceFrom_keep (replacement rest : List Char)
    (absent : c ∉ text) : replaceFrom (c :: wanted) replacement 0 (text ++ rest) =
      text ++ replaceFrom (c :: wanted) replacement 0 rest := by
  induction text with
  | nil => rfl
  | cons first text inductionHypothesis =>
      obtain ⟨differs, absent⟩ := List.ne_and_not_mem_of_not_mem_cons absent
      rw [List.cons_append, replaceFrom_cons replacement fun occurs =>
        differs (List.cons_prefix_cons.mp occurs).1, inductionHypothesis absent]
      rfl

end Text

namespace Render

/-! ## Placeholders -/

/-- What a job fills in. -/
inductive Placeholder where
  | entry | composition | out
  deriving DecidableEq, Repr

namespace Placeholder

/-- The name of a placeholder. -/
def name : Placeholder → List Char
  | entry => ['e', 'n', 't', 'r', 'y']
  | composition => ['c', 'o', 'm', 'p', 'o', 's', 'i', 't', 'i', 'o', 'n']
  | out => ['o', 'u', 't']

/-- What stands behind the brace that opens a placeholder. -/
def tail (placeholder : Placeholder) : List Char := placeholder.name ++ ['\x7d']

/-- How a placeholder is written: its name in braces. -/
def marker (placeholder : Placeholder) : List Char := '\x7b' :: placeholder.tail

theorem not_mem_tail (placeholder : Placeholder) : '\x7b' ∉ placeholder.tail := by
  cases placeholder <;> decide

/-- No placeholder is the beginning of another one. -/
theorem eq_of_prefix {first second : Placeholder} {rest rest' : List Char}
    (same : first.marker ++ rest = second.marker ++ rest') : first = second := by
  cases first <;> cases second <;> first | rfl | simp [marker, tail, name] at same

end Placeholder

/-- What a job fills in for a placeholder. -/
def Job.value (job : Job) : Placeholder → List Char
  | .entry => job.entry.toList
  | .composition => job.composition.toList
  | .out => job.out.toList

/-- The second text is the first one with all placeholders filled in at once: each is read in the
first text, and what is filled in is not read. -/
inductive Filled (job : Job) : List Char → List Char → Prop where
  | nil : Filled job [] []
  | value (placeholder : Placeholder) {rest filled : List Char} (behind : Filled job rest filled) :
      Filled job (placeholder.marker ++ rest) (job.value placeholder ++ filled)
  | plain {c : Char} {rest filled : List Char}
      (absent : ∀ placeholder : Placeholder, ¬ placeholder.marker <+: c :: rest)
      (behind : Filled job rest filled) : Filled job (c :: rest) (c :: filled)

variable {job : Job}

/-- Every argument can be filled in. -/
theorem exists_filled (job : Job) (argument : List Char) :
    ∃ filled, Filled job argument filled := by
  induction size : argument.length using Nat.strongRecOn generalizing argument with
  | ind size' inductionHypothesis =>
      cases argument with
      | nil => exact ⟨_, .nil⟩
      | cons c rest =>
          by_cases occurs : ∃ placeholder : Placeholder, placeholder.marker <+: c :: rest
          · obtain ⟨placeholder, behind, same⟩ := occurs
            obtain ⟨filled, isFilled⟩ := inductionHypothesis behind.length (by
              rw [← size, ← same, List.length_append, Placeholder.marker, List.length_cons]
              omega) behind rfl
            rw [← same]
            exact ⟨_, .value placeholder isFilled⟩
          · obtain ⟨filled, isFilled⟩ :=
              inductionHypothesis rest.length (by rw [← size]; exact Nat.lt_succ_self _) rest rfl
            exact ⟨_, .plain (not_exists.mp occurs) isFilled⟩

/-- There is one way to fill in an argument. -/
theorem Filled.unique {argument filled filled' : List Char} (isFilled : Filled job argument filled)
    (isFilled' : Filled job argument filled') : filled = filled' := by
  induction isFilled generalizing filled' with
  | nil => cases isFilled' with
    | nil => rfl
  | value placeholder _ inductionHypothesis =>
      generalize same : placeholder.marker ++ _ = argument at isFilled'
      cases isFilled' with
      | nil => cases same
      | value placeholder' behind =>
          obtain rfl := Placeholder.eq_of_prefix same
          rw [inductionHypothesis (List.append_cancel_left same ▸ behind)]
      | plain absent _ => exact absurd ⟨_, same⟩ (absent placeholder)
  | @plain c rest filled absent _ inductionHypothesis =>
      generalize same : c :: rest = argument at isFilled'
      cases isFilled' with
      | nil => cases same
      | value placeholder _ => exact absurd ⟨_, same.symm⟩ (absent placeholder)
      | plain _ behind =>
          obtain ⟨rfl, rfl⟩ := List.cons.inj same
          rw [inductionHypothesis behind]

/-! ## One after the other -/

/-- A value that no part of a placeholder can be made out of. Without braces it can only stand
between those of a placeholder, and then it is part of the name. -/
structure Inert (value : List Char) (placeholder : Placeholder) : Prop where
  opens : '\x7b' ∉ value
  closes : '\x7d' ∉ value
  apart : ¬ value <:+: placeholder.name

/-- A value is not the beginning of what goes on a placeholder. -/
theorem not_prefix_append {value tail : List Char} (closes : '\x7d' ∉ value)
    (apart : ¬ value <:+: tail) (rest : List Char) : ¬ tail ++ ['\x7d'] <+: value ++ rest := by
  intro begins
  rcases List.prefix_or_prefix_of_prefix begins (List.prefix_append value rest) with within | longer
  · exact closes (within.subset (List.mem_append_right _ (List.mem_singleton_self _)))
  · rcases List.prefix_concat_iff.mp longer with rfl | inTail
    · exact closes (List.mem_append_right _ (List.mem_singleton_self _))
    · exact apart inTail.isInfix

/-- What stands behind the brace of a placeholder after a replacement stood there before it. -/
theorem prefix_of_prefix_replaceFrom {wanted value tail text : List Char}
    (closes : '\x7d' ∉ value) (apart : ¬ value <:+: tail)
    (begins : tail ++ ['\x7d'] <+: Text.replaceFrom wanted value 0 text) :
    tail ++ ['\x7d'] <+: text := by
  induction text generalizing tail with
  | nil => exact begins
  | cons c rest inductionHypothesis =>
      rw [Text.replaceFrom] at begins
      split at begins
      · exact absurd begins (not_prefix_append closes apart _)
      · cases tail with
        | nil =>
            have same := (List.cons_prefix_cons.mp begins).1
            exact List.cons_prefix_cons.mpr ⟨same, List.nil_prefix⟩
        | cons first tail =>
            obtain ⟨same, begins⟩ := List.cons_prefix_cons.mp begins
            exact List.cons_prefix_cons.mpr ⟨same, inductionHypothesis
              (fun inTail => apart (inTail.trans (List.suffix_cons _ _).isInfix)) begins⟩

/-- Filling in an inert value makes no placeholder. -/
theorem Inert.marker_prefix {value wanted rest : List Char} {placeholder : Placeholder} {c : Char}
    (inert : Inert value placeholder)
    (begins : placeholder.marker <+: c :: Text.replaceFrom wanted value 0 rest) :
    placeholder.marker <+: c :: rest := by
  obtain ⟨same, begins⟩ := List.cons_prefix_cons.mp begins
  exact List.cons_prefix_cons.mpr
    ⟨same, prefix_of_prefix_replaceFrom inert.closes inert.apart begins⟩

/-- A text in which a job fills in one placeholder. -/
def Job.put (job : Job) (placeholder : Placeholder) (text : List Char) : List Char :=
  Text.replaceFrom placeholder.marker (job.value placeholder) 0 text

theorem toList_fill (job : Job) (argument : String) :
    (job.fill argument).toList =
      job.put .out (job.put .composition (job.put .entry argument.toList)) := by
  simp only [Job.fill, Text.replaceAll, String.toList_ofList]
  rfl

/-- A placeholder is filled in where it stands. -/
theorem put_own (placeholder : Placeholder) (rest : List Char) :
    job.put placeholder (placeholder.marker ++ rest) =
      job.value placeholder ++ job.put placeholder rest :=
  Text.replaceFrom_append _ _ (List.cons_ne_nil _ _)

/-- Another placeholder is left as it is. -/
theorem put_other {placeholder other : Placeholder} (differs : other ≠ placeholder)
    (rest : List Char) :
    job.put placeholder (other.marker ++ rest) = other.marker ++ job.put placeholder rest := by
  have absent : ¬ placeholder.marker <+: '\x7b' :: (other.tail ++ rest) := fun ⟨_, same⟩ =>
    differs (Placeholder.eq_of_prefix same).symm
  rw [Placeholder.marker, List.cons_append, Job.put, Text.replaceFrom_cons _ absent]
  exact congrArg _ (Text.replaceFrom_keep _ _ other.not_mem_tail)

/-- A value without an opening brace is left as it is. -/
theorem put_value {placeholder : Placeholder} {value : List Char} (opens : '\x7b' ∉ value)
    (rest : List Char) : job.put placeholder (value ++ rest) = value ++ job.put placeholder rest :=
  Text.replaceFrom_keep _ _ opens

/-- A character where the placeholder does not begin is left as it is. -/
theorem put_plain {placeholder : Placeholder} {c : Char} {rest : List Char}
    (absent : ¬ placeholder.marker <+: c :: rest) :
    job.put placeholder (c :: rest) = c :: job.put placeholder rest :=
  Text.replaceFrom_cons _ absent

/-- A job with values that can be filled in one after the other: those that are filled in earlier
are inert for the placeholders that are filled in later. -/
structure Job.Orderly (job : Job) : Prop where
  entryComposition : Inert (job.value .entry) .composition
  entryOut : Inert (job.value .entry) .out
  compositionOut : Inert (job.value .composition) .out

/-- Placeholders that are filled in one after the other, as they are at once. -/
theorem Filled.put_eq {argument filled : List Char} (isFilled : Filled job argument filled)
    (orderly : job.Orderly) :
    job.put .out (job.put .composition (job.put .entry argument)) = filled := by
  induction isFilled with
  | nil => rfl
  | @value placeholder rest filled _ inductionHypothesis =>
      cases placeholder with
      | entry =>
          rw [put_own, put_value orderly.entryComposition.opens, put_value orderly.entryOut.opens,
            inductionHypothesis]
      | composition =>
          rw [put_other (by decide), put_own, put_value orderly.compositionOut.opens,
            inductionHypothesis]
      | out => rw [put_other (by decide), put_other (by decide), put_own, inductionHypothesis]
  | @plain c rest filled absent _ inductionHypothesis =>
      -- A placeholder that is made out in the text filled in so far was there from the start.
      have composition : ¬ Placeholder.composition.marker <+: c :: job.put .entry rest :=
        fun begins => absent _ (orderly.entryComposition.marker_prefix begins)
      have out : ¬ Placeholder.out.marker <+:
          c :: job.put .composition (job.put .entry rest) := fun begins =>
        absent _ (orderly.entryOut.marker_prefix (orderly.compositionOut.marker_prefix begins))
      rw [put_plain (absent _), put_plain composition, put_plain out, inductionHypothesis]

/-- Filled in one after the other, all placeholders of an argument are filled in as at once. -/
theorem filled_fill (orderly : job.Orderly) (argument : String) :
    Filled job argument.toList (job.fill argument).toList := by
  obtain ⟨filled, isFilled⟩ := exists_filled job argument.toList
  rw [toList_fill, isFilled.put_eq orderly]
  exact isFilled

/-- What is filled in is filled in again where it holds a placeholder: the entry point here is not
the one of the job. -/
theorem not_filled_entry : ¬ Filled ⟨"src/\x7bcomposition\x7d.ts", "Clock", "out/clock.mp4"⟩
    "\x7bentry\x7d".toList
    (Job.fill ⟨"src/\x7bcomposition\x7d.ts", "Clock", "out/clock.mp4"⟩ "\x7bentry\x7d").toList := by
  intro isFilled
  have same := isFilled.unique (.value .entry .nil)
  revert same
  decide +kernel

/-- A placeholder can also be made of a value and what stands around it. -/
theorem not_filled_composition : ¬ Filled ⟨"src/index.ts", "out", "out/clock.mp4"⟩
    "\x7b\x7bcomposition\x7d\x7d".toList
    (Job.fill ⟨"src/index.ts", "out", "out/clock.mp4"⟩ "\x7b\x7bcomposition\x7d\x7d").toList := by
  intro isFilled
  have same := isFilled.unique <|
    .plain (fun placeholder => by cases placeholder <;> decide +kernel) <|
      .value .composition <|
        .plain (fun placeholder => by cases placeholder <;> decide +kernel) .nil
  revert same
  decide +kernel

/-- The arguments of a renderer are its templates with all placeholders filled in at once. -/
theorem filled_argumentsFor (renderer : Renderer) (orderly : job.Orderly) :
    List.Forall₂ (fun template argument => Filled job template.toList argument.toList)
      renderer.arguments (renderer.argumentsFor job) :=
  List.forall₂_map_right_iff.mpr (List.forall₂_same.mpr fun template _ =>
    filled_fill orderly template)

/-- A video may have a path with placeholders in it. -/
theorem filled_fill_out : Filled ⟨"src/index.ts", "Clock", "\x7bentry\x7d.mp4"⟩
    "--to=\x7bout\x7d".toList "--to=\x7bentry\x7d.mp4".toList := by
  have orderly : Job.Orderly ⟨"src/index.ts", "Clock", "\x7bentry\x7d.mp4"⟩ := by
    constructor <;> constructor <;> decide +kernel
  exact filled_fill orderly "--to=\x7bout\x7d"

end Render

end StopMotion
