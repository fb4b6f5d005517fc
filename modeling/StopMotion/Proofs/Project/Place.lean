import StopMotion.Proofs.Project.Manifest

/-!
# Places of entries

Every entry of a manifest without a fault is the project or lies below it. Two entries may be
spellings of one place, as a path may have parts that say nothing; where no path has such parts,
different entries are at different places.
-/

namespace StopMotion.Path

/-- The parts of a path with slashes between them are its characters. -/
theorem intercalate_split (chars : List Char) :
    ['/'].intercalate ((parts.split chars).map String.toList) = chars := by
  induction chars with
  | nil => rfl
  | cons c rest inductionHypothesis =>
      obtain ⟨part, more, isSplit⟩ := List.exists_cons_of_ne_nil (split_ne_nil rest)
      rw [isSplit] at inductionHypothesis
      rw [parts.split]
      split
      · rename_i isSlash
        subst isSlash
        rw [isSplit]
        simp [List.intercalate, ← inductionHypothesis]
      · rw [isSplit]
        cases more <;> simp [List.intercalate, ← inductionHypothesis]

theorem parts_injective : Function.Injective parts := by
  intro first second same
  have same : parts.split first.toList = parts.split second.toList := same
  rw [← String.toList_inj, ← intercalate_split first.toList, same, intercalate_split]

/-- A path ends in a slash if its last part is empty and it says anything. -/
theorem endsInSlash_iff {path : String} (filled : path ≠ "") :
    endsInSlash path = true ↔ (parts path).getLast? = some "" := by
  have last := getLast?_split path.toList.reverse
  rw [List.reverse_reverse] at last
  rw [parts, last, endsInSlash, ← List.head?_reverse]
  have nonempty : path.toList.reverse ≠ [] := by simpa using filled
  obtain ⟨c, rest, isReversed⟩ := List.exists_cons_of_ne_nil nonempty
  rw [isReversed]
  by_cases isSlash : c = '/' <;> simp [isSlash]

end StopMotion.Path

namespace StopMotion.Project

open FileTree (Inward)

namespace ManifestEntry

/-- Every part of the path of an entry says something, up to a slash at its end. -/
structure IsPlain (entry : ManifestEntry) : Prop where
  inner : ∀ part ∈ (Path.parts entry.path).dropLast, ¬Path.isBlank part
  noDot : (Path.parts entry.path).getLast? ≠ some "."

/-- Two paths lead to one place: both from the top or both from here, by the same names. -/
def SamePlace (first second : String) : Prop :=
  Path.isAbsolute first = Path.isAbsolute second ∧ Path.steps first = Path.steps second

variable {entry other : ManifestEntry} {project : String}

theorem Sound.samePlace_iff (sound : entry.Sound) (otherSound : other.Sound) :
    SamePlace (entry.locate project) (other.locate project) ↔ entry.names = other.names := by
  rw [SamePlace, sound.goesOn.isAbsolute_eq, otherSound.goesOn.isAbsolute_eq,
    sound.goesOn.steps_eq, otherSound.goesOn.steps_eq, List.append_cancel_left_eq]
  exact and_iff_right rfl

/-- A plain path is its names, with an empty part behind them if it ends in a slash. -/
theorem IsPlain.parts_eq (plain : entry.IsPlain) (filled : entry.path ≠ "") :
    Path.parts entry.path = entry.names ++ if Path.endsInSlash entry.path then [""] else [] := by
  obtain ⟨inner, noDot⟩ := plain
  have ends := Path.endsInSlash_iff filled
  rw [names, Path.steps_eq]
  rcases List.eq_nil_or_concat (Path.parts entry.path) with isNil | ⟨front, last, isParts⟩
  · exact absurd isNil (Path.split_ne_nil _)
  · rw [isParts] at inner noDot ends ⊢
    have frontStays : front.filter (fun part => !Path.isBlank part) = front :=
      List.filter_eq_self.2 fun part isIn => by simpa using inner part (by simpa using isIn)
    by_cases isSlash : last = ""
    · subst isSlash
      have saysNothing : Path.isBlank "" = true := rfl
      simp [ends, frontStays, saysNothing]
    · have speaks : Path.isBlank last = false := by simpa [Path.isBlank, isSlash] using noDot
      have noSlash : Path.endsInSlash entry.path = false := by simpa [isSlash] using ends
      simp [noSlash, frontStays, speaks]

theorem IsPlain.path_eq (plain : entry.IsPlain) (otherPlain : other.IsPlain)
    (filled : entry.path ≠ "") (otherFilled : other.path ≠ "")
    (alike : Path.endsInSlash entry.path = Path.endsInSlash other.path)
    (same : entry.names = other.names) : entry.path = other.path := by
  apply Path.parts_injective
  rw [plain.parts_eq filled, otherPlain.parts_eq otherFilled, alike, same]

theorem Sound.path_ne_empty (sound : entry.Sound) : entry.path ≠ "" := by
  intro isEmpty
  exact sound.filled (by rw [isEmpty]; rfl)

end ManifestEntry

namespace Manifest

open ManifestEntry (SamePlace)

/-- No entry of a manifest without a fault leaves the project, and two of them with plain paths
are at different places if both paths end in a slash or none does. -/
theorem placed_of_fault? {manifest : Manifest} (faultless : manifest.fault? = none)
    (project : String) :
    (∀ entry ∈ manifest.entries, Inward entry.names ∧
      Path.isAbsolute (entry.locate project) = Path.isAbsolute project ∧
      Path.steps (entry.locate project) = Path.steps project ++ entry.names) ∧
    manifest.entries.Pairwise fun first second => first.IsPlain → second.IsPlain →
      Path.endsInSlash first.path = Path.endsInSlash second.path →
        ¬SamePlace (first.locate project) (second.locate project) := by
  have isSound := sound_of_fault? faultless
  constructor
  · intro entry isIn
    have sound := isSound.entry entry isIn
    exact ⟨sound.inward, sound.goesOn.isAbsolute_eq, sound.goesOn.steps_eq⟩
  · have differ := List.pairwise_map.1 isSound.distinct
    apply differ.imp_of_mem
    intro first second isFirst isSecond differ plain otherPlain alike same
    have firstSound := isSound.entry first isFirst
    have secondSound := isSound.entry second isSecond
    rw [firstSound.samePlace_iff secondSound] at same
    exact differ (plain.path_eq otherPlain firstSound.path_ne_empty secondSound.path_ne_empty
      alike same)

end Manifest

end StopMotion.Project
