import Mathlib.Data.List.Nodup
import StopMotion.Project.Manifest
import StopMotion.Proofs.Disk.Growth

/-!
# Entries of a manifest

A manifest without a fault names every path once, and the path of each entry goes inwards
from the project.
-/

namespace StopMotion.Project

open FileTree (Inward)
open StopMotion.Path (GoesOn)

namespace ManifestEntry

/-- The names on the way from a project to an entry. -/
def names (entry : ManifestEntry) : List String := Path.steps entry.path

/-- An entry without a fault. -/
structure Sound (entry : ManifestEntry) : Prop where
  filled : Path.trimSlashes entry.path ≠ ""
  relative : Path.isAbsolute (Path.trimSlashes entry.path) = false
  inward : Inward entry.names
  payload (isPrimary : entry.isPrimary = true) : entry.kind = .file

theorem sound_of_entryFault? {earlier : List ManifestEntry} {position : Nat}
    {entry : ManifestEntry} (faultless : Manifest.entryFault? earlier position entry = none) :
    entry.Sound ∧ ∀ other ∈ earlier, other.path ≠ entry.path := by
  rw [Manifest.entryFault?] at faultless
  split at faultless
  · cases faultless
  rename_i filled
  split at faultless
  · cases faultless
  rename_i stays
  split at faultless
  · cases faultless
  rename_i isNew
  simp only [Manifest.escapes, Bool.or_eq_true, not_or, Bool.not_eq_true] at stays
  refine ⟨⟨by simpa using filled, stays.1, fun name isIn => ?_, fun isPrimary => ?_⟩,
    by simpa using isNew⟩
  · rw [names, ← Path.steps_trimSlashes, Path.steps_eq, List.mem_filter] at isIn
    refine ⟨by simpa using isIn.2, ?_⟩
    rintro rfl
    exact absurd (List.contains_iff_mem.mpr isIn.1) (by rw [stays.2]; nofun)
  · cases isKind : entry.kind with
    | file => rfl
    | folder => simp [isKind, isPrimary] at faultless

variable {entry : ManifestEntry} {project : String}

theorem Sound.goesOn (sound : entry.Sound) :
    GoesOn project entry.names (entry.locate project) where
  isAbsolute_eq := Path.isAbsolute_join sound.relative
  steps_eq := by
    rw [locate, Path.steps_join sound.relative, Path.steps_trimSlashes, names]

theorem Sound.endsInSlash_locate (sound : entry.Sound) :
    Path.endsInSlash (entry.locate project) = false := by
  rw [locate, Path.endsInSlash_join sound.relative sound.filled, Path.endsInSlash_trimSlashes]

end ManifestEntry

namespace Manifest

theorem sound_of_firstFault? {earlier entries : List ManifestEntry}
    (faultless : firstFault? earlier entries = none) :
    (∀ entry ∈ entries, entry.Sound ∧ ∀ other ∈ earlier, other.path ≠ entry.path) ∧
      (entries.map (·.path)).Nodup := by
  induction entries generalizing earlier with
  | nil => simp
  | cons entry rest inductionHypothesis =>
      rw [firstFault?] at faultless
      split at faultless
      · cases faultless
      · rename_i isSound
        obtain ⟨soundRest, distinct⟩ := inductionHypothesis faultless
        refine ⟨?_, ?_⟩
        · rintro other (_ | ⟨_, isIn⟩)
          · exact ManifestEntry.sound_of_entryFault? isSound
          · exact ⟨(soundRest other isIn).1, fun before isBefore =>
              (soundRest other isIn).2 before (List.mem_append_left _ isBefore)⟩
        · rw [List.map_cons, List.nodup_cons]
          refine ⟨fun isIn => ?_, distinct⟩
          obtain ⟨other, isOther, isPath⟩ := List.mem_map.mp isIn
          exact (soundRest other isOther).2 entry (by simp) isPath.symm

/-- A manifest without a fault. -/
structure Sound (manifest : Manifest) : Prop where
  entry (entry : ManifestEntry) (isIn : entry ∈ manifest.entries) : entry.Sound
  distinct : (manifest.entries.map (·.path)).Nodup

theorem sound_of_fault? {manifest : Manifest} (faultless : manifest.fault? = none) :
    manifest.Sound := by
  rw [fault?] at faultless
  split at faultless
  · cases faultless
  · split at faultless
    · cases faultless
    · rename_i isSound
      obtain ⟨sound, distinct⟩ := sound_of_firstFault? isSound
      exact ⟨fun entry isIn => (sound entry isIn).1, distinct⟩

theorem exists_entry {manifest : Manifest} (faultless : manifest.fault? = none) :
    ∃ entry, entry ∈ manifest.entries := by
  rw [fault?] at faultless
  split at faultless
  · cases faultless
  · rename_i filled
    exact List.exists_mem_of_ne_nil _ (by simpa using filled)

end Manifest

end StopMotion.Project
