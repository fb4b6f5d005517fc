import StopMotion.Proofs.Project.Installation

/-!
# Recoveries that settle a project

Where nothing is in the way of a manifest, one pass makes everything that a project lacks, in
whatever order the manifest names it, and nothing is left for a second recovery to do. A lock of a
process that is gone is in nobody's way. The path of every entry must end in a name, though: a
folder is not made by a path that ends in a lone dot.
-/

namespace StopMotion.Project

open FileTree (Inward Roots)

variable {project : String} {root : List String} {manifest : Manifest} {plan : RecoveryPlan}
  {world : World} {before after : FileTree} {entry other : ManifestEntry}

/-- Where everything is met, a recovery does nothing. -/
theorem leaves_recover_healthy
    (met : ∀ entry ∈ manifest.entries, entry.metIn project world.tree = .present) :
    World.Leaves (recover project manifest plan) world fun answer after =>
      (∃ report, answer = .ok report ∧ report.state = .healthy ∧ report.actions = []) ∧
        after = world.tree := by
  refine (leaves_survey project manifest.entries world).bind fun shortfall tree asked => ?_
  obtain ⟨rfl, rfl⟩ := asked
  rw [lacks_eq_none met]
  exact .pure ⟨⟨_, rfl, rfl, rfl⟩, rfl⟩

/-- A recovery of a project that can be made, with nothing in the way of its manifest and no lock
but one that is stale, is complete after at most one pass, and another recovery finds the project
healthy and leaves it as it is. -/
theorem recover_converges (workable : manifest.Workable)
    (makeable : world.tree.Roots project root ∨ Room project root world.tree)
    (fits : manifest.Fits root world.tree)
    (free : world.tree.get? (lockPlace root) = none ∨ Stale world world.tree (lockPlace root))
    (filled : ∀ text, plan.payload = some text → text ≠ "") (budget : 1 ≤ plan.budget)
    (later : RecoveryPlan) :
    World.Leaves (recover project manifest plan) world fun answer after =>
      (∃ report, answer = .ok report ∧ report.isComplete = true ∧ report.attempts ≤ 1) ∧
      World.Leaves (recover project manifest later) { world with tree := after }
        fun answer left => (∃ report, answer = .ok report ∧ report.state = .healthy ∧
          report.actions = []) ∧ left = after := by
  refine (leaves_recover_settled workable makeable fits free filled budget).mono
    fun answer after recovered => ?_
  obtain ⟨isOk, met, -⟩ := recovered
  exact ⟨isOk, leaves_recover_healthy met⟩

/-! ## Folders that no path ends in -/

/-- No folder is made by a path that ends in a part that says nothing. -/
theorem leaves_makeFolder_blank {path : String} (ends : Path.EndsBlank (Path.trimSlashes path))
    (filled : Path.trimSlashes path ≠ "") :
    World.Leaves (Host.makeFolder path) world fun answer after =>
      (∃ error, answer = .error error) ∧ after = world.tree := by
  refine (World.leaves_change _).mono fun answer after changed => ?_
  rcases changed with ⟨-, made⟩ | ⟨error, rfl, -, rfl⟩
  · obtain ⟨place, located, made⟩ := Except.bind_eq_ok made
    rw [FileTree.locateNew, if_neg (by simpa using filled)] at located
    rw [FileTree.folder_of_endsBlank located ends] at made
    cases made
  · exact ⟨⟨error, rfl⟩, rfl⟩

/-- The folders around are made by such a path, but not the one that it leads to. -/
theorem leaves_makeFolders_blank {path : String} {names : List String}
    (roots : world.tree.Roots project root) (inward : Inward names)
    (goesOn : Path.GoesOn project names path) (ends : Path.EndsBlank (Path.trimSlashes path))
    (filled : Path.trimSlashes path ≠ "") (vacant : world.tree.get? (root ++ names) = none) :
    World.Leaves (Files.makeFolders path) world fun _ after =>
      after.get? (root ++ names) = none := by
  have named : names ≠ [] := by
    rintro rfl
    rw [List.append_nil, roots.folder] at vacant
    cases vacant
  have refused (error : HostError) (tree : FileTree) (vacant : tree.get? (root ++ names) = none) :
      World.Leaves (Files.unlessThere path error) { world with tree } fun _ after =>
        after.get? (root ++ names) = none :=
    (World.leaves_unlessThere path error).mono fun _ _ same => same.1 ▸ vacant
  have notEmpty : path ≠ "" := by
    rintro rfl
    exact filled rfl
  cases isParent : Path.parent? path with
  | none =>
      have noSteps := goesOn.steps_eq ▸ Path.steps_of_parent?_eq_none isParent
      exact absurd (List.append_eq_nil_iff.mp noSteps).2 named
  | some parent =>
      obtain ⟨front, last, rfl, isLast, onwards⟩ := goesOn.parent named isParent
      rw [Files.makeFolders, Path.chain, Path.ancestors, if_neg (by simpa using notEmpty), isParent]
      unfold Files.makeChain
      refine (leaves_makeFolder_blank ends filled).bind fun answer tree asked => ?_
      obtain ⟨⟨error, rfl⟩, rfl⟩ := asked
      cases error with
      | notFound =>
          refine (FileTree.leaves_makeAncestors roots inward.of_append _
            fun filled => by rwa [if_neg filled] at onwards).bind fun answer tree widens => ?_
          have vacant : tree.get? (root ++ (front ++ last)) = none := by
            rwa [widens.elsewhere]
            rintro ⟨inner, rest, -, rfl, isPlace⟩
            have length := congrArg List.length isPlace
            simp only [List.length_append] at length
            omega
          cases answer with
          | error error => exact .pure vacant
          | ok _ =>
              refine (leaves_makeFolder_blank ends filled).bind fun answer tree asked => ?_
              obtain ⟨⟨error, rfl⟩, rfl⟩ := asked
              exact refused error _ vacant
      | busy | alreadyThere | notFolder | isFolder | denied | notText | other =>
          exact refused _ _ vacant

/-- Making an entry changes nothing that is not on the way to it. -/
theorem ManifestEntry.Builds.elsewhere {contents : String} {names : List String}
    (builds : other.Builds project contents root before after)
    (apart : ¬ names <+: other.names) :
    after.get? (root ++ names) = before.get? (root ++ names) := by
  obtain ⟨middle, widens, built⟩ := builds
  have same : middle.get? (root ++ names) = before.get? (root ++ names) := by
    refine widens.elsewhere _ ?_
    rintro ⟨inner, last, -, isNames, isPlace⟩
    exact apart ⟨last, by rw [List.append_cancel_left isPlace, isNames]⟩
  rcases built with rfl | ⟨-, notFolder, -, rfl⟩
  · exact same
  · rw [FileTree.get?_put (FileTree.ne_nil_of_not_folder notFolder), if_neg, same]
    intro isPlace
    exact apart (List.append_cancel_left isPlace ▸ List.prefix_refl _)

/-- A folder of a manifest that no path of the manifest makes: its own ends in a part that says
nothing, and it is not on the way to another entry. -/
structure ManifestEntry.Unmade (entry : ManifestEntry) (manifest : Manifest) : Prop where
  isIn : entry ∈ manifest.entries
  isFolder : entry.kind = .folder
  ends : Path.EndsBlank (Path.trimSlashes entry.path)
  alone (other : ManifestEntry) (isOther : other ∈ manifest.entries) (differs : other ≠ entry) :
    ¬ entry.names <+: other.names

/-- A project that is there, with nothing at a place inside it. -/
structure Without (project : String) (root names : List String) (tree : FileTree) : Prop where
  roots : tree.Roots project root
  vacant : tree.get? (root ++ names) = none

section Unmade

variable (isSound : manifest.Sound) (unmade : entry.Unmade manifest)

include isSound unmade

theorem leaves_makeEntry_without (isOther : other ∈ manifest.entries)
    (missing : Without project root entry.names world.tree) :
    World.Leaves (makeEntry project manifest plan other) world fun _ after =>
      Without project root entry.names after := by
  obtain ⟨roots, vacant⟩ := missing
  have sound := isSound.entry other isOther
  have builds := @leaves_makeEntry project root manifest plan other world roots sound
  by_cases same : other = entry
  · subst same
    have isTrimmed : Path.trimSlashes (other.locate project) = other.locate project :=
      Path.trimSlashes_of_endsInSlash sound.endsInSlash_locate
    have misses : World.Leaves (makeEntry project manifest plan other) world fun _ after =>
        after.get? (root ++ other.names) = none := by
      unfold makeEntry
      rw [unmade.isFolder]
      refine (leaves_makeFolders_blank roots sound.inward sound.goesOn
        (isTrimmed.symm ▸ (ManifestEntry.endsBlank_locate sound).mpr unmade.ends)
        (isTrimmed.symm ▸ sound.locate_ne_empty) vacant).bind fun answer after vacant => ?_
      cases answer with
      | ok _ => exact .pure vacant
      | error _ => exact .pure vacant
    refine (builds.and misses).mono fun _ _ made => ?_
    obtain ⟨built, vacantAfter⟩ := made
    exact ⟨roots.mono built.steady.home built.steady.folder, vacantAfter⟩
  · refine builds.mono fun _ _ built => ?_
    exact ⟨roots.mono built.steady.home built.steady.folder,
      (built.elsewhere (unmade.alone other isOther same)).trans vacant⟩

theorem leaves_passes_without (missing : Without project root entry.names world.tree) (left : Nat)
    (progress : Progress) :
    World.Leaves (passes project manifest plan left progress) world fun _ after =>
      Without project root entry.names after := by
  induction left generalizing progress world with
  | zero => exact .pure missing
  | succ left inductionHypothesis =>
      unfold passes
      split
      · exact .pure missing
      · have passed : World.Leaves (pass project manifest plan progress) world fun _ after =>
            Without project root entry.names after := by
          refine (World.leaves_mapM_keeps missing fun other isListed inner kept => ?_).bind
            fun actions tree kept => ?_
          · exact leaves_makeEntry_without isSound unmade (List.mem_of_mem_filter isListed) kept
          · refine (leaves_survey project manifest.entries _).bind fun shortfall after asked => ?_
            obtain ⟨-, rfl⟩ := asked
            exact .pure kept
        exact passed.bind fun next tree kept => inductionHypothesis kept next

theorem leaves_lockedPasses_without (spares : manifest.SparesLock)
    (missing : Without project root entry.names world.tree) (left : Nat) (progress : Progress) :
    World.Leaves (withLock project (passes project manifest plan left progress)) world
      fun _ after => Without project root entry.names after := by
  have isOther : root ++ entry.names ≠ lockPlace root :=
    spares.not_between unmade.isIn (List.append_nil _).symm
  have works (locked : FileTree) (taken : Taken world root locked) :
      World.Leaves (passes project manifest plan left progress) { world with tree := locked }
        fun _ worked => worked.Roots project root ∧
          (∃ text, worked.get? (lockPlace root) = some (.file text)) ∧
          Without project root entry.names worked := by
    have missingLocked : Without project root entry.names locked :=
      ⟨taken.roots missing.roots, (taken.elsewhere _ isOther).trans missing.vacant⟩
    refine ((@leaves_passes_without project root manifest plan { world with tree := locked } entry
      isSound unmade missingLocked left progress).and (leaves_passes_steady left progress)).mono
        fun _ worked passed => ?_
    obtain ⟨missingWorked, steady⟩ := passed
    exact ⟨missingWorked.roots, steady.file _ _ taken.held, missingWorked⟩
  refine (leaves_withLock missing.roots works).mono fun answer after locked => ?_
  rcases locked with ⟨-, -, rfl⟩ | ⟨last, worked, -, -, ⟨text, isLock⟩, missingWorked, -, rfl⟩
  · exact missing
  · refine ⟨roots_erase missingWorked.roots isLock, ?_⟩
    rw [FileTree.get?_erase lockPlace_ne_nil, if_neg isOther, missingWorked.vacant]

theorem leaves_recover_without (spares : manifest.SparesLock)
    (there : world.tree.find project = .ok (root, .folder))
    (missing : Without project root entry.names world.tree) :
    World.Leaves (recover project manifest plan) world fun _ after =>
      Without project root entry.names after := by
  refine (leaves_survey project manifest.entries world).bind fun shortfall tree asked => ?_
  obtain ⟨-, rfl⟩ := asked
  split
  · exact .pure missing
  · refine (leaves_makeProject there).bind fun answer tree made => ?_
    obtain ⟨rfl, rfl⟩ := made
    refine (leaves_lockedPasses_without isSound unmade spares missing _ _).bind
      fun answer after kept => ?_
    cases answer with
    | ok _ => exact .pure kept
    | error _ => exact .pure kept

end Unmade

/-- No budget suffices for a folder that no path of the manifest makes: where it is missing it
stays missing, and no recovery is complete. -/
theorem recover_misses (faultless : manifest.fault? = none) (spares : manifest.SparesLock)
    (whole : world.tree.WellFormed) (there : world.tree.find project = .ok (root, .folder))
    (unmade : entry.Unmade manifest) (vacant : world.tree.get? (root ++ entry.names) = none) :
    World.Leaves (recover project manifest plan) world fun answer after =>
      after.get? (root ++ entry.names) = none ∧
        ∀ report, answer = .ok report → report.isComplete = false := by
  have isSound := manifest.sound_of_fault? faultless
  have stays := @leaves_recover_without project root manifest plan world entry isSound unmade spares
    there ⟨FileTree.roots_of_find there, vacant⟩
  refine (stays.and (recover_recovered faultless spares whole there)).mono
    fun answer after recovered => ?_
  obtain ⟨⟨roots, vacantAfter⟩, tells⟩ := recovered
  refine ⟨vacantAfter, fun report isReport => ?_⟩
  have lacking : entry.metIn project after ≠ .present := by
    rw [Ne, ManifestEntry.present_iff roots (isSound.entry entry unmade.isIn)]
    rintro ⟨there, finds, -⟩
    obtain ⟨-, -, isThere, -⟩ := FileTree.find_eq_ok_iff.mp finds
    cases vacantAfter.symm.trans isThere
  have isLacking := mem_paths_lacks.mpr ⟨entry, unmade.isIn, rfl, lacking⟩
  rw [← (tells report isReport).faithful] at isLacking
  by_contra isComplete
  rw [IntegrityReport.isComplete, Bool.not_eq_false, Shortfall.isComplete, List.isEmpty_iff]
    at isComplete
  rw [isComplete] at isLacking
  cases isLacking

end StopMotion.Project
