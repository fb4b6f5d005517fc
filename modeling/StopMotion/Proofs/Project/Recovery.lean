import StopMotion.Project.Recovery
import StopMotion.Proofs.Project.Lock
import StopMotion.Proofs.Project.Manifest

/-!
# What a recovery leaves of a project

Where the folder of a project is there, a recovery grows its tree at the places of the
manifest and on the way to them, and leaves no lock: folders stay, files that hold something
stay as they are, and the report says of the tree that is left what a fresh check says. The
invariant of the passes is growth from the tree in which the lock was taken. It carries
through a pass because an entry is only made where the survey before the pass met it
missing or malformed, and what the survey met is nothing that was to stay.
-/

namespace StopMotion.Project

open FileTree (Inward Grows Roots Between)

/-! ## Surveys -/

/-- How an entry is met in a tree. -/
def ManifestEntry.metIn (entry : ManifestEntry) (project : String) (tree : FileTree) : Presence :=
  entry.kind.presence (World.foundAt (entry.locate project) tree)

/-- What a project lacks in a tree. -/
def lacks (project : String) (tree : FileTree) : List ManifestEntry → Shortfall
  | [] => .none
  | entry :: rest => (lacks project tree rest).add entry.path (entry.metIn project tree)

theorem leaves_survey (project : String) (entries : List ManifestEntry) (world : World) :
    World.Leaves (survey project entries) world fun shortfall tree =>
      shortfall = lacks project world.tree entries ∧ tree = world.tree := by
  induction entries with
  | nil => exact .pure ⟨rfl, rfl⟩
  | cons entry rest inductionHypothesis =>
      have met : World.Leaves (entry.presence project) world fun presence tree =>
          presence = entry.metIn project world.tree ∧ tree = world.tree := by
        refine (World.leaves_ask _).bind fun found tree asked => ?_
        exact .pure ⟨congrArg entry.kind.presence asked.1, asked.2⟩
      refine met.bind fun presence tree asked => ?_
      obtain ⟨isMet, rfl⟩ := asked
      refine inductionHypothesis.bind fun shortfall tree surveyed => ?_
      rw [lacks]
      exact .pure ⟨by rw [isMet, surveyed.1], surveyed.2⟩

theorem lacks_congr {project : String} {entries : List ManifestEntry} {before after : FileTree}
    (same : ∀ entry ∈ entries, entry.metIn project before = entry.metIn project after) :
    lacks project before entries = lacks project after entries := by
  induction entries with
  | nil => rfl
  | cons entry rest inductionHypothesis =>
      rw [lacks, lacks, same entry (.head _),
        inductionHypothesis fun other isIn => same other (.tail _ isIn)]

/-- A path is lacking if an entry of that path is not met as it must be. -/
theorem mem_paths_lacks {project path : String} {entries : List ManifestEntry}
    {tree : FileTree} : path ∈ (lacks project tree entries).paths ↔
      ∃ entry ∈ entries, entry.path = path ∧ entry.metIn project tree ≠ .present := by
  induction entries with
  | nil => simp [lacks, Shortfall.none, Shortfall.paths]
  | cons entry rest inductionHypothesis =>
      rw [lacks]
      simp only [Shortfall.paths, List.mem_append] at inductionHypothesis ⊢
      simp only [List.mem_cons, exists_eq_or_imp, ← inductionHypothesis]
      cases met : entry.metIn project tree with
      | present => simp [Shortfall.add]
      | missing => simp [Shortfall.add, or_assoc, @eq_comm _ path]
      | malformed => simp [Shortfall.add, or_left_comm, @eq_comm _ path]

theorem ManifestEntry.Sound.locate_ne_empty {entry : ManifestEntry} {project : String}
    (sound : entry.Sound) : entry.locate project ≠ "" :=
  Path.join_ne_empty sound.relative sound.filled

/-- An entry is met alike where its path finds the same. -/
theorem ManifestEntry.metIn_congr {entry : ManifestEntry} {project : String}
    {before after : FileTree}
    (same : ∀ place there, before.find (entry.locate project) = .ok (place, there) ↔
      after.find (entry.locate project) = .ok (place, there)) :
    entry.metIn project before = entry.metIn project after := by
  simp only [metIn, World.foundAt]
  cases found : before.find (entry.locate project) with
  | ok answer => rw [(same answer.1 answer.2).mp found]
  | error _ =>
      cases foundAfter : after.find (entry.locate project) with
      | ok answer =>
          rw [(same answer.1 answer.2).mpr foundAfter] at found
          cases found
      | error _ => rfl

/-! ## Entries -/

/-- The places of a manifest in a project and those on the way to them. -/
def Manifest.Reaches (manifest : Manifest) (root place : List String) : Prop :=
  ∃ entry ∈ manifest.entries, Between root entry.names place

section Passes

variable {project : String} {root : List String} {manifest : Manifest} {plan : RecoveryPlan}
  {first middle : FileTree} {entry : ManifestEntry}

/-- Where a file entry is not met, there is no file that was to stay. -/
theorem loose_of_lacking (whole : first.WellFormed) (roots : first.Roots project root)
    (grows : first.Grows (manifest.Reaches root) middle) (sound : entry.Sound)
    (isFile : entry.kind = .file) (lacking : entry.metIn project middle ≠ .present)
    (speaks : ¬ Path.EndsBlank (entry.locate project)) (text : String)
    (there : first.get? (root ++ entry.names) = some (.file text)) : text = "" := by
  by_contra filled
  have leads : first.Leads (entry.locate project) (root ++ entry.names) := by
    rw [roots.leads_iff sound.inward sound.goesOn]
    refine ⟨rfl, fun inner last isNames isFilled => ?_⟩
    refine whole.folder_of_append isFilled ?_
    rw [List.append_assoc, ← isNames, there]
    nofun
  have found : middle.find (entry.locate project) = .ok (root ++ entry.names, .file text) := by
    rw [FileTree.find_eq_ok_iff]
    exact ⟨sound.locate_ne_empty, leads.mono grows.home grows.folder,
      grows.file _ _ there filled, fun ends => absurd ends speaks⟩
  have bytes : Text.size text.toList ≠ 0 := by
    rw [Ne, Text.size_eq_zero]
    simpa using filled
  apply lacking
  rw [ManifestEntry.metIn, World.foundAt, found, isFile]
  exact if_neg bytes

/-- What making an entry does: the folders on the way are made as far as they are, and behind
them the file. -/
def ManifestEntry.Builds (entry : ManifestEntry) (project contents : String)
    (root : List String) (before after : FileTree) : Prop :=
  ∃ middle, before.Widens (Between root entry.names) middle ∧
    (after = middle ∨ entry.kind = .file ∧ middle.get? (root ++ entry.names) ≠ some .folder ∧
      ¬ Path.EndsBlank (entry.locate project) ∧
      after = middle.put (root ++ entry.names) (.file contents))

theorem leaves_placeEntry {world : World} (roots : world.tree.Roots project root)
    (sound : entry.Sound) (isFile : entry.kind = .file) (named : entry.names ≠ [])
    (text : String) :
    World.Leaves (Files.place (entry.locate project) text) world fun _ after =>
      entry.Builds project text root world.tree after := by
  refine (FileTree.leaves_place roots sound.inward named sound.goesOn
    sound.endsInSlash_locate text).mono fun _ after placed => ?_
  obtain ⟨middle, widens, placed⟩ := placed
  exact ⟨middle, widens, placed.imp_right fun isPut => ⟨isFile, isPut⟩⟩

theorem leaves_makeEntry {world : World} (roots : world.tree.Roots project root)
    (sound : entry.Sound) :
    World.Leaves (makeEntry project manifest plan entry) world fun _ after =>
      entry.Builds project (entry.contents manifest plan) root world.tree after := by
  unfold makeEntry
  cases isKind : entry.kind with
  | file =>
      refine (World.leaves_isFolder _).bind fun answer tree asked => ?_
      obtain ⟨rfl, isFolder⟩ := asked
      cases answer with
      | true => exact .pure ⟨_, .refl _, .inl rfl⟩
      | false =>
          have named : entry.names ≠ [] := by
            intro isRoot
            have rootsEntry := roots.onwards_nil (isRoot ▸ sound.goesOn)
            exact nomatch isFolder.mpr ⟨root, rootsEntry.find sound.locate_ne_empty⟩
          refine (leaves_placeEntry roots sound isKind named _).bind fun answer after builds => ?_
          cases answer with
          | ok _ => exact .pure builds
          | error _ => exact .pure builds
  | folder =>
      refine (FileTree.leaves_makeAncestors roots sound.inward _ fun _ => sound.goesOn).bind
        fun answer after widens => ?_
      cases answer with
      | ok _ => exact .pure ⟨after, widens, .inl rfl⟩
      | error _ => exact .pure ⟨after, widens, .inl rfl⟩

/-- Making an entry grows a tree if no file that was to stay is in its place. -/
theorem ManifestEntry.Builds.grows {contents : String} {before after : FileTree}
    (builds : entry.Builds project contents root before after) (roots : first.Roots project root)
    (grows : first.Grows (manifest.Reaches root) before) (isIn : entry ∈ manifest.entries)
    (loose : entry.kind = .file → ¬ Path.EndsBlank (entry.locate project) → ∀ text,
      first.get? (root ++ entry.names) = some (.file text) → text = "") :
    first.Grows (manifest.Reaches root) after := by
  obtain ⟨middle, widens, built⟩ := builds
  have growsOn := grows.trans
    (widens.mono fun place between => ⟨entry, isIn, between⟩).grows
  rcases built with rfl | ⟨isFile, notFolder, speaks, rfl⟩
  · exact growsOn
  · have named : entry.names ≠ [] := by
      intro isRoot
      rw [isRoot, List.append_nil] at notFolder
      exact notFolder (growsOn.folder root roots.folder)
    exact growsOn.put ⟨entry, isIn, entry.names, [], named, by simp, rfl⟩ _ notFolder
      (loose isFile speaks)

/-- A pass over the manifest makes what the survey before it met missing or malformed. -/
theorem leaves_pass {world : World} {progress : Progress} (isSound : manifest.Sound)
    (whole : first.WellFormed) (roots : first.Roots project root)
    (grows : first.Grows (manifest.Reaches root) world.tree)
    (surveyed : progress.shortfall = lacks project world.tree manifest.entries) :
    World.Leaves (pass project manifest plan progress) world fun next after =>
      first.Grows (manifest.Reaches root) after ∧
        next.shortfall = lacks project after manifest.entries ∧
        next.attempts = progress.attempts + 1 := by
  unfold pass
  refine (World.leaves_mapM_keeps grows fun entry isLacking inner kept => ?_).bind
    fun actions tree kept => ?_
  · obtain ⟨isIn, isNamed⟩ := List.mem_filter.mp isLacking
    rw [surveyed, List.contains_iff_mem, mem_paths_lacks] at isNamed
    obtain ⟨other, isOther, isPath, lacking⟩ := isNamed
    cases List.inj_on_of_nodup_map isSound.distinct isOther isIn isPath
    have sound := isSound.entry entry isIn
    refine (leaves_makeEntry (roots.grows kept) sound).mono fun _ after builds => ?_
    exact builds.grows roots kept isIn fun isFile speaks =>
      loose_of_lacking whole roots grows sound isFile lacking speaks
  · refine (leaves_survey project manifest.entries _).bind fun shortfall after asked => ?_
    obtain ⟨isShortfall, rfl⟩ := asked
    exact .pure ⟨kept, isShortfall, rfl⟩

theorem leaves_passes {world : World} {progress : Progress} (isSound : manifest.Sound)
    (whole : first.WellFormed) (roots : first.Roots project root)
    (grows : first.Grows (manifest.Reaches root) world.tree)
    (surveyed : progress.shortfall = lacks project world.tree manifest.entries) (left : Nat) :
    World.Leaves (passes project manifest plan left progress) world fun last after =>
      first.Grows (manifest.Reaches root) after ∧
        last.shortfall = lacks project after manifest.entries ∧
        last.attempts ≤ progress.attempts + left := by
  induction left generalizing progress world with
  | zero => exact .pure ⟨grows, surveyed, Nat.le_refl _⟩
  | succ left inductionHypothesis =>
      unfold passes
      split
      · exact .pure ⟨grows, surveyed, Nat.le_add_right _ _⟩
      · refine (leaves_pass isSound whole roots grows surveyed).bind fun next tree passed => ?_
        obtain ⟨growsNext, surveyedNext, isNext⟩ := passed
        refine (inductionHypothesis growsNext surveyedNext).mono fun last after done => ?_
        obtain ⟨growsLast, surveyedLast, bounded⟩ := done
        exact ⟨growsLast, surveyedLast, by omega⟩

end Passes

/-! ## The lock and the manifest -/

/-- No entry of a manifest is at the lock of its project or inside it. -/
def Manifest.SparesLock (manifest : Manifest) : Prop :=
  ∀ entry ∈ manifest.entries, ∀ rest, entry.names ≠ lockName :: rest

section Lock

variable {project : String} {root : List String} {manifest : Manifest}
  {before after : FileTree}

theorem Manifest.SparesLock.not_between {entry : ManifestEntry} (spares : manifest.SparesLock)
    (isIn : entry ∈ manifest.entries) {inner last : List String}
    (isNames : entry.names = inner ++ last) : root ++ inner ≠ lockPlace root := by
  intro isLock
  have isName : inner = [lockName] := List.append_cancel_left isLock
  subst isName
  exact spares entry isIn last isNames

theorem Manifest.SparesLock.not_reaches (spares : manifest.SparesLock) :
    ¬ manifest.Reaches root (lockPlace root) := by
  rintro ⟨entry, isIn, inner, last, -, isNames, isLock⟩
  exact spares.not_between isIn isNames isLock.symm

/-- What a project lacks does not depend on its lock. -/
theorem lacks_eq_of_elsewhere (isSound : manifest.Sound) (spares : manifest.SparesLock)
    (rootsBefore : before.Roots project root) (rootsAfter : after.Roots project root)
    (same : ∀ place, place ≠ lockPlace root → after.get? place = before.get? place) :
    lacks project before manifest.entries = lacks project after manifest.entries := by
  have met : ∀ entry ∈ manifest.entries,
      entry.metIn project before = entry.metIn project after := by
    intro entry isIn
    have sound := isSound.entry entry isIn
    refine ManifestEntry.metIn_congr fun place there => ?_
    rw [FileTree.find_eq_ok_iff, FileTree.find_eq_ok_iff,
      rootsBefore.leads_iff sound.inward sound.goesOn,
      rootsAfter.leads_iff sound.inward sound.goesOn]
    have onWay : ∀ inner last, entry.names = inner ++ last →
        after.get? (root ++ inner) = before.get? (root ++ inner) := fun inner last isNames =>
      same _ (spares.not_between isIn isNames)
    have here := onWay entry.names [] (by simp)
    constructor
    · rintro ⟨filled, ⟨rfl, folders⟩, isThere, ends⟩
      exact ⟨filled, ⟨rfl, fun inner last isNames isFilled =>
        (onWay inner last isNames).trans (folders inner last isNames isFilled)⟩,
        here.trans isThere, ends⟩
    · rintro ⟨filled, ⟨rfl, folders⟩, isThere, ends⟩
      exact ⟨filled, ⟨rfl, fun inner last isNames isFilled =>
        (onWay inner last isNames).symm.trans (folders inner last isNames isFilled)⟩,
        here.symm.trans isThere, ends⟩
  exact lacks_congr met

end Lock

/-! ## Recoveries -/

/-- What stays of a project that is recovered. -/
structure Kept (manifest : Manifest) (root : List String) (before after : FileTree) : Prop where
  folder (place : List String) (there : before.get? place = some .folder) :
    after.get? place = some .folder
  file (place : List String) (text : String) (isOther : place ≠ lockPlace root)
    (there : before.get? place = some (.file text)) (filled : text ≠ "") :
    after.get? place = some (.file text)
  elsewhere (place : List String) (isOther : place ≠ lockPlace root)
    (outside : ¬ manifest.Reaches root place) : after.get? place = before.get? place

/-- What a report says of the tree that a recovery found and the one that it left. -/
structure Recovered (project : String) (root : List String) (manifest : Manifest)
    (plan : RecoveryPlan) (world : World) (report : IntegrityReport) (after : FileTree) :
    Prop where
  kept : Kept manifest root world.tree after
  faithful : report.shortfall = lacks project after manifest.entries
  healthy (isHealthy : report.state = .healthy) : report.actions = [] ∧ after = world.tree
  unlocked (worked : report.state ≠ .healthy) : after.get? (lockPlace root) = none ∧
    (world.tree.get? (lockPlace root) = none ∨ Stale world world.tree (lockPlace root))
  bounded (worked : report.state ≠ .healthy) : report.attempts ≤ plan.budget
  state (worked : report.state ≠ .healthy) :
    report.state = if report.isComplete then .recovered else .partiallyRecovered

theorem Kept.refl {manifest : Manifest} {root : List String} (tree : FileTree) :
    Kept manifest root tree tree :=
  ⟨fun _ there => there, fun _ _ _ there _ => there, fun _ _ _ => rfl⟩

/-- What grows under a lock stays when the lock is given up. -/
theorem Taken.kept {manifest : Manifest} {root : List String} {world : World}
    {locked worked : FileTree} (taken : Taken world root locked)
    (grows : locked.Grows (manifest.Reaches root) worked) :
    Kept manifest root world.tree (worked.erase (lockPlace root)) := by
  have erased (place : List String) (isOther : place ≠ lockPlace root) :
      (worked.erase (lockPlace root)).get? place = worked.get? place := by
    rw [FileTree.get?_erase lockPlace_ne_nil, if_neg isOther]
  refine ⟨fun place there => ?_, fun place text isOther there filled => ?_,
    fun place isOther outside => ?_⟩
  · have isOther : place ≠ lockPlace root := by
      rintro rfl
      exact taken.not_folder there
    rw [erased _ isOther]
    exact grows.folder _ ((taken.elsewhere _ isOther).trans there)
  · rw [erased _ isOther]
    exact grows.file _ _ ((taken.elsewhere _ isOther).trans there) filled
  · rw [erased _ isOther, grows.elsewhere _ outside, taken.elsewhere _ isOther]

section Recover

variable {project : String} {root : List String} {manifest : Manifest} {plan : RecoveryPlan}
  {world : World}

theorem leaves_makeProject (there : world.tree.find project = .ok (root, .folder)) :
    World.Leaves (makeProject project) world fun answer after =>
      answer = .ok [] ∧ after = world.tree := by
  refine (World.leaves_isFolder project).bind fun answer tree asked => ?_
  obtain ⟨rfl, isFolder⟩ := asked
  cases isFolder.mpr ⟨root, there⟩
  exact .pure ⟨rfl, rfl⟩

/-- Passes are made between taking a lock and giving it up. -/
theorem leaves_lockedPasses {progress : Progress} (isSound : manifest.Sound)
    (spares : manifest.SparesLock) (whole : world.tree.WellFormed)
    (roots : world.tree.Roots project root)
    (surveyed : progress.shortfall = lacks project world.tree manifest.entries) :
    World.Leaves (withLock project (passes project manifest plan plan.budget progress)) world
      fun answer after => ∀ last, answer = .ok last →
        Kept manifest root world.tree after ∧
        last.shortfall = lacks project after manifest.entries ∧
        last.attempts ≤ progress.attempts + plan.budget ∧
        after.get? (lockPlace root) = none ∧
        (world.tree.get? (lockPlace root) = none ∨ Stale world world.tree (lockPlace root)) := by
  have works (locked : FileTree) (taken : Taken world root locked) :
      World.Leaves (passes project manifest plan plan.budget progress) { world with tree := locked }
        fun last worked => worked.Roots project root ∧
          (∃ text, worked.get? (lockPlace root) = some (.file text)) ∧
          Kept manifest root world.tree (worked.erase (lockPlace root)) ∧
          last.shortfall = lacks project worked manifest.entries ∧
          last.attempts ≤ progress.attempts + plan.budget := by
    have rootsLocked := taken.roots roots
    have surveyedLocked : progress.shortfall = lacks project locked manifest.entries :=
      surveyed.trans (lacks_eq_of_elsewhere isSound spares roots rootsLocked taken.elsewhere)
    refine (leaves_passes isSound (taken.wellFormed roots whole) rootsLocked (.refl _)
      surveyedLocked plan.budget).mono fun last worked passed => ?_
    obtain ⟨grows, surveyedLast, bounded⟩ := passed
    have held := (grows.elsewhere _ spares.not_reaches).trans taken.held
    exact ⟨rootsLocked.grows grows, ⟨_, held⟩, taken.kept grows, surveyedLast, bounded⟩
  refine (leaves_withLock roots works).mono fun answer after locked => ?_
  rcases locked with ⟨rfl, -⟩ |
    ⟨last, worked, rfl, rootsWorked, ⟨text, there⟩, ⟨kept, surveyedLast, bounded⟩, ⟨_, taken⟩, rfl⟩
  · nofun
  · intro _ isLast
    cases isLast
    refine ⟨kept, ?_, bounded, ?_, taken.free⟩
    · exact surveyedLast.trans (lacks_eq_of_elsewhere isSound spares rootsWorked
        (roots_erase rootsWorked there) fun place isOther => by
          rw [FileTree.get?_erase lockPlace_ne_nil, if_neg isOther])
    · rw [FileTree.get?_erase lockPlace_ne_nil, if_pos rfl]

/-- A recovery of a project that is there keeps what holds something, leaves no lock, and
reports of the tree that it leaves what is so. -/
theorem recover_recovered (faultless : manifest.fault? = none) (spares : manifest.SparesLock)
    (whole : world.tree.WellFormed) (there : world.tree.find project = .ok (root, .folder)) :
    World.Leaves (recover project manifest plan) world fun answer after =>
      ∀ report, answer = .ok report →
        Recovered project root manifest plan world report after := by
  have roots := FileTree.roots_of_find there
  have isSound := manifest.sound_of_fault? faultless
  refine (leaves_survey project manifest.entries world).bind fun shortfall tree asked => ?_
  obtain ⟨isShortfall, rfl⟩ := asked
  split
  · rename_i isComplete
    have isHealthy : (IntegrityReport.ofSurvey shortfall).state = .healthy := if_pos isComplete
    refine .pure fun report isReport => ?_
    cases isReport
    constructor
    · exact .refl _
    · exact isShortfall
    · exact fun _ => ⟨rfl, rfl⟩
    · exact fun worked => absurd isHealthy worked
    · exact fun worked => absurd isHealthy worked
    · exact fun worked => absurd isHealthy worked
  · refine (leaves_makeProject there).bind fun answer tree made => ?_
    obtain ⟨rfl, rfl⟩ := made
    have locked : World.Leaves (withLock project
        (passes project manifest plan plan.budget ⟨shortfall, [], 0⟩)) world _ :=
      leaves_lockedPasses isSound spares whole roots isShortfall
    refine locked.bind fun answer after worked => ?_
    cases answer with
    | error _ => exact .pure nofun
    | ok last =>
        obtain ⟨kept, surveyed, bounded, unlocked, free⟩ := worked last rfl
        refine .pure fun report isReport => ?_
        cases isReport
        constructor
        · exact kept
        · exact surveyed
        · intro isHealthy
          simp only [Progress.report] at isHealthy
          split at isHealthy <;> cases isHealthy
        · exact fun _ => ⟨unlocked, free⟩
        · exact fun _ => by simpa [Progress.report] using bounded
        · exact fun _ => rfl

end Recover

end StopMotion.Project
