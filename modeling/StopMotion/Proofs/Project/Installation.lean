import StopMotion.Proofs.Project.Failure
import StopMotion.Proofs.Project.Fit

/-!
# Installing an artifact

A deployment puts what was transpiled into a project and completes the project around it, if the
folder of the project can be made, nothing is in the way of an entry of the manifest, and nobody
holds the lock. What is transpiled must hold something: an empty payload counts as malformed.
-/

namespace StopMotion.Project

open FileTree (Inward Roots Between Clear Widens)

variable {project : String} {root : List String} {manifest : Manifest} {plan : RecoveryPlan}
  {world : World} {tree before after : FileTree} {entry other : ManifestEntry}

/-! ## The folder and the lock of the project -/

/-- A project that can be made: its path leads straight from where it starts, and no file is on
the way. -/
structure Room (project : String) (root : List String) (tree : FileTree) : Prop where
  direct : Path.Direct project
  home : tree.get? tree.home = some .folder
  root_eq : root = tree.start project ++ Path.steps project
  speaks : ¬ Path.EndsBlank (Path.trimSlashes project)
  clear : tree.Clear (tree.start project) (Path.steps project)

/-- The folder of a project is there or is made. -/
theorem leaves_makeProject_made
    (makeable : world.tree.Roots project root ∨ Room project root world.tree) :
    World.Leaves (makeProject project) world fun answer after =>
      (∃ actions, answer = .ok actions) ∧ after.Roots project root ∧
        world.tree.Widens (fun place => place.length ≤ root.length) after := by
  rcases makeable with roots | room
  · refine (leaves_makeProject_undone (.inl ⟨root, roots⟩)).mono fun answer after made => ?_
    rcases made with ⟨isOk, rfl⟩ | ⟨missing, -⟩
    · exact ⟨isOk, roots, .refl _⟩
    · exact absurd roots (missing root)
  · obtain ⟨direct, home, rfl, speaks, clear⟩ := room
    have rootsOrigin := FileTree.roots_origin home project
    have inward := FileTree.inward_of_direct direct
    have goesOn := Path.goesOn_origin project
    refine (World.leaves_isFolder project).bind fun answer tree asked => ?_
    obtain ⟨rfl, isFolder⟩ := asked
    cases answer with
    | true =>
        obtain ⟨place, found⟩ := isFolder.mp rfl
        have roots := FileTree.roots_of_find found
        obtain ⟨rfl, -⟩ := (rootsOrigin.leads_iff inward goesOn).mp roots.leads
        exact .pure ⟨⟨_, rfl⟩, roots, .refl _⟩
    | false =>
        have filled : project ≠ "" := by
          rintro rfl
          exact speaks ⟨"", rfl, rfl⟩
        refine ((FileTree.leaves_makeAncestors_ok rootsOrigin inward goesOn clear filled
          (.inl speaks) (Nat.lt_succ_self _)).and
            (FileTree.leaves_makeAncestors rootsOrigin inward _ fun _ => goesOn)).bind
              fun answer after made => ?_
        obtain ⟨⟨rfl, roots⟩, widens⟩ := made
        refine .pure ⟨⟨_, rfl⟩, roots, widens.mono ?_⟩
        rintro place ⟨inner, last, -, isSteps, rfl⟩
        simp [isSteps]

/-- A path finds what it found if folders stay and what it found does. -/
theorem find_mono {path : String} {place : List String} {there : Entry}
    (found : before.find path = .ok (place, there)) (home : after.home = before.home)
    (folders : ∀ place, before.get? place = some .folder → after.get? place = some .folder)
    (same : after.get? place = before.get? place) : after.find path = .ok (place, there) := by
  obtain ⟨filled, leads, isThere, ends⟩ := FileTree.find_eq_ok_iff.mp found
  exact FileTree.find_eq_ok_iff.mpr
    ⟨filled, leads.mono home folders, same.trans isThere, ends⟩

theorem find_widens {may : List String → Prop} {path : String} {place : List String}
    {there : Entry} (found : before.find path = .ok (place, there))
    (widens : before.Widens may after) : after.find path = .ok (place, there) := by
  refine find_mono found widens.home widens.folder ?_
  obtain ⟨-, -, isThere, -⟩ := FileTree.find_eq_ok_iff.mp found
  rcases widens.entry place with same | ⟨-, vacant, -⟩
  · exact same
  · cases vacant.symm.trans isThere

/-- Entries are not in the way of others because the folder of the project is made. -/
theorem Manifest.Fits.widens (consistent : manifest.Consistent) (fits : manifest.Fits root before)
    (widens : before.Widens (fun place => place.length ≤ root.length) after) :
    manifest.Fits root after := by
  intro entry isIn
  constructor
  · intro inner last isNames within text there
    exact (fits entry isIn).noFile inner last isNames within text (widens.file.mp there)
  · intro isFile there
    have speaks := (consistent.named entry isIn).resolve_right fun isFolder => by
      simp [isFile] at isFolder
    have length := List.length_pos_iff.mpr (ManifestEntry.names_ne_nil speaks)
    rw [widens.elsewhere] at there
    · exact (fits entry isIn).noFolder isFile there
    · rw [List.length_append]
      omega

/-- A lock is in the way of no entry that is not at its place. -/
theorem Manifest.Fits.elsewhere (spares : manifest.SparesLock) (fits : manifest.Fits root before)
    (same : ∀ place, place ≠ lockPlace root → after.get? place = before.get? place) :
    manifest.Fits root after := by
  intro entry isIn
  constructor
  · intro inner last isNames within text there
    rw [same _ (spares.not_between isIn isNames)] at there
    exact (fits entry isIn).noFile inner last isNames within text there
  · intro isFile there
    rw [same _ (spares.not_between isIn (List.append_nil _).symm)] at there
    exact (fits entry isIn).noFolder isFile there

/-! ## Recovery, payload and deployment -/

/-- A manifest that a project can hold: it has no fault, no entry is in the way of another, and
none is at the lock. -/
structure Manifest.Workable (manifest : Manifest) : Prop where
  faultless : manifest.fault? = none
  consistent : manifest.Consistent
  spares : manifest.SparesLock

theorem Manifest.standard_workable : Manifest.standard.Workable := by
  have noPrefix : ∀ entry ∈ standard.entries, entry.kind = .file →
      ∀ other ∈ standard.entries, other ≠ entry → ¬ entry.names <+: other.names := by decide
  refine ⟨by decide, ⟨?_, ?_⟩, ?_⟩
  · have ends : ∀ entry ∈ standard.entries,
        ((Path.parts (Path.trimSlashes entry.path)).getLast?.any Path.isBlank) = false := by decide
    intro entry isIn
    left
    rintro ⟨last, isLast, isBlank⟩
    have speaks := ends entry isIn
    rw [isLast] at speaks
    simp [isBlank] at speaks
  · intro entry other isIn isFile isOther differs rest isNames
    exact noPrefix entry isIn isFile other isOther differs ⟨rest, isNames.symm⟩
  · have spares : ∀ entry ∈ standard.entries, entry.names.head? ≠ some lockName := by decide
    intro entry isIn rest isNames
    exact spares entry isIn (by rw [isNames]; rfl)

/-- A project that holds everything of its manifest and is not locked. -/
structure Settled (project : String) (root : List String) (manifest : Manifest)
    (tree : FileTree) : Prop where
  roots : tree.Roots project root
  fits : manifest.Fits root tree
  met (entry : ManifestEntry) (isIn : entry ∈ manifest.entries) :
    entry.metIn project tree = .present
  vacant : tree.get? (lockPlace root) = none

/-- What is at an entry stays when the lock is taken. -/
theorem Manifest.SparesLock.finds_taken {there : Entry} (spares : manifest.SparesLock)
    (isIn : entry ∈ manifest.entries) (taken : Taken world root after)
    (finds : entry.Finds project root there world.tree) :
    entry.Finds project root there after := by
  refine find_mono finds taken.home (fun place isFolder => ?_)
    (taken.elsewhere _ (spares.not_between isIn (List.append_nil _).symm))
  have isOther : place ≠ lockPlace root := by
    rintro rfl
    exact taken.not_folder isFolder
  rw [taken.elsewhere place isOther, isFolder]

theorem Manifest.SparesLock.present_taken (spares : manifest.SparesLock)
    (isIn : entry ∈ manifest.entries) (sound : entry.Sound)
    (roots : world.tree.Roots project root) (taken : Taken world root after)
    (present : entry.metIn project world.tree = .present) :
    entry.metIn project after = .present := by
  obtain ⟨there, finds, accepted⟩ := (ManifestEntry.present_iff roots sound).mp present
  exact (ManifestEntry.present_iff (taken.roots roots) sound).mpr
    ⟨there, spares.finds_taken isIn taken finds, accepted⟩

/-- What is at an entry stays when the lock is given up. -/
theorem Manifest.SparesLock.finds_erase {there : Entry} {text : String}
    (spares : manifest.SparesLock) (isIn : entry ∈ manifest.entries)
    (isLock : tree.get? (lockPlace root) = some (.file text))
    (finds : entry.Finds project root there tree) :
    entry.Finds project root there (tree.erase (lockPlace root)) := by
  refine find_mono finds rfl (fun place isFolder => ?_) ?_
  · rw [FileTree.get?_erase lockPlace_ne_nil, if_neg, isFolder]
    rintro rfl
    cases isLock.symm.trans isFolder
  · rw [FileTree.get?_erase lockPlace_ne_nil, if_neg]
    exact spares.not_between isIn (List.append_nil _).symm

theorem Manifest.SparesLock.present_erase {text : String} (spares : manifest.SparesLock)
    (isIn : entry ∈ manifest.entries) (sound : entry.Sound) (roots : tree.Roots project root)
    (isLock : tree.get? (lockPlace root) = some (.file text))
    (present : entry.metIn project tree = .present) :
    entry.metIn project (tree.erase (lockPlace root)) = .present := by
  obtain ⟨there, finds, accepted⟩ := (ManifestEntry.present_iff roots sound).mp present
  exact (ManifestEntry.present_iff (roots_erase roots isLock) sound).mpr
    ⟨there, spares.finds_erase isIn isLock finds, accepted⟩

/-- Under a lock that can be taken, one pass settles a project. -/
theorem leaves_lockedPasses_settled {progress : Progress} (workable : manifest.Workable)
    (roots : world.tree.Roots project root) (fits : manifest.Fits root world.tree)
    (free : world.tree.get? (lockPlace root) = none ∨ Stale world world.tree (lockPlace root))
    (filled : ∀ text, plan.payload = some text → text ≠ "")
    (rest : ∀ entry ∈ manifest.entries, entry.path ∉ progress.shortfall.paths →
      entry.metIn project world.tree = .present)
    (isLacking : progress.shortfall.isComplete = false) (left : Nat) :
    World.Leaves (withLock project (passes project manifest plan (left + 1) progress)) world
      fun answer after => (∃ last, answer = .ok last ∧ last.shortfall = .none ∧
          last.attempts = progress.attempts + 1) ∧
        Settled project root manifest after ∧
        ∀ entry ∈ manifest.entries, entry.Done project root manifest plan
          (entry.path ∈ progress.shortfall.paths) world.tree after := by
  have isSound := manifest.sound_of_fault? workable.faultless
  have works (locked : FileTree) (taken : Taken world root locked) :
      World.Leaves (passes project manifest plan (left + 1) progress)
        { world with tree := locked } fun last worked => worked.Roots project root ∧
          (∃ text, worked.get? (lockPlace root) = some (.file text)) ∧
          manifest.Fits root worked ∧
          (∀ entry ∈ manifest.entries, entry.Done project root manifest plan
            (entry.path ∈ progress.shortfall.paths) world.tree worked) ∧
          (∀ entry ∈ manifest.entries, entry.metIn project worked = .present) ∧
          last.shortfall = .none ∧ last.attempts = progress.attempts + 1 := by
    have rootsLocked := taken.roots roots
    have restLocked (entry : ManifestEntry) (isIn : entry ∈ manifest.entries)
        (isNamed : entry.path ∉ progress.shortfall.paths) :
        entry.metIn project locked = .present :=
      workable.spares.present_taken isIn (isSound.entry entry isIn) roots taken
        (rest entry isIn isNamed)
    have fitsLocked := fits.elsewhere workable.spares taken.elsewhere
    have passed := @leaves_passes_done project root manifest plan { world with tree := locked }
      progress isSound workable.consistent rootsLocked fitsLocked filled restLocked isLacking left
    refine (passed.and (leaves_passes_steady _ _)).mono fun last worked passed => ?_
    obtain ⟨⟨rootsWorked, fitsWorked, done, met, isLast⟩, steady⟩ := passed
    refine ⟨rootsWorked, steady.file _ _ taken.held, fitsWorked, fun entry isIn => ?_, met,
      isLast⟩
    exact ⟨(done entry isIn).1, fun isNamed there finds =>
      (done entry isIn).2 isNamed there (workable.spares.finds_taken isIn taken finds)⟩
  refine (leaves_withLock roots works).mono fun answer after locked => ?_
  rcases locked with ⟨-, held, -⟩ | ⟨last, worked, rfl, rootsWorked, ⟨text, isLock⟩,
    ⟨fitsWorked, done, met, isLast⟩, -, rfl⟩
  · exact (free.elim held.1 held.2).elim
  · have elsewhere (place : List String) (isOther : place ≠ lockPlace root) :
        (worked.erase (lockPlace root)).get? place = worked.get? place := by
      rw [FileTree.get?_erase lockPlace_ne_nil, if_neg isOther]
    refine ⟨⟨last, rfl, isLast⟩, ⟨roots_erase rootsWorked isLock,
      fitsWorked.elsewhere workable.spares elsewhere, fun entry isIn => ?_, ?_⟩,
      fun entry isIn => ?_⟩
    · exact workable.spares.present_erase isIn (isSound.entry entry isIn) rootsWorked isLock
        (met entry isIn)
    · rw [FileTree.get?_erase lockPlace_ne_nil, if_pos rfl]
    · exact ⟨fun isNamed => workable.spares.finds_erase isIn isLock ((done entry isIn).1 isNamed),
        fun isNamed there finds =>
          workable.spares.finds_erase isIn isLock ((done entry isIn).2 isNamed there finds)⟩

/-- The place that a project is made at is where its path leads. -/
theorem root_unique {place : List String}
    (makeable : tree.Roots project root ∨ Room project root tree)
    (roots : tree.Roots project place) : place = root := by
  rcases makeable with others | room
  · exact roots.leads.unique others.leads
  · rw [room.root_eq]
    exact (((FileTree.roots_origin room.home project).leads_iff
      (FileTree.inward_of_direct room.direct) (Path.goesOn_origin project)).mp roots.leads).1

/-- A project in which everything is met is there. -/
theorem roots_of_met (workable : manifest.Workable)
    (makeable : tree.Roots project root ∨ Room project root tree)
    (met : ∀ entry ∈ manifest.entries, entry.metIn project tree = .present) :
    tree.Roots project root := by
  have isSound := manifest.sound_of_fault? workable.faultless
  obtain ⟨entry, isIn⟩ := manifest.exists_entry workable.faultless
  obtain ⟨place, roots⟩ := ManifestEntry.exists_roots_of_present (isSound.entry entry isIn)
    (workable.consistent.named entry isIn) (met entry isIn)
  exact root_unique makeable roots ▸ roots

/-- A recovery with a pass to make makes what a project lacks and leaves the rest. -/
theorem leaves_recover_settled (workable : manifest.Workable)
    (makeable : world.tree.Roots project root ∨ Room project root world.tree)
    (fits : manifest.Fits root world.tree)
    (free : world.tree.get? (lockPlace root) = none ∨ Stale world world.tree (lockPlace root))
    (filled : ∀ text, plan.payload = some text → text ≠ "") (budget : 1 ≤ plan.budget) :
    World.Leaves (recover project manifest plan) world fun answer after =>
      (∃ report, answer = .ok report ∧ report.isComplete = true ∧ report.attempts ≤ 1) ∧
      (∀ entry ∈ manifest.entries, entry.metIn project after = .present) ∧
      (world.tree.get? (lockPlace root) = none → Settled project root manifest after) ∧
      ∀ entry ∈ manifest.entries, ∀ there, entry.Finds project root there after →
        entry.Finds project root there world.tree ∨ there = entry.made manifest plan := by
  have isSound := manifest.sound_of_fault? workable.faultless
  refine (leaves_survey project manifest.entries world).bind fun shortfall tree asked => ?_
  obtain ⟨rfl, rfl⟩ := asked
  have present (entry : ManifestEntry) (isIn : entry ∈ manifest.entries)
      (isNamed : entry.path ∉ (lacks project world.tree manifest.entries).paths) :
      entry.metIn project world.tree = .present := by
    by_contra lacking
    exact isNamed (mem_paths_lacks.mpr ⟨entry, isIn, rfl, lacking⟩)
  split
  · rename_i isComplete
    have isNil := List.isEmpty_iff.mp isComplete
    have met (entry : ManifestEntry) (isIn : entry ∈ manifest.entries) :
        entry.metIn project world.tree = .present := present entry isIn (by simp [isNil])
    exact .pure ⟨⟨_, rfl, isComplete, Nat.zero_le 1⟩, met,
      fun vacant => ⟨roots_of_met workable makeable met, fits, met, vacant⟩,
      fun _ _ _ finds => .inl finds⟩
  · rename_i isLacking
    refine (leaves_makeProject_made makeable).bind fun answer made widened => ?_
    obtain ⟨⟨actions, rfl⟩, roots, widens⟩ := widened
    have freeMade : made.get? (lockPlace root) = none ∨ Stale world made (lockPlace root) := by
      rwa [Stale, widens.elsewhere _ (by simp [lockPlace])]
    have rest (entry : ManifestEntry) (isIn : entry ∈ manifest.entries)
        (isNamed : entry.path ∉ (lacks project world.tree manifest.entries).paths) :
        entry.metIn project made = .present :=
      ManifestEntry.present_mono (fun _ _ found => find_widens found widens)
        (present entry isIn isNamed)
    obtain ⟨left, isBudget⟩ := Nat.exists_eq_add_of_le' budget
    have locked := @leaves_lockedPasses_settled project root manifest plan
      { world with tree := made } ⟨lacks project world.tree manifest.entries, actions, 0⟩ workable
      roots (fits.widens workable.consistent widens) freeMade filled rest
      (by simpa using isLacking) left
    rw [← isBudget] at locked
    refine locked.bind fun answer after passed => ?_
    obtain ⟨⟨last, rfl, isShortfall, counted⟩, settled, done⟩ := passed
    refine .pure ⟨⟨_, rfl, ?_, counted.le⟩, settled.met, fun _ => settled,
      fun entry isIn there finds => ?_⟩
    · rw [IntegrityReport.isComplete, Progress.report, isShortfall]
      rfl
    · by_cases isNamed : entry.path ∈ (lacks project world.tree manifest.entries).paths
      · have isMade := (done entry isIn).1 isNamed
        exact .inr (congrArg Prod.snd (Except.ok.inj (finds.symm.trans isMade)))
      · obtain ⟨place, older, found, -⟩ :=
          ManifestEntry.present_iff_find.mp (present entry isIn isNamed)
        have stays := (isSound.entry entry isIn).finds roots (find_widens found widens)
        have isOlder := finds.symm.trans ((done entry isIn).2 isNamed older stays)
        obtain ⟨-, rfl⟩ := Prod.mk.inj (Except.ok.inj isOlder)
        have isPlace := (find_widens found widens).symm.trans stays
        obtain ⟨rfl, -⟩ := Prod.mk.inj (Except.ok.inj isPlace)
        exact .inl found

/-- The entry of the payload is a file of the manifest. -/
theorem isFile_of_primary? (faultless : manifest.fault? = none)
    (isPrimary : manifest.primary? = some entry) :
    entry ∈ manifest.entries ∧ entry.kind = .file := by
  have isIn := List.mem_of_find?_eq_some isPrimary
  have isPayload := List.find?_some isPrimary
  exact ⟨isIn, ((manifest.sound_of_fault? faultless).entry entry isIn).payload isPayload⟩

/-- Under the lock, the payload is put in its place and the other entries stay met. -/
theorem leaves_placePayload {locked : FileTree} {text : String} (workable : manifest.Workable)
    (isIn : entry ∈ manifest.entries) (isFile : entry.kind = .file)
    (settled : Settled project root manifest world.tree) (taken : Taken world root locked)
    (filled : text ≠ "") :
    World.Leaves (Files.place (entry.locate project) text) { world with tree := locked }
      fun result worked => worked.Roots project root ∧
        (∃ text, worked.get? (lockPlace root) = some (.file text)) ∧ result = .ok () ∧
        entry.Finds project root (.file text) worked ∧
        ∀ entry ∈ manifest.entries, entry.metIn project worked = .present := by
  have isSound := manifest.sound_of_fault? workable.faultless
  have sound := isSound.entry entry isIn
  have rootsLocked := taken.roots settled.roots
  have speaks := (workable.consistent.named entry isIn).resolve_right fun isFolder => by
    simp [isFile] at isFolder
  have fitsLocked := settled.fits.elsewhere workable.spares taken.elsewhere entry isIn
  have placed := @leaves_placeEntry_ok project root { world with tree := locked } entry
    rootsLocked sound speaks isFile fitsLocked text
  have built := @leaves_placeEntry project root entry { world with tree := locked }
    rootsLocked sound isFile (ManifestEntry.names_ne_nil speaks) text
  refine (placed.and built).mono fun result worked done => ?_
  obtain ⟨⟨isOk, finds⟩, builds⟩ := done
  have rootsWorked := rootsLocked.mono builds.steady.home builds.steady.folder
  refine ⟨rootsWorked, builds.steady.file _ _ taken.held, isOk, finds, fun other isOther => ?_⟩
  rw [ManifestEntry.present_iff rootsWorked (isSound.entry other isOther)]
  by_cases same : other = entry
  · subst same
    refine ⟨_, finds, ?_⟩
    rw [isFile]
    exact ⟨text, rfl, filled⟩
  · obtain ⟨there, findsOther, accepted⟩ :=
      (ManifestEntry.present_iff settled.roots (isSound.entry other isOther)).mp
        (settled.met other isOther)
    exact ⟨there, (builds.spared workable.consistent isIn isOther same).finds there
      (workable.spares.finds_taken isOther taken findsOther), accepted⟩

/-- A payload is put into a project that holds everything, unless it is there. -/
theorem leaves_writePayload_settled {older text : String} (workable : manifest.Workable)
    (isPrimary : manifest.primary? = some entry) (settled : Settled project root manifest world.tree)
    (finds : entry.Finds project root (.file older) world.tree) (filled : text ≠ "")
    (distinct : Hash.fingerprint older = Hash.fingerprint text → older = text) :
    World.Leaves (writePayload project manifest text) world fun answer after =>
      (∃ wrote, answer = .ok wrote) ∧ entry.Finds project root (.file text) after ∧
        ∀ entry ∈ manifest.entries, entry.metIn project after = .present := by
  have isSound := manifest.sound_of_fault? workable.faultless
  obtain ⟨isIn, isFile⟩ := isFile_of_primary? workable.faultless isPrimary
  have isRead : world.tree.read (entry.locate project) = .ok older := by
    rw [FileTree.read, finds]
    rfl
  unfold writePayload
  rw [isPrimary]
  refine (leaves_holds _ _).bind fun answer tree asked => ?_
  obtain ⟨rfl, holds⟩ := asked
  cases answer with
  | true =>
      obtain ⟨other, isOther, same⟩ := holds.mp rfl
      cases isRead.symm.trans isOther
      rw [distinct same] at finds
      exact .pure ⟨⟨_, rfl⟩, finds, settled.met⟩
  | false =>
      have works (locked : FileTree) (taken : Taken world root locked) :=
        leaves_placePayload workable isIn isFile settled taken filled
      refine (leaves_withLock settled.roots works).bind fun answer after locked => ?_
      rcases locked with ⟨-, held, -⟩ | ⟨result, worked, rfl, rootsWorked, ⟨_, isLock⟩,
        ⟨rfl, findsWorked, met⟩, -, rfl⟩
      · exact absurd settled.vacant held.1
      · exact .pure ⟨⟨_, rfl⟩, workable.spares.finds_erase isIn isLock findsWorked,
          fun other isOther => workable.spares.present_erase isOther (isSound.entry other isOther)
            rootsWorked isLock (met other isOther)⟩

/-- A project that takes an artifact: its folder is there or can be made, nothing in the tree is in
the way of an entry of the manifest, and it is not locked. -/
structure Takes (project : String) (root : List String) (manifest : Manifest)
    (tree : FileTree) : Prop where
  makeable : tree.Roots project root ∨ Room project root tree
  fits : manifest.Fits root tree
  vacant : tree.get? (lockPlace root) = none

/-- A project with nothing in it takes every manifest that can be held. -/
theorem takes_of_empty (workable : manifest.Workable)
    (makeable : tree.Roots project root ∨ Room project root tree)
    (empty : ∀ names, names ≠ [] → tree.get? (root ++ names) = none) :
    Takes project root manifest tree := by
  refine ⟨makeable, fun entry isIn => ⟨fun inner last isNames within text there => ?_,
    fun isFile there => ?_⟩, empty [lockName] (by simp)⟩
  · by_cases isNil : inner = []
    · subst isNil
      rw [List.append_nil] at there
      rcases makeable with roots | room
      · cases roots.folder.symm.trans there
      · rw [room.root_eq] at there
        exact room.clear _ [] (List.append_nil _).symm text there
    · cases (empty inner isNil).symm.trans there
  · have speaks := (workable.consistent.named entry isIn).resolve_right fun isFolder => by
      simp [isFile] at isFolder
    cases (empty _ (ManifestEntry.names_ne_nil speaks)).symm.trans there

section Deploy

variable {settings : Settings} {transpiled : Transpiled} {composition : String}

theorem leaves_install_settled (workable : settings.manifest.Workable)
    (isPrimary : settings.manifest.primary? = some entry) (budget : 1 ≤ settings.budget)
    (takes : Takes project root settings.manifest world.tree) (filled : transpiled.text ≠ "")
    (distinct : ∀ older, entry.Finds project root (.file older) world.tree →
      Hash.fingerprint older = Hash.fingerprint transpiled.text → older = transpiled.text) :
    World.Leaves (install settings transpiled composition project) world fun answer after =>
      (∃ deployment, answer = .ok deployment ∧ deployment.transpiled = transpiled ∧
        deployment.integrity.isComplete = true) ∧
      entry.Finds project root (.file transpiled.text) after ∧
      ∀ entry ∈ settings.manifest.entries, entry.metIn project after = .present := by
  obtain ⟨isIn, isFile⟩ := isFile_of_primary? workable.faultless isPrimary
  have filledPlan (text : String) (isPayload :
      (settings.plan composition (some transpiled.text)).payload = some text) : text ≠ "" := by
    obtain rfl := Option.some.inj isPayload
    exact filled
  have recovers := leaves_recover_settled workable takes.makeable takes.fits (.inl takes.vacant)
    filledPlan budget
  refine recovers.bind fun answer tree recovered => ?_
  obtain ⟨⟨integrity, rfl, isComplete, -⟩, -, settles, kept⟩ := recovered
  have settled := settles takes.vacant
  have noFault : integrity.fault? = none := if_pos isComplete
  simp only [noFault]
  have isSound := settings.manifest.sound_of_fault? workable.faultless
  obtain ⟨there, finds, accepted⟩ :=
    (ManifestEntry.present_iff settled.roots (isSound.entry entry isIn)).mp
      (settled.met entry isIn)
  rw [isFile] at accepted
  obtain ⟨older, rfl, -⟩ := accepted
  have distinctHere (same : Hash.fingerprint older = Hash.fingerprint transpiled.text) :
      older = transpiled.text := by
    rcases kept entry isIn _ finds with findsBefore | isMade
    · exact distinct older findsBefore same
    · rw [made_primary (List.find?_some isPrimary) isFile rfl] at isMade
      exact Entry.file.inj isMade
  have writes := @leaves_writePayload_settled project root settings.manifest
    { world with tree } entry older transpiled.text workable isPrimary settled finds filled
    distinctHere
  refine writes.bind fun answer after written => ?_
  obtain ⟨⟨wrote, rfl⟩, findsAfter, met⟩ := written
  exact .pure ⟨⟨_, rfl, rfl, isComplete⟩, findsAfter, met⟩

open Checker in
/-- An artifact that comes out with a text is deployed into every project that takes it: the
project is complete afterwards, and its payload is the text. -/
theorem deploy_installs {check : String → StateM World Verdict} {artifact : Artifact}
    (workable : settings.manifest.Workable)
    (isPrimary : settings.manifest.primary? = some entry) (budget : 1 ≤ settings.budget)
    (takes : Takes project root settings.manifest world.tree)
    (accepted : World.Leaves (transpile check settings.framesPerSecond artifact) world
      fun answer tree => answer = .ok transpiled ∧ tree = world.tree)
    (filled : transpiled.text ≠ "")
    (distinct : ∀ older, entry.Finds project root (.file older) world.tree →
      Hash.fingerprint older = Hash.fingerprint transpiled.text → older = transpiled.text) :
    World.Leaves (deploy settings check artifact project) world fun answer after =>
      (∃ deployment, answer = .ok deployment ∧ deployment.transpiled = transpiled ∧
        deployment.integrity.isComplete = true) ∧
      after.read (entry.locate project) = .ok transpiled.text ∧
      World.Leaves (Project.check project settings.manifest) { world with tree := after }
        fun report _ => report.isComplete = true := by
  refine accepted.bind fun answer tree accepted => ?_
  obtain ⟨rfl, rfl⟩ := accepted
  refine (leaves_install_settled workable isPrimary budget takes filled distinct).bind
    fun answer after installed => ?_
  obtain ⟨⟨deployment, rfl, isTranspiled, isComplete⟩, finds, met⟩ := installed
  refine .pure ⟨⟨_, rfl, isTranspiled, isComplete⟩, ?_, ?_⟩
  · rw [FileTree.read, finds]
    rfl
  · refine (leaves_survey project settings.manifest.entries _).bind fun shortfall _ asked => ?_
    obtain ⟨rfl, -⟩ := asked
    refine .pure ?_
    rw [lacks_eq_none met]
    rfl

end Deploy

end StopMotion.Project
