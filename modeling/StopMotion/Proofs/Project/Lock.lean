import StopMotion.Project.Lock
import StopMotion.Proofs.Disk.Growth

/-!
# Taking the lock of a project alone

What a process that is alone finds and leaves at the place of the lock. A lock is taken where
there is none or only that of a process that is gone, and nothing else in the tree changes.
-/

namespace StopMotion.Project

open FileTree (Inward Roots)
open StopMotion.Path (GoesOn)

/-- The name of the lock in a project. -/
def lockName : String := ".framewright.lock"

/-- The place of the lock of the project at a place. -/
def lockPlace (root : List String) : List String := root ++ [lockName]

variable {project : String} {root : List String} {world : World} {tree : FileTree}

theorem inward_lockName : Inward [lockName] := by
  intro name isIn
  cases List.mem_singleton.mp isIn
  decide

theorem lockPlace_ne_nil : lockPlace root ≠ [] := by simp [lockPlace]

theorem relative_lockName : Path.isAbsolute lockName = false := by decide

theorem parts_lockName : Path.parts lockName = [lockName] := by decide

theorem goesOn_lockPath : GoesOn project [lockName] (lockPath project) where
  isAbsolute_eq := Path.isAbsolute_join relative_lockName
  steps_eq := by
    have isName : Path.steps lockName = [lockName] := by decide
    rw [lockPath, ← lockName, Path.steps_join relative_lockName, isName]

theorem speaks_lockPath : ¬ Path.EndsBlank (lockPath project) := by
  rw [lockPath, ← lockName, Path.endsBlank_join relative_lockName, Path.EndsBlank, parts_lockName]
  rintro ⟨last, isLast, isBlank⟩
  cases isLast
  exact absurd isBlank (by decide)

/-- In a project that is there, the lock is looked for at its place. -/
theorem leads_lockPath (roots : tree.Roots project root) :
    tree.Leads (lockPath project) (lockPlace root) := by
  rw [roots.leads_iff inward_lockName goesOn_lockPath]
  refine ⟨rfl, fun inner last isName filled => ?_⟩
  rcases List.append_eq_singleton_iff.mp isName.symm with ⟨rfl, -⟩ | ⟨-, rfl⟩
  · simpa using roots.folder
  · exact absurd rfl filled

/-- The lock is looked for only in a project that is there. -/
theorem exists_roots_of_leads {place : List String} (leads : tree.Leads (lockPath project) place) :
    ∃ root, tree.Roots project root ∧ place = lockPlace root := by
  have isStart : tree.start (lockPath project) = tree.start project := by
    rw [FileTree.start, FileTree.start, goesOn_lockPath.isAbsolute_eq]
  rw [FileTree.Leads, isStart, goesOn_lockPath.steps_eq, FileTree.walk_append] at leads
  obtain ⟨root, reaches, leads⟩ := Except.bind_eq_ok leads
  have folder := FileTree.folder_of_walk_cons leads
  rw [FileTree.walk_step folder (inward_lockName _ (.head _)).1] at leads
  cases leads
  exact ⟨root, ⟨reaches, folder⟩, if_neg (inward_lockName _ (.head _)).2⟩

theorem find_lockPath {text : String} (roots : tree.Roots project root) :
    tree.find (lockPath project) = .ok (lockPlace root, .file text) ↔
      tree.get? (lockPlace root) = some (.file text) := by
  rw [FileTree.find_eq_ok_iff]
  exact ⟨fun found => found.2.2.1, fun there => ⟨Path.ne_empty_of_speaks speaks_lockPath,
    leads_lockPath roots, there, fun ends => absurd ends speaks_lockPath⟩⟩

/-- A lock at a place names a process that is gone. -/
def Stale (world : World) (tree : FileTree) (place : List String) : Prop :=
  ∃ text process, tree.get? place = some (.file text) ∧ lockOwner? text = some process ∧
    world.isRunning process = false

/-- A lock is in use, or nobody can tell whose it is. -/
def Held (world : World) (tree : FileTree) (place : List String) : Prop :=
  tree.get? place ≠ none ∧ ¬ Stale world tree place

/-- What taking a lock finds and leaves. -/
structure Taken (world : World) (root : List String) (after : FileTree) : Prop where
  free : world.tree.get? (lockPlace root) = none ∨ Stale world world.tree (lockPlace root)
  held : after.get? (lockPlace root) = some (.file (lockText world.ownProcess))
  home : after.home = world.tree.home
  elsewhere (place : List String) (isOther : place ≠ lockPlace root) :
    after.get? place = world.tree.get? place

theorem Taken.not_folder {after : FileTree} (taken : Taken world root after) :
    world.tree.get? (lockPlace root) ≠ some .folder := by
  rcases taken.free with vacant | ⟨text, process, there, -⟩
  · simp [vacant]
  · simp [there]

/-- A project stays where it is when its lock is taken. -/
theorem Taken.roots {after : FileTree} (taken : Taken world root after)
    (roots : world.tree.Roots project root) : after.Roots project root :=
  roots.mono taken.home fun place isFolder =>
    (taken.elsewhere place (by rintro rfl; exact taken.not_folder isFolder)).trans isFolder

theorem Taken.wellFormed {after : FileTree} (taken : Taken world root after)
    (roots : world.tree.Roots project root) (whole : world.tree.WellFormed) :
    after.WellFormed := by
  intro place name there
  have stays : ∀ place, world.tree.get? place = some .folder → after.get? place = some .folder :=
    fun place isFolder =>
      (taken.elsewhere place (by rintro rfl; exact taken.not_folder isFolder)).trans isFolder
  by_cases isLock : place ++ [name] = lockPlace root
  · obtain ⟨rfl, -⟩ := List.append_inj' isLock rfl
    exact stays _ roots.folder
  · rw [taken.elsewhere _ isLock] at there
    exact stays _ (whole _ _ there)

/-- A project stays where it is when its lock goes. -/
theorem roots_erase {text : String} (roots : tree.Roots project root)
    (there : tree.get? (lockPlace root) = some (.file text)) :
    (tree.erase (lockPlace root)).Roots project root := by
  refine roots.mono rfl fun place isFolder => ?_
  rw [FileTree.get?_erase lockPlace_ne_nil, if_neg, isFolder]
  rintro rfl
  cases there.symm.trans isFolder

section Rooted

variable (roots : world.tree.Roots project root)

include roots

theorem leaves_createLock :
    World.Leaves (createLock (lockPath project)) world fun answer after =>
      (answer = .ok () ∧ world.tree.get? (lockPlace root) = none ∧
        after = world.tree.put (lockPlace root) (.file (lockText world.ownProcess))) ∨
      (answer = .error (.busy (lockPath project)) ∧ world.tree.get? (lockPlace root) ≠ none ∧
        after = world.tree) := by
  refine World.leaves_ownProcess.bind fun process tree asked => ?_
  obtain ⟨rfl, rfl⟩ := asked
  refine (World.leaves_change _).bind fun answer tree created => ?_
  have leads := leads_lockPath roots
  by_cases vacant : world.tree.get? (lockPlace root) = none
  · have creates := leads.create_vacant speaks_lockPath vacant (lockText world.ownProcess)
    rcases created with ⟨rfl, created⟩ | ⟨error, -, refused, -⟩
    · cases creates.symm.trans created
      exact .pure (.inl ⟨rfl, vacant, rfl⟩)
    · cases creates.symm.trans refused
  · have refuses := leads.create_there speaks_lockPath vacant (lockText world.ownProcess)
    rcases created with ⟨-, created⟩ | ⟨error, rfl, refused, rfl⟩
    · cases refuses.symm.trans created
    · cases refuses.symm.trans refused
      exact .pure (.inr ⟨rfl, vacant, rfl⟩)

theorem leaves_isStale :
    World.Leaves (isStale (lockPath project)) world fun answer after =>
      after = world.tree ∧ (answer = true ↔ Stale world world.tree (lockPlace root)) := by
  refine (World.leaves_ask _).bind fun answer tree asked => ?_
  obtain ⟨isRead, rfl⟩ := asked
  cases answer with
  | error _ =>
      refine .pure ⟨rfl, nofun, fun ⟨text, _, there, _⟩ => ?_⟩
      rw [FileTree.read, (find_lockPath roots).mpr there] at isRead
      cases isRead
  | ok text =>
      obtain ⟨place, found⟩ := FileTree.exists_of_read isRead.symm
      obtain ⟨-, leads, there, -⟩ := FileTree.find_eq_ok_iff.mp found
      cases leads.unique (leads_lockPath roots)
      have isText (other : String) (process : Nat)
          (isOther : world.tree.get? (lockPlace root) = some (.file other))
          (isOwner : lockOwner? other = some process) : lockOwner? text = some process := by
        cases there.symm.trans isOther
        exact isOwner
      cases isOwner : lockOwner? text with
      | none =>
          simp only [isOwner]
          refine .pure ⟨rfl, nofun, fun ⟨other, process, isOther, owns, _⟩ => ?_⟩
          cases isOwner.symm.trans (isText other process isOther owns)
      | some process =>
          simp only [isOwner]
          refine (World.leaves_isRunning process).bind fun answer tree asked => ?_
          obtain ⟨rfl, rfl⟩ := asked
          refine .pure ⟨rfl, fun isGone => ⟨text, process, there, isOwner, by simpa using isGone⟩,
            fun ⟨other, owner, isOther, owns, isGone⟩ => ?_⟩
          cases isOwner.symm.trans (isText other owner isOther owns)
          simpa using isGone

/-- A lock is taken where there is none or a stale one, and only there. -/
theorem leaves_takeLock :
    World.Leaves (takeLock (lockPath project)) world fun answer after =>
      (answer = .ok () ∧ Taken world root after) ∨
      (answer = .error (.busy (lockPath project)) ∧ Held world world.tree (lockPlace root) ∧
        after = world.tree) := by
  refine (leaves_createLock roots).bind fun answer tree created => ?_
  rcases created with ⟨rfl, vacant, rfl⟩ | ⟨rfl, there, rfl⟩
  · refine .pure (.inl ⟨rfl, .inl vacant, ?_, rfl, fun place isOther => ?_⟩)
    · rw [FileTree.get?_put lockPlace_ne_nil, if_pos rfl]
    · rw [FileTree.get?_put lockPlace_ne_nil, if_neg isOther]
  · refine (leaves_isStale roots).bind fun answer tree asked => ?_
    obtain ⟨rfl, isStale⟩ := asked
    cases answer with
    | false => exact .pure (.inr ⟨rfl, ⟨there, fun stale => nomatch isStale.mpr stale⟩, rfl⟩)
    | true =>
        have stale := isStale.mp rfl
        obtain ⟨text, -, isLock, -⟩ := id stale
        have removes := FileTree.remove_of_find ((find_lockPath roots).mpr isLock)
        refine (World.leaves_change _).bind fun answer tree removed => ?_
        rcases removed with ⟨rfl, removed⟩ | ⟨error, -, refused, -⟩
        · cases removes.symm.trans removed
          refine (leaves_createLock (roots_erase roots isLock)).mono fun answer after created => ?_
          rcases created with ⟨rfl, -, rfl⟩ | ⟨-, there, -⟩
          · refine .inl ⟨rfl, .inr stale, ?_, rfl, fun place isOther => ?_⟩
            · rw [FileTree.get?_put lockPlace_ne_nil, if_pos rfl]
            · rw [FileTree.get?_put lockPlace_ne_nil, if_neg isOther,
                FileTree.get?_erase lockPlace_ne_nil, if_neg isOther]
          · exact absurd (by rw [FileTree.get?_erase lockPlace_ne_nil, if_pos rfl]) there
        · cases removes.symm.trans refused

/-- Work on a project is done under its lock, which is given up afterwards, or it is not done at
all. -/
theorem leaves_withLock {α : Type} {work : StateM World α} {done : α → FileTree → Prop}
    (works : ∀ locked, Taken world root locked →
      World.Leaves work { world with tree := locked } fun result worked =>
        worked.Roots project root ∧ (∃ text, worked.get? (lockPlace root) = some (.file text)) ∧
          done result worked) :
    World.Leaves (withLock project work) world fun answer after =>
      (answer = .error (.busy (lockPath project)) ∧ Held world world.tree (lockPlace root) ∧
        after = world.tree) ∨
      ∃ result worked, answer = .ok result ∧ worked.Roots project root ∧
        (∃ text, worked.get? (lockPlace root) = some (.file text)) ∧ done result worked ∧
        (∃ locked, Taken world root locked) ∧ after = worked.erase (lockPlace root) := by
  refine (leaves_takeLock roots).bind fun answer locked taking => ?_
  rcases taking with ⟨rfl, taken⟩ | ⟨rfl, held, rfl⟩
  · refine (works locked taken).bind fun result worked isWorked => ?_
    obtain ⟨rootsWorked, ⟨text, there⟩, isDone⟩ := isWorked
    have removes := FileTree.remove_of_find ((find_lockPath rootsWorked).mpr there)
    refine (World.leaves_change _).bind fun answer after removed => ?_
    rcases removed with ⟨-, removed⟩ | ⟨error, -, refused, -⟩
    · cases removes.symm.trans removed
      exact .pure (.inr ⟨result, worked, rfl, rootsWorked, ⟨text, there⟩, isDone,
        ⟨locked, taken⟩, rfl⟩)
    · cases removes.symm.trans refused
  · exact .pure (.inl ⟨rfl, held, rfl⟩)

end Rooted

/-- Where no project is, no lock can be taken. -/
theorem leaves_withLock_astray {α : Type} {work : StateM World α}
    (strays : ∀ root, ¬ world.tree.Roots project root) :
    World.Leaves (withLock project work) world fun answer after =>
      (∃ error, answer = .error (.notLocked (lockPath project) error)) ∧ after = world.tree := by
  have straysLock (place : List String) : ¬ world.tree.Leads (lockPath project) place := by
    intro leads
    obtain ⟨root, roots, -⟩ := exists_roots_of_leads leads
    exact strays root roots
  obtain ⟨error, isOther, refuses⟩ :=
    FileTree.create_astray speaks_lockPath straysLock (lockText world.ownProcess)
  have creates : World.Leaves (createLock (lockPath project)) world fun answer after =>
      answer = .error (.notLocked (lockPath project) error) ∧ after = world.tree := by
    refine World.leaves_ownProcess.bind fun process tree asked => ?_
    obtain ⟨rfl, rfl⟩ := asked
    refine (World.leaves_change _).bind fun answer tree created => ?_
    rcases created with ⟨-, created⟩ | ⟨_, rfl, refused, rfl⟩
    · cases refuses.symm.trans created
    · cases refuses.symm.trans refused
      cases error <;> first | exact absurd rfl isOther | exact .pure ⟨rfl, rfl⟩
  have takes : World.Leaves (takeLock (lockPath project)) world fun answer after =>
      answer = .error (.notLocked (lockPath project) error) ∧ after = world.tree := by
    refine creates.bind fun answer tree created => ?_
    obtain ⟨rfl, rfl⟩ := created
    exact .pure ⟨rfl, rfl⟩
  refine takes.bind fun answer tree taken => ?_
  obtain ⟨rfl, rfl⟩ := taken
  exact .pure ⟨⟨error, rfl⟩, rfl⟩

end StopMotion.Project
