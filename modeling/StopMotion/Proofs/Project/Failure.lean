import StopMotion.Deploy
import StopMotion.Proofs.Project.Recovery
import StopMotion.Proofs.Transpile

/-!
# Calls that fail

What a recovery, a payload that is written, and a deployment leave when they fail. A call that
finds the lock in use has changed nothing yet, and no call leaves a lock that it took. This needs
nothing of the manifest: whatever is done under a lock, folders stay folders and files stay files,
so the lock is still there to be given up. A project that is not there yet has no lock, because
the folders that are made for it are not inside it.
-/

namespace StopMotion.Project

open FileTree (Inward Roots Between Steady)

variable {project : String} {root : List String} {manifest : Manifest} {plan : RecoveryPlan}
  {world : World} {after : FileTree}

/-! ## Work under a lock -/

theorem leaves_makeEntry_steady (entry : ManifestEntry) :
    World.Leaves (makeEntry project manifest plan entry) world fun _ after =>
      world.tree.Steady after := by
  unfold makeEntry
  cases entry.kind with
  | file =>
      refine (World.leaves_isFolder _).bind fun answer tree asked => ?_
      obtain ⟨rfl, -⟩ := asked
      cases answer with
      | true => exact .pure (.refl _)
      | false =>
          refine (FileTree.leaves_place_steady _ _).bind fun answer after steady => ?_
          cases answer with
          | ok _ => exact .pure steady
          | error _ => exact .pure steady
  | folder =>
      refine (FileTree.leaves_makeFolders_steady _).bind fun answer after steady => ?_
      cases answer with
      | ok _ => exact .pure steady
      | error _ => exact .pure steady

theorem leaves_pass_steady (progress : Progress) :
    World.Leaves (pass project manifest plan progress) world fun _ after =>
      world.tree.Steady after := by
  unfold pass
  have made (entries : List ManifestEntry) :
      World.Leaves (entries.mapM (makeEntry project manifest plan)) world fun _ after =>
        world.tree.Steady after :=
    World.leaves_mapM_keeps (Steady.refl _) fun entry _ _ kept =>
      (leaves_makeEntry_steady entry).mono fun _ _ steady => kept.trans steady
  refine (made _).bind fun actions tree steady => ?_
  refine (leaves_survey project manifest.entries _).bind fun shortfall after asked => ?_
  obtain ⟨-, rfl⟩ := asked
  exact .pure steady

theorem leaves_passes_steady (left : Nat) (progress : Progress) :
    World.Leaves (passes project manifest plan left progress) world fun _ after =>
      world.tree.Steady after := by
  induction left generalizing progress world with
  | zero => exact .pure (.refl _)
  | succ left inductionHypothesis =>
      unfold passes
      split
      · exact .pure (.refl _)
      · refine (leaves_pass_steady progress).bind fun next tree steady => ?_
        exact (inductionHypothesis next).mono fun _ _ steadyRest => steady.trans steadyRest

/-- A lock that was taken is given up after work that lets folders be folders and files files. -/
theorem leaves_withLock_steady {α : Type} {work : StateM World α}
    (roots : world.tree.Roots project root)
    (steady : ∀ locked : FileTree, World.Leaves work { world with tree := locked }
      fun _ worked => locked.Steady worked) :
    World.Leaves (withLock project work) world fun answer after =>
      (answer = .error (.busy (lockPath project)) ∧ Held world world.tree (lockPlace root) ∧
        after = world.tree) ∨
      (∃ result, answer = .ok result) ∧ after.Roots project root ∧
        after.get? (lockPlace root) = none := by
  have works (locked : FileTree) (taken : Taken world root locked) :
      World.Leaves work { world with tree := locked } fun _ worked =>
        worked.Roots project root ∧
          (∃ text, worked.get? (lockPlace root) = some (.file text)) ∧ True :=
    (steady locked).mono fun _ _ steady => ⟨(taken.roots roots).mono steady.home steady.folder,
      steady.file _ _ taken.held, trivial⟩
  refine (leaves_withLock roots works).mono fun answer after locked => locked.imp_right ?_
  rintro ⟨result, worked, rfl, rootsWorked, ⟨text, there⟩, -, -, rfl⟩
  refine ⟨⟨result, rfl⟩, roots_erase rootsWorked there, ?_⟩
  rw [FileTree.get?_erase lockPlace_ne_nil, if_pos rfl]

/-! ## Failures -/

/-- What a call that failed leaves at the lock of a project: nothing, or what was there. What was
there is in use if the call has `asked` for the lock. -/
structure Undone (project : String) (world : World) (asked : Prop) (after : FileTree) : Prop where
  found (place : List String) (entry : Entry)
    (there : after.find (lockPath project) = .ok (place, entry)) :
    world.tree.find (lockPath project) = .ok (place, entry)
  live (isAsked : asked) (place : List String) (entry : Entry)
    (there : after.find (lockPath project) = .ok (place, entry)) :
    ¬ Stale world world.tree place

/-- Nothing is at the lock of a project. -/
def Unlocked (project : String) (tree : FileTree) : Prop :=
  ∀ place entry, tree.find (lockPath project) ≠ .ok (place, entry)

theorem Unlocked.undone {asked : Prop} (unlocked : Unlocked project after) :
    Undone project world asked after :=
  ⟨fun place entry there => absurd there (unlocked place entry),
    fun _ place entry there => absurd there (unlocked place entry)⟩

theorem unlocked_of_vacant (vacant : ∀ root, after.Roots project root →
    after.get? (lockPlace root) = none) : Unlocked project after := by
  intro place entry found
  obtain ⟨-, leads, there, -⟩ := FileTree.find_eq_ok_iff.mp found
  obtain ⟨root, roots, rfl⟩ := exists_roots_of_leads leads
  cases (vacant root roots).symm.trans there

theorem Held.undone {asked : Prop} (roots : world.tree.Roots project root)
    (held : Held world world.tree (lockPlace root)) :
    Undone project world asked world.tree := by
  refine ⟨fun place entry there => there, fun _ place entry there => ?_⟩
  obtain ⟨-, leads, -⟩ := FileTree.find_eq_ok_iff.mp there
  cases leads.unique (leads_lockPath roots)
  exact held.2

theorem Held.not_unlocked (roots : world.tree.Roots project root)
    (held : Held world world.tree (lockPlace root)) : ¬ Unlocked project world.tree := by
  intro unlocked
  obtain ⟨entry, there⟩ := Option.ne_none_iff_exists'.mp held.1
  exact unlocked (lockPlace root) entry (FileTree.find_eq_ok_iff.mpr
    ⟨Path.ne_empty_of_speaks speaks_lockPath, leads_lockPath roots, there,
      fun ends => absurd ends speaks_lockPath⟩)

/-- A call on a project either found the lock in use and changed nothing, or leaves no lock. -/
theorem leaves_withLock_undone {α : Type} {work : StateM World α}
    (steady : ∀ locked : FileTree, World.Leaves work { world with tree := locked }
      fun _ worked => locked.Steady worked) :
    World.Leaves (withLock project work) world fun answer after =>
      (∀ result, answer = .ok result → Unlocked project after) ∧
      ∀ fault, answer = .error fault → after = world.tree ∧ Undone project world True after ∧
        ∀ lock, fault = .busy lock → ¬ Unlocked project world.tree := by
  by_cases there : ∃ root, world.tree.Roots project root
  · obtain ⟨root, roots⟩ := there
    refine (leaves_withLock_steady roots steady).mono fun answer after locked => ?_
    rcases locked with ⟨rfl, held, rfl⟩ | ⟨⟨result, rfl⟩, rootsAfter, vacant⟩
    · exact ⟨nofun, fun _ _ => ⟨rfl, held.undone roots, fun _ _ => held.not_unlocked roots⟩⟩
    · refine ⟨fun _ _ => unlocked_of_vacant fun other rootsOther => ?_, nofun⟩
      cases rootsAfter.leads.unique rootsOther.leads
      exact vacant
  · have strays (root : List String) : ¬ world.tree.Roots project root := fun roots =>
      there ⟨root, roots⟩
    refine (leaves_withLock_astray strays).mono fun answer after refused => ?_
    obtain ⟨⟨error, rfl⟩, rfl⟩ := refused
    have unlocked : Unlocked project world.tree :=
      unlocked_of_vacant fun root roots => absurd roots (strays root)
    exact ⟨nofun, by rintro _ ⟨⟩; exact ⟨rfl, unlocked.undone, nofun⟩⟩

/-! ## Recoveries and payloads -/

/-- A project can be reached if it is there, or if its path does not lead through something that
is missing and back. -/
def Reached (project : String) (tree : FileTree) : Prop :=
  (∃ root, tree.Roots project root) ∨
    Path.Direct project ∧ tree.get? tree.home = some .folder ∧ tree.WellFormed

/-- A project that is not there has no lock, and gets none when its folder is made. -/
theorem unlocked_of_widens {base : String} {names : List String}
    (whole : world.tree.WellFormed) (roots : world.tree.Roots base root) (inward : Inward names)
    (goesOn : Path.GoesOn base names project)
    (missing : ∀ root, ¬ world.tree.Roots project root)
    (widens : world.tree.Widens (Between root names) after) : Unlocked project after := by
  refine unlocked_of_vacant fun other rootsAfter => ?_
  obtain ⟨rfl, -⟩ := ((roots.widens widens).leads_iff inward goesOn).mp rootsAfter.leads
  rw [widens.elsewhere]
  · by_contra there
    have folder := whole _ _ there
    refine missing _ ⟨(roots.leads_iff inward goesOn).mpr
      ⟨rfl, fun inner last isNames filled => whole.folder_of_append filled ?_⟩, folder⟩
    rw [List.append_assoc, ← isNames, folder]
    nofun
  · rintro ⟨inner, last, -, rfl, isLock⟩
    have := congrArg List.length isLock
    simp only [lockPlace, List.length_append, List.length_singleton] at this
    omega

/-- The folder of a project is there, or is made where there is no lock. -/
theorem leaves_makeProject_undone (reached : Reached project world.tree) :
    World.Leaves (makeProject project) world fun answer after =>
      ((∃ actions, answer = .ok actions) ∧ after = world.tree) ∨
      (∀ root, ¬ world.tree.Roots project root) ∧ Unlocked project after ∧
        ∀ fault lock, answer = .error fault → fault ≠ .busy lock := by
  refine (World.leaves_isFolder project).bind fun answer tree asked => ?_
  obtain ⟨rfl, isFolder⟩ := asked
  cases answer with
  | true => exact .pure (.inl ⟨⟨_, rfl⟩, rfl⟩)
  | false =>
      by_cases isStart : project = ""
      · -- no folder is named, so none is made
        subst isStart
        exact ⟨_, _, rfl, .inl ⟨⟨_, rfl⟩, rfl⟩⟩
      · have missing (root : List String) : ¬ world.tree.Roots project root := fun roots =>
          nomatch isFolder.mpr ⟨root, roots.find isStart⟩
        obtain ⟨direct, home, whole⟩ := reached.resolve_left fun ⟨root, roots⟩ => missing root roots
        have roots := FileTree.roots_origin home project
        have inward := FileTree.inward_of_direct direct
        refine (FileTree.leaves_makeAncestors roots inward _
          fun _ => Path.goesOn_origin project).bind fun answer after widens => ?_
        have unlocked := unlocked_of_widens whole roots inward (Path.goesOn_origin project) missing
          widens
        cases answer with
        | ok _ => exact .pure (.inr ⟨missing, unlocked, nofun⟩)
        | error _ => exact .pure (.inr ⟨missing, unlocked, by rintro _ _ ⟨⟩ ⟨⟩⟩)

/-- A recovery that finds the lock in use has changed nothing, and one that fails leaves no lock
but one that it found in use. -/
theorem leaves_recover_undone (reached : Reached project world.tree) :
    World.Leaves (recover project manifest plan) world fun answer after =>
      (∀ report, answer = .ok report →
        report.isComplete = true ∧ after = world.tree ∨ Unlocked project after) ∧
      ∀ fault, answer = .error fault → Undone project world True after ∧
        ∀ lock, fault = .busy lock → after = world.tree := by
  refine (leaves_survey project manifest.entries world).bind fun shortfall tree asked => ?_
  obtain ⟨-, rfl⟩ := asked
  split
  · rename_i isComplete
    refine .pure ⟨?_, nofun⟩
    rintro _ ⟨⟩
    exact .inl ⟨isComplete, rfl⟩
  · refine (leaves_makeProject_undone reached).bind fun answer tree made => ?_
    rcases made with ⟨⟨actions, rfl⟩, rfl⟩ | ⟨missing, unlocked, refused⟩
    · refine (leaves_withLock_undone fun locked => leaves_passes_steady _ _).bind
        fun answer after worked => ?_
      cases answer with
      | ok progress => exact .pure ⟨fun _ _ => .inr (worked.1 _ rfl), nofun⟩
      | error fault =>
          obtain ⟨rfl, undone, -⟩ := worked.2 _ rfl
          exact .pure ⟨nofun, fun _ _ => ⟨undone, fun _ _ => rfl⟩⟩
    · cases answer with
      | error fault =>
          exact .pure ⟨nofun, by rintro _ ⟨⟩; exact ⟨unlocked.undone, fun lock isBusy =>
            absurd isBusy (refused fault lock rfl)⟩⟩
      | ok actions =>
          refine (leaves_withLock_undone fun locked => leaves_passes_steady _ _).bind
            fun answer after worked => ?_
          cases answer with
          | ok progress => exact .pure ⟨fun _ _ => .inr (worked.1 _ rfl), nofun⟩
          | error fault =>
              obtain ⟨rfl, -, busy⟩ := worked.2 _ rfl
              exact .pure ⟨nofun, by rintro _ ⟨⟩; exact ⟨unlocked.undone, fun lock isBusy =>
                absurd unlocked (busy lock isBusy)⟩⟩

theorem leaves_holds (path text : String) : World.Leaves (holds path text) world
    fun answer after => after = world.tree ∧ (answer = true ↔
      ∃ older, world.tree.read path = .ok older ∧ Hash.fingerprint older = Hash.fingerprint text) := by
  refine (World.leaves_ask _).bind fun answer tree asked => ?_
  obtain ⟨isRead, rfl⟩ := asked
  refine .pure ⟨rfl, ?_⟩
  rw [← isRead]
  cases answer with
  | error _ => simp
  | ok older => simp

/-- A payload that is not written because the lock is in use has changed nothing. -/
theorem leaves_writePayload_undone (text : String) :
    World.Leaves (writePayload project manifest text) world fun answer after =>
      ∀ fault, answer = .error fault →
        Undone project world (fault ≠ .noPayload) after ∧
        ((fault = .noPayload ∨ ∃ lock, fault = .busy lock) → after = world.tree) := by
  unfold writePayload
  cases manifest.primary? with
  | none =>
      refine .pure ?_
      rintro _ ⟨⟩
      exact ⟨⟨fun _ _ there => there, fun isAsked => absurd rfl isAsked⟩, fun _ => rfl⟩
  | some entry =>
      refine (leaves_holds _ _).bind fun answer tree asked => ?_
      obtain ⟨rfl, -⟩ := asked
      cases answer with
      | true => exact .pure nofun
      | false =>
          refine (leaves_withLock_undone fun locked => FileTree.leaves_place_steady _ _).bind
            fun answer after worked => ?_
          cases answer with
          | error fault =>
              obtain ⟨rfl, undone, -⟩ := worked.2 _ rfl
              refine .pure ?_
              rintro _ ⟨⟩
              exact ⟨⟨undone.found, fun _ => undone.live trivial⟩, fun _ => rfl⟩
          | ok placed =>
              have unlocked := worked.1 _ rfl
              cases placed with
              | ok _ => exact .pure nofun
              | error error =>
                  refine .pure ?_
                  rintro _ ⟨⟩
                  exact ⟨unlocked.undone, by rintro (⟨⟨⟩⟩ | ⟨_, ⟨⟩⟩)⟩

theorem leaves_install_undone (settings : Settings) (transpiled : Transpiled) (composition : String)
    (reached : Reached project world.tree) :
    World.Leaves (install settings transpiled composition project) world fun answer after =>
      ∀ fault, answer = .error fault → Undone project world (fault ≠ .noPayload) after := by
  refine (leaves_recover_undone reached).bind fun answer tree recovered => ?_
  cases answer with
  | error fault =>
      obtain ⟨undone, -⟩ := recovered.2 _ rfl
      refine .pure ?_
      rintro _ ⟨⟩
      exact ⟨undone.found, fun _ => undone.live trivial⟩
  | ok integrity =>
      have outcome := recovered.1 _ rfl
      cases isFault : integrity.fault? with
      | some fault =>
          have unlocked : Unlocked project tree := by
            refine outcome.resolve_left fun ⟨isComplete, _⟩ => ?_
            rw [IntegrityReport.fault?, if_pos isComplete] at isFault
            cases isFault
          simp only [isFault]
          exact .pure fun _ _ => unlocked.undone
      | none =>
          simp only [isFault]
          refine (leaves_writePayload_undone transpiled.text).bind fun answer after written => ?_
          cases answer with
          | ok _ => exact .pure nofun
          | error fault =>
              obtain ⟨undone, -⟩ := written _ rfl
              refine .pure ?_
              rintro _ ⟨⟩
              rcases outcome with ⟨-, rfl⟩ | unlocked
              · exact undone
              · exact Unlocked.undone fun place entry there =>
                  unlocked place entry (undone.found place entry there)

/-! ## Deployments -/

open Checker Validation Syntax

section Deploy

variable {check : String → StateM World Verdict}
  (checks : ∀ text, World.Leaves (check text) world fun _ tree => tree = world.tree)

include checks

theorem leaves_validate (text identifier : String) :
    World.Leaves (validate check text identifier) world fun _ tree => tree = world.tree := by
  cases parsed : parse text.toList with
  | error error =>
      rw [validate_of_error parsed]
      exact .pure rfl
  | ok module =>
      rw [validate_of_ok parsed]
      refine (checks text).bind fun verdict tree asked => ?_
      subst asked
      exact .pure rfl

theorem leaves_transpile (framesPerSecond : Nat) (artifact : Artifact) :
    World.Leaves (transpile check framesPerSecond artifact) world fun _ tree =>
      tree = world.tree := by
  cases parsed : parse (Repair.repair artifact.text.toList).text with
  | error error =>
      rw [transpile_of_error parsed]
      refine (leaves_validate checks _ _).bind fun report tree asked => ?_
      subst asked
      exact .pure rfl
  | ok module =>
      rw [transpile_of_ok parsed]
      refine (leaves_validate checks _ _).bind fun report tree asked => ?_
      subst asked
      exact .pure rfl

/-- An artifact that is rejected leaves a project as it is. -/
theorem leaves_deploy_undone (settings : Settings) (artifact : Artifact)
    (reached : Reached project world.tree) :
    World.Leaves (deploy settings check artifact project) world fun answer after =>
      ∀ fault, answer = .error fault →
        Undone project world (∃ inner, fault = .project inner ∧ inner ≠ .noPayload) after ∧
        ∀ rejection, fault = .rejected rejection → after = world.tree := by
  refine (leaves_transpile checks _ artifact).bind fun answer tree asked => ?_
  subst asked
  cases answer with
  | error rejection =>
      refine .pure ?_
      rintro _ ⟨⟩
      exact ⟨⟨fun _ _ there => there, by rintro ⟨_, ⟨⟩, _⟩⟩, fun _ _ => rfl⟩
  | ok transpiled =>
      refine (leaves_install_undone settings transpiled _ reached).bind
        fun answer after installed => ?_
      cases answer with
      | ok _ => exact .pure nofun
      | error fault =>
          have undone := installed _ rfl
          refine .pure ?_
          rintro _ ⟨⟩
          refine ⟨⟨undone.found, ?_⟩, nofun⟩
          rintro ⟨_, ⟨⟩, isAsked⟩
          exact undone.live isAsked

/-- A call that finds the lock in use and a deployment that is rejected change nothing, and no
call that fails leaves a lock that it did not find. A lock that it found is in use, unless the
call failed before it asked for the lock. -/
theorem failed_calls_undone (reached : Reached project world.tree) (manifest : Manifest)
    (plan : RecoveryPlan) (text : String) (settings : Settings) (artifact : Artifact) :
    World.Leaves (recover project manifest plan) world (fun answer after =>
      ∀ fault, answer = .error fault → Undone project world True after ∧
        ∀ lock, fault = .busy lock → after = world.tree) ∧
    World.Leaves (writePayload project manifest text) world (fun answer after =>
      ∀ fault, answer = .error fault → Undone project world (fault ≠ .noPayload) after ∧
        ((fault = .noPayload ∨ ∃ lock, fault = .busy lock) → after = world.tree)) ∧
    World.Leaves (deploy settings check artifact project) world (fun answer after =>
      ∀ fault, answer = .error fault →
        Undone project world (∃ inner, fault = .project inner ∧ inner ≠ .noPayload) after ∧
        ∀ rejection, fault = .rejected rejection → after = world.tree) := by
  constructor
  · exact (leaves_recover_undone reached).mono fun _ _ recovered => recovered.2
  · exact ⟨leaves_writePayload_undone text, leaves_deploy_undone checks settings artifact reached⟩

end Deploy

/-- A machine with nothing but a lock in the project at its top, where process 1 runs. -/
def lockedWorld (lock : String) : World where
  tree := ⟨[([lockName], .file lock)], []⟩
  programs _ _ := .error .notFound
  isRunning process := process == 1
  ownProcess := 2

/-- The calls on a project whose lock is in use. -/
theorem failed_calls_undone_in_use :
    (recover "." .standard {} : StateM World _) (lockedWorld "1\n") =
        (.error (.busy "./.framewright.lock"), lockedWorld "1\n") ∧
      World.Leaves (recover "." .standard {}) (lockedWorld "1\n") (fun answer after =>
        ∀ fault, answer = .error fault → Undone "." (lockedWorld "1\n") True after ∧
          ∀ lock, fault = .busy lock → after = (lockedWorld "1\n").tree) := by
  constructor
  · rfl
  · have reached : Reached "." (lockedWorld "1\n").tree := .inl ⟨[], rfl, rfl⟩
    have checks (text : String) : World.Leaves (pure (.ok []) : StateM World Verdict)
        (lockedWorld "1\n") fun _ tree => tree = (lockedWorld "1\n").tree := .pure rfl
    exact (failed_calls_undone checks reached .standard {} "x" {} ⟨"", "a"⟩).1

/-- A call that fails before it asks for the lock leaves a stale lock where it is. -/
theorem stale_lock_stays :
    (writePayload "." ⟨[]⟩ "x" : StateM World _) (lockedWorld "4294967294\n") =
        (.error .noPayload, lockedWorld "4294967294\n") ∧
      (lockedWorld "4294967294\n").tree.find (lockPath ".") =
        .ok ([lockName], .file "4294967294\n") ∧
      Stale (lockedWorld "4294967294\n") (lockedWorld "4294967294\n").tree [lockName] :=
  ⟨rfl, rfl, "4294967294\n", 4294967294, rfl, by decide, rfl⟩

end StopMotion.Project
