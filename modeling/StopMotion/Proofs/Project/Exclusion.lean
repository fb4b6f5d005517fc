import StopMotion.Proofs.Project.Conduct
import StopMotion.Proofs.Project.Installation

/-!
# The lock of a project among several processes

However several processes that work on one project come between each other, at most one of them
holds its lock at any time, whoever changes anything holds the lock, and nobody removes another's
lock. The invariant is that whoever has made the lock and not removed it since finds it as it was
made; what carries it is that no process finds a lock that it may replace, because all that make
one are running.

A lock that was left by a process that is gone is read, judged and removed in calls of their own,
and by its path. There the others come between: two processes can both come to hold the lock.
-/

namespace StopMotion.Project

open Pool (Turn Trace)
open Work (Idles)

/-! ## Several processes -/

theorem Manifest.Workable.shareable {manifest : Manifest} (workable : manifest.Workable) :
    manifest.Shareable where
  sound := manifest.sound_of_fault? workable.faultless
  spares := workable.spares
  named := by
    intro entry isIn isFile
    refine ManifestEntry.names_ne_nil ((workable.consistent.named entry isIn).resolve_right ?_)
    simp [isFile]

example : Manifest.standard.Shareable := Manifest.standard_workable.shareable

/-- What a process is to do with a project. -/
inductive Errand where
  | recovery (plan : RecoveryPlan)
  | payload (text : String)
  deriving DecidableEq, Repr

/-- A process that works on a project, by what it calls it. -/
structure Process where
  number : Nat
  project : String
  manifest : Manifest
  errand : Errand
  deriving DecidableEq, Repr

namespace Process

variable {process : Process} {root : List String} {world after : World}

/-- What a process does. -/
def calls (process : Process) : Work Unit :=
  match process.errand with
  | .recovery plan => do
    let _ ← recover process.project process.manifest plan
  | .payload text => do
    let _ ← writePayload process.project process.manifest text

/-- What a process does under its own number. -/
def work (process : Process) : Work Unit := process.calls.asProcess process.number

/-- A running process that works on the project at a place. -/
structure Joins (process : Process) (root : List String) (world : World) : Prop where
  roots : world.tree.Roots process.project root
  running : world.isRunning process.number = true
  shareable : process.manifest.Shareable

/-- A process beside others. -/
def party (process : Process) (root : List String) (world : World) : Party :=
  ⟨process.project, root, process.number, world.isRunning⟩

theorem Joins.heeds (joins : process.Joins root world) :
    (process.party root world).Heeds process.work false fun _ next => next = false := by
  have does : (process.party root world).Does process.calls false fun _ next => next = false := by
    unfold calls
    cases process.errand with
    | recovery plan =>
        exact (Party.does_recover joins.shareable).bind fun _ _ isFree => .pure isFree
    | payload text =>
        exact (Party.does_writePayload joins.shareable text).bind fun _ _ isFree => .pure isFree
  exact does.heeds

end Process

/-- A call makes something at a place where there was nothing. -/
def Makes (turn : Turn) (place : List String) : Prop :=
  turn.before.tree.get? place = none ∧ turn.after.tree.get? place ≠ none

/-- A call removes what was at a place. -/
def Removes (turn : Turn) (place : List String) : Prop :=
  turn.before.tree.get? place ≠ none ∧ turn.after.tree.get? place = none

/-- Of several workers that have made some calls, the latest first, one has made what is at a place
and has not removed anything from there since. -/
def Holds (place : List String) (worker : Nat) : List Turn → Prop
  | [] => False
  | turn :: earlier =>
    if turn.worker = worker then
      Makes turn place ∨ Holds place worker earlier ∧ ¬ Removes turn place
    else Holds place worker earlier

/-- A call is made by right: whoever changes anything but the lock holds the lock, and so does
whoever removes the lock, which is then the one that it made. -/
structure Rightful (processes : List Process) (root : List String) (turn : Turn)
    (earlier : List Turn) : Prop where
  changes (place : List String) (isOther : place ≠ lockPlace root)
    (changed : turn.after.tree.get? place ≠ turn.before.tree.get? place) :
    Holds (lockPlace root) turn.worker earlier
  removes (removed : Removes turn (lockPlace root)) :
    Holds (lockPlace root) turn.worker earlier ∧
      ∃ process, processes[turn.worker]? = some process ∧
        turn.before.tree.get? (lockPlace root) = some (.file (lockText process.number))

section Calls

variable {place : List String} {worker : Nat} {turn : Turn} {earlier : List Turn}

theorem holds_other (isOther : turn.worker ≠ worker) :
    Holds place worker (turn :: earlier) ↔ Holds place worker earlier := by
  rw [Holds, if_neg isOther]

theorem holds_others {turns : List Turn} (areOthers : ∀ turn ∈ turns, turn.worker ≠ worker) :
    Holds place worker (turns ++ earlier) ↔ Holds place worker earlier := by
  induction turns with
  | nil => rfl
  | cons turn turns inductionHypothesis =>
      rw [List.cons_append, holds_other (areOthers turn (.head _)),
        inductionHypothesis fun other isIn => areOthers other (.tail _ isIn)]

theorem holds_worker : Holds place turn.worker (turn :: earlier) ↔
    Makes turn place ∨ Holds place turn.worker earlier ∧ ¬ Removes turn place := by
  rw [Holds, if_pos rfl]

/-- Who makes the lock and takes it away holds it in between. -/
theorem Moves.holds_iff {number : Nat} {holds next : Bool}
    (moves : Moves number holds (turn.before.tree.get? place) next (turn.after.tree.get? place))
    (isHolder : Holds place turn.worker earlier ↔ holds = true) :
    Holds place turn.worker (turn :: earlier) ↔ next = true := by
  rw [holds_worker, isHolder, Makes, Removes]
  generalize turn.before.tree.get? place = before at moves ⊢
  generalize turn.after.tree.get? place = after at moves ⊢
  cases moves with
  | stays => cases before <;> simp
  | takes => simp
  | gives => simp

end Calls

/-- The lock is as its holder made it, and nobody else holds it. -/
structure Guarded (processes : List Process) (root : List String) (turns : List Turn)
    (world : World) : Prop where
  own (worker : Nat) (isHolder : Holds (lockPlace root) worker turns) :
    ∃ process, processes[worker]? = some process ∧
      world.tree.get? (lockPlace root) = some (.file (lockText process.number))
  alone (first second : Nat) (isFirst : Holds (lockPlace root) first turns)
    (isSecond : Holds (lockPlace root) second turns) : first = second

section Guarded

variable {processes : List Process} {process : Process} {root : List String} {turns : List Turn}
  {turn : Turn} {holds next : Bool}

theorem Guarded.own_of_holds {world : World} {worker : Nat}
    (guarded : Guarded processes root turns world) (isProcess : processes[worker]? = some process)
    (isHolder : Holds (lockPlace root) worker turns) :
    world.tree.get? (lockPlace root) = some (.file (lockText process.number)) := by
  obtain ⟨other, isOther, there⟩ := guarded.own worker isHolder
  cases isProcess.symm.trans isOther
  exact there

/-- While another process holds the lock, the one that makes a call leaves it alone. -/
theorem Guarded.spares (guarded : Guarded processes root turns turn.before)
    (isHolder : Holds (lockPlace root) turn.worker turns ↔ holds = true)
    (moves : Moves process.number holds (turn.before.tree.get? (lockPlace root)) next
      (turn.after.tree.get? (lockPlace root))) {other : Nat} (isOther : other ≠ turn.worker)
    (holding : Holds (lockPlace root) other turns) :
    next = false ∧
      turn.after.tree.get? (lockPlace root) = turn.before.tree.get? (lockPlace root) := by
  have isFree : holds = false := Bool.eq_false_iff.mpr fun isOwn =>
    isOther (guarded.alone other turn.worker holding (isHolder.mpr isOwn))
  subst isFree
  obtain ⟨_, _, there⟩ := guarded.own other holding
  exact moves.stays_of_there (by simp [there])

theorem Guarded.after (guarded : Guarded processes root turns turn.before)
    (isProcess : processes[turn.worker]? = some process)
    (isHolder : Holds (lockPlace root) turn.worker turns ↔ holds = true)
    (moves : Moves process.number holds (turn.before.tree.get? (lockPlace root)) next
      (turn.after.tree.get? (lockPlace root))) :
    Guarded processes root (turn :: turns) turn.after := by
  have isLater : Holds (lockPlace root) turn.worker (turn :: turns) ↔ next = true :=
    moves.holds_iff isHolder
  constructor
  · intro other holding
    by_cases isWorker : other = turn.worker
    · subst isWorker
      refine ⟨process, isProcess, moves.own (fun isOwn => ?_) (isLater.mp holding)⟩
      exact guarded.own_of_holds isProcess (isHolder.mpr isOwn)
    · rw [holds_other (Ne.symm isWorker)] at holding
      obtain ⟨process, isProcess, there⟩ := guarded.own other holding
      exact ⟨process, isProcess,
        (guarded.spares isHolder moves isWorker holding).2.trans there⟩
  · -- after the call the worker holds the lock and nobody else, or those that held it before
    cases holding : next with
    | true =>
        have isWorker (other : Nat) (isHolding : Holds (lockPlace root) other (turn :: turns)) :
            other = turn.worker := by
          by_contra isOther
          rw [holds_other (Ne.symm isOther)] at isHolding
          cases (guarded.spares isHolder moves isOther isHolding).1.symm.trans holding
        intro first second isFirst isSecond
        rw [isWorker first isFirst, isWorker second isSecond]
    | false =>
        have held (other : Nat) (isHolding : Holds (lockPlace root) other (turn :: turns)) :
            Holds (lockPlace root) other turns := by
          rwa [holds_other] at isHolding
          rintro rfl
          cases holding.symm.trans (isLater.mp isHolding)
        intro first second isFirst isSecond
        exact guarded.alone first second (held first isFirst) (held second isSecond)

end Guarded

/-- How far several processes have come. -/
structure Abreast (processes : List Process) (root : List String) (start : World)
    (turns : List Turn) (pool : Pool Unit) : Prop where
  isRunning : pool.world.isRunning = start.isRunning
  alive : ¬ Stale pool.world pool.world.tree (lockPlace root)
  guarded : Guarded processes root turns pool.world
  each (worker : Nat) (work : Work Unit) (isWork : pool.works[worker]? = some work) :
    ∃ process holds, processes[worker]? = some process ∧ process.Joins root pool.world ∧
      (Holds (lockPlace root) worker turns ↔ holds = true) ∧
      (process.party root start).Heeds work holds fun _ next => next = false

theorem Process.Joins.turns {process : Process} {root : List String} {party : Party}
    {holds next : Bool} {before after : World} (joins : process.Joins root before)
    (turns : party.Turns holds next before after) : process.Joins root after :=
  ⟨joins.roots.mono turns.home turns.folder, turns.isRunning ▸ joins.running, joins.shareable⟩

/-- A call of one of several processes is made by right, and after it they stand as before it. -/
theorem Abreast.turn {processes : List Process} {root : List String} {start world : World}
    {turns : List Turn} {works : List (Work Unit)} {worker : Nat} {change : World → World}
    {rest : World → Work Unit} (abreast : Abreast processes root start turns ⟨world, works⟩)
    (isNext : works[worker]? = some (.call change rest)) :
    Rightful processes root ⟨worker, world, change world⟩ turns ∧
      Abreast processes root start (⟨worker, world, change world⟩ :: turns)
        ⟨change world, works.set worker (rest world)⟩ := by
  obtain ⟨isRunning, alive, guarded, each⟩ := abreast
  obtain ⟨process, holds, isProcess, joins, isHolder, heeds⟩ := each worker _ isNext
  have ownHere (isOwn : holds = true) :
      world.tree.get? (lockPlace root) = some (.file (lockText process.number)) :=
    guarded.own_of_holds isProcess (isHolder.mpr isOwn)
  obtain ⟨next, turned, heedsOn⟩ := heeds world ⟨joins.roots, isRunning, alive, ownHere⟩
  have moves : Moves process.number holds (world.tree.get? (lockPlace root)) next
      ((change world).tree.get? (lockPlace root)) := turned.moves
  refine ⟨⟨fun place isElsewhere changed => ?_, fun removed => ?_⟩, ?_⟩
  · rw [isHolder]
    by_contra notHolder
    exact changed (turned.elsewhere (Bool.eq_false_iff.mpr notHolder) place isElsewhere)
  · have isOwn := moves.holds_of_removed removed.1 removed.2
    exact ⟨isHolder.mpr isOwn, process, isProcess, ownHere isOwn⟩
  · constructor
    · exact turned.isRunning.trans isRunning
    · exact moves.alive turned.isRunning joins.running alive
    · exact Guarded.after guarded isProcess isHolder moves
    · intro other work isWork
      by_cases isWorker : worker = other
      · subst isWorker
        rw [List.getElem?_set_self (List.getElem?_eq_some_iff.mp isNext).1] at isWork
        cases isWork
        exact ⟨process, next, isProcess, joins.turns turned, moves.holds_iff isHolder, heedsOn⟩
      · rw [List.getElem?_set_ne isWorker] at isWork
        obtain ⟨process, holds, isProcess, joins, isHolder, heeds⟩ := each other work isWork
        exact ⟨process, holds, isProcess, joins.turns turned,
          (holds_other isWorker).trans isHolder, heeds⟩

theorem abreast_start {processes : List Process} {root : List String} {start : World}
    (joins : ∀ process ∈ processes, process.Joins root start)
    (alive : ¬ Stale start start.tree (lockPlace root)) :
    Abreast processes root start [] ⟨start, processes.map Process.work⟩ := by
  refine ⟨rfl, alive, ⟨nofun, nofun⟩, fun worker work isWork => ?_⟩
  rw [List.getElem?_map] at isWork
  obtain ⟨process, isProcess, rfl⟩ := Option.map_eq_some_iff.mp isWork
  have joinsHere := joins process (List.mem_of_getElem? isProcess)
  exact ⟨process, false, isProcess, joinsHere, ⟨nofun, nofun⟩, joinsHere.heeds⟩

/-- However several processes come between each other, at most one of them holds the lock of their
project, and each call is made by right. -/
theorem lock_exclusive {processes : List Process} {root : List String} {start : World}
    {turns : List Turn} {later : Pool Unit}
    (joins : ∀ process ∈ processes, process.Joins root start)
    (alive : ¬ Stale start start.tree (lockPlace root))
    (trace : Trace ⟨start, processes.map Process.work⟩ turns later) :
    (∀ first second, Holds (lockPlace root) first turns → Holds (lockPlace root) second turns →
      first = second) ∧
    ∀ turn earlier, turn :: earlier <:+ turns → Rightful processes root turn earlier := by
  have abreast : Abreast processes root start turns later ∧
      ∀ turn earlier, turn :: earlier <:+ turns → Rightful processes root turn earlier := by
    induction trace with
    | start =>
        refine ⟨abreast_start joins alive, fun turn earlier isLater => ?_⟩
        cases List.suffix_nil.mp isLater
    | turn _ isNext inductionHypothesis =>
        obtain ⟨abreast, rightful⟩ := inductionHypothesis
        obtain ⟨rightfulHere, onwards⟩ := abreast.turn isNext
        refine ⟨onwards, fun turn earlier isLater => ?_⟩
        rcases List.suffix_cons_iff.mp isLater with isHere | isLater
        · cases isHere
          exact rightfulHere
        · exact rightful turn earlier isLater
  exact ⟨abreast.1.guarded.alone, abreast.2⟩

/-! ## A lock that is left behind -/

/-- What follows in taking a lock when it was found to be stale. -/
def replaceLock (lock : String) : Work (Except ProjectFault Unit) := do
  match ← Host.remove lock with
  | .ok () => createLock lock
  | .error error => return .error (.notReleased lock error)

section Idle

variable {project : String} {root : List String} {world : World}

theorem idles_createLock (roots : world.tree.Roots project root)
    (there : world.tree.get? (lockPlace root) ≠ none) :
    Idles world (createLock (lockPath project)) (pure (.error (.busy (lockPath project)))) := by
  have refuses := (leads_lockPath roots).create_there speaks_lockPath there
    (lockText world.ownProcess)
  have asks : Idles world Host.ownProcess (pure world.ownProcess) := .ofState rfl
  have tries : Idles world (Host.create (lockPath project) (lockText world.ownProcess))
      (pure (.error .alreadyThere)) := .ofState (by simp [Host.create, World.change, refuses])
  exact (asks.bind _).trans (tries.bind _)

theorem idles_isStale (roots : world.tree.Roots project root)
    (stale : Stale world world.tree (lockPlace root)) :
    Idles world (isStale (lockPath project)) (pure true) := by
  obtain ⟨text, process, there, isOwner, isGone⟩ := stale
  have isRead : world.tree.read (lockPath project) = .ok text := by
    rw [FileTree.read, (find_lockPath roots).mpr there]
    rfl
  have reads : Idles world (Host.read (lockPath project)) (pure (.ok text)) :=
    .ofState (by simp [Host.read, World.ask, isRead])
  have asks : Idles world (Host.isRunning process) (pure false) := .ofState (by rw [← isGone]; rfl)
  refine (reads.bind _).trans ?_
  simp only [pure_bind, isOwner]
  exact asks.bind _

/-- A stale lock is read and judged before anything is done about it. -/
theorem idles_takeLock (roots : world.tree.Roots project root)
    (stale : Stale world world.tree (lockPlace root)) :
    Idles world (takeLock (lockPath project)) (replaceLock (lockPath project)) := by
  have there : world.tree.get? (lockPlace root) ≠ none := by
    obtain ⟨text, -, there, -⟩ := stale
    rw [there]
    nofun
  exact ((idles_createLock roots there).bind _).trans ((idles_isStale roots stale).bind _)

theorem idles_survey (entries : List ManifestEntry) :
    Idles world (survey project entries) (pure (lacks project world.tree entries)) := by
  induction entries with
  | nil => exact .refl
  | cons entry rest inductionHypothesis =>
      have asks : Idles world (Host.look (entry.locate project))
          (pure (World.foundAt (entry.locate project) world.tree)) := .ofState rfl
      have looks : Idles world (entry.presence project) (pure (entry.metIn project world.tree)) :=
        asks.bind _
      exact (looks.bind _).trans (inductionHypothesis.bind _)

theorem idles_makeProject (there : world.tree.find project = .ok (root, .folder)) :
    Idles world (makeProject project) (pure (.ok [])) := by
  have isFolder : World.foundAt project world.tree = .ok .folder := by
    rw [World.foundAt, there]
    rfl
  have asks : Idles world (Host.look project) (pure (.ok .folder)) :=
    .ofState (by rw [← isFolder]; rfl)
  have looks : Idles world (Files.isFolder project) (pure true) := asks.bind _
  exact looks.bind _

end Idle

namespace Process

variable {process : Process} {root : List String} {world : World}

/-- A process finds something to do in the project at a place. -/
structure Seeks (process : Process) (root : List String) (world : World) : Prop where
  there : world.tree.find process.project = .ok (root, .folder)
  lacking (plan : RecoveryPlan) (isRecovery : process.errand = .recovery plan) :
    (lacks process.project world.tree process.manifest.entries).isComplete = false
  differs (text : String) (isPayload : process.errand = .payload text) :
    ∃ entry, process.manifest.primary? = some entry ∧
      ∀ older, world.tree.read (entry.locate process.project) = .ok older →
        (Hash.fingerprint older == Hash.fingerprint text) = false

/-- Left alone, a process with something to do comes to where it replaces a stale lock. -/
theorem Seeks.comes (seeks : process.Seeks root world)
    (stale : Stale world world.tree (lockPlace root)) :
    ∃ more : Except ProjectFault Unit → Work Unit, Idles world process.calls
      (replaceLock (lockPath process.project) >>= more) := by
  have locks := idles_takeLock (FileTree.roots_of_find seeks.there) stale
  unfold calls
  cases isErrand : process.errand with
  | recovery plan =>
      simp only [recover, bind_assoc]
      apply Exists.intro
      refine ((idles_survey _).bind _).trans ?_
      simp only [pure_bind, seeks.lacking plan isErrand, Bool.false_eq_true, if_false, bind_assoc]
      refine ((idles_makeProject seeks.there).bind _).trans ?_
      simp only [pure_bind, withLock, bind_assoc]
      exact locks.bind _
  | payload text =>
      obtain ⟨entry, isPrimary, differs⟩ := seeks.differs text isErrand
      have looks : Idles world (holds (entry.locate process.project) text) (pure false) := by
        have reads : Idles world (Host.read (entry.locate process.project))
            (pure (world.tree.read (entry.locate process.project))) := .ofState rfl
        refine (reads.bind _).trans ?_
        cases isRead : world.tree.read (entry.locate process.project) with
        | error _ => exact .refl
        | ok older =>
            simp only [pure_bind, differs older isRead]
            exact .refl
      simp only [writePayload, isPrimary, bind_assoc]
      apply Exists.intro
      refine (looks.bind _).trans ?_
      simp only [pure_bind, Bool.false_eq_true, if_false, withLock, bind_assoc]
      exact locks.bind _

theorem Seeks.idles (seeks : process.Seeks root world)
    (stale : Stale world world.tree (lockPlace root)) :
    ∃ more : Except ProjectFault Unit → Work Unit, Idles world process.work
      ((replaceLock (lockPath process.project)).asProcess process.number >>= more) := by
  have seeksSeen : process.Seeks root { world with ownProcess := process.number } :=
    ⟨seeks.there, seeks.lacking, seeks.differs⟩
  obtain ⟨more, comes⟩ := seeksSeen.comes stale
  refine ⟨fun answer => (more answer).asProcess process.number, ?_⟩
  rw [← Work.asProcess_bind]
  exact comes.asProcess

end Process

section Replacing

variable {project : String} {root : List String} {world : World} {works : List (Work Unit)}
  {worker number : Nat} {more : Except ProjectFault Unit → Work Unit}
  (roots : world.tree.Roots project root)

include roots

/-- The calls by which a process makes a lock. -/
theorem trace_createLock (vacant : world.tree.get? (lockPlace root) = none)
    (isWork : works[worker]? =
      some ((createLock (lockPath project) : Work _).asProcess number >>= more)) {made : FileTree}
    (isMade : made = world.tree.put (lockPlace root) (.file (lockText number))) :
    Trace ⟨world, works⟩ [⟨worker, world, { world with tree := made }⟩, ⟨worker, world, world⟩]
      ⟨{ world with tree := made }, works.set worker (more (.ok ()))⟩ := by
  obtain ⟨within, -⟩ := List.getElem?_eq_some_iff.mp isWork
  have isAsked : (Host.ownProcess : StateM World Nat) { world with ownProcess := number } =
      (number, { world with ownProcess := number }) := rfl
  have creates := (leads_lockPath roots).create_vacant speaks_lockPath vacant (lockText number)
  rw [← isMade] at creates
  have isCreated : (Host.create (lockPath project) (lockText number) : StateM World _)
      { world with ownProcess := number } =
        (.ok (), { world with tree := made, ownProcess := number }) := by
    simp [Host.create, World.change, creates]
  rw [createLock, Work.asProcess_bind, bind_assoc] at isWork
  have asked := Trace.call isWork isAsked
  have created := asked.trans (Trace.call
    (by rw [List.getElem?_set_self within, Work.asProcess_bind, bind_assoc]; rfl) isCreated)
  rw [List.set_set] at created
  exact created

/-- A process that replaces a lock, whoever made it, holds the lock after its calls. -/
theorem exists_replaced {text : String}
    (there : world.tree.get? (lockPlace root) = some (.file text))
    (isWork : works[worker]? = some ((replaceLock (lockPath project)).asProcess number >>= more)) :
    ∃ later turns, Trace ⟨world, works⟩ turns ⟨later, works.set worker (more (.ok ()))⟩ ∧
      (∀ project, world.tree.Roots project root → later.tree.Roots project root) ∧
      later.tree.get? (lockPlace root) = some (.file (lockText number)) ∧
      (∀ earlier, Holds (lockPlace root) worker (turns ++ earlier)) ∧
      ∀ turn ∈ turns, turn.worker = worker := by
  obtain ⟨within, -⟩ := List.getElem?_eq_some_iff.mp isWork
  have removes := FileTree.remove_of_find ((find_lockPath roots).mpr there)
  have rootsBare (project : String) (roots : world.tree.Roots project root) :=
    roots_erase roots there
  have vacant : (world.tree.erase (lockPlace root)).get? (lockPlace root) = none := by
    rw [FileTree.get?_erase lockPlace_ne_nil, if_pos rfl]
  generalize world.tree.erase (lockPlace root) = bare at removes rootsBare vacant
  have isRemoved : (Host.remove (lockPath project) : StateM World _)
      { world with ownProcess := number } =
        (.ok (), { world with tree := bare, ownProcess := number }) := by
    simp [Host.remove, World.change, removes]
  rw [replaceLock, Work.asProcess_bind, bind_assoc] at isWork
  have replaced := (Trace.call isWork isRemoved).trans
    (trace_createLock (rootsBare project roots) vacant (List.getElem?_set_self within) rfl)
  rw [List.set_set] at replaced
  have locked : (bare.put (lockPlace root) (.file (lockText number))).get? (lockPlace root) =
      some (.file (lockText number)) := by
    rw [FileTree.get?_put lockPlace_ne_nil, if_pos rfl]
  refine ⟨_, _, replaced, fun project roots => ?_, locked, fun earlier => ?_, by simp⟩
  · exact (rootsBare project roots).mono rfl fun _ isFolder =>
      FileTree.folder_put (by simp [vacant]) _ isFolder
  · exact holds_worker.mpr (.inl ⟨vacant, by simp [locked]⟩)

end Replacing

/-- Where a lock is left by a process that is gone, any two processes that have something to do can
come to hold the lock of their project at the same time. -/
theorem lock_shared {processes : List Process} {root : List String} {start : World}
    {one other : Process} {first second : Nat}
    (stale : Stale start start.tree (lockPlace root)) (differ : first ≠ second)
    (isFirst : processes[first]? = some one) (isSecond : processes[second]? = some other)
    (seeksOne : one.Seeks root start) (seeksOther : other.Seeks root start) :
    ∃ turns later, Trace ⟨start, processes.map Process.work⟩ turns later ∧
      Holds (lockPlace root) first turns ∧ Holds (lockPlace root) second turns := by
  obtain ⟨_, idlesFirst⟩ := seeksOne.idles stale
  obtain ⟨_, idlesSecond⟩ := seeksOther.idles stale
  have worksFirst : (processes.map Process.work)[first]? = some one.work := by simp [isFirst]
  have worksSecond : (processes.map Process.work)[second]? = some other.work := by simp [isSecond]
  -- both find the lock stale before either of them removes it
  obtain ⟨_, _, firstWaits, waitsFirst, others⟩ := Pool.exists_idle idlesFirst worksFirst
  obtain ⟨_, _, secondWaits, waitsSecond, stays⟩ :=
    Pool.exists_idle idlesSecond ((others second differ).trans worksSecond)
  -- then one after the other removes what it finds and makes its own
  obtain ⟨_, -, there, -⟩ := id stale
  obtain ⟨middle, turnsSecond, secondReplaces, roots, locked, holdsSecond, -⟩ :=
    exists_replaced (FileTree.roots_of_find seeksOther.there) there waitsSecond
  obtain ⟨later, turnsFirst, firstReplaces, -, -, holdsFirst, allFirst⟩ :=
    exists_replaced (roots _ (FileTree.roots_of_find seeksOne.there)) locked
      ((List.getElem?_set_ne differ.symm).trans ((stays first differ.symm).trans waitsFirst))
  refine ⟨_, _, ((firstWaits.trans secondWaits).trans secondReplaces).trans firstReplaces,
    holdsFirst _, ?_⟩
  rw [holds_others fun turn isIn => allFirst turn isIn ▸ differ]
  exact holdsSecond _

end StopMotion.Project
