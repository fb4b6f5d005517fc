import StopMotion.Proofs.Disk.Interleaving
import StopMotion.Proofs.Number.Shape
import StopMotion.Proofs.Project.Recovery
import StopMotion.Proofs.Syntax.Token

/-!
# What a process does at a lock

A process that works on a project shares the machine with others, which may make any number of
calls between two of its own. What it can count on is little: the project is there, the lock is
not that of a process that is gone, and if it holds the lock, the lock is as it was made. That is
enough to say of each of its calls what it does at the lock, and that nothing else is changed by a
process that does not hold it.

A computation is judged call by call, each on any machine that the process may see then, so that
the judgement of one computation after another is that of both.
-/

namespace StopMotion.Project

open FileTree (Inward Between)

/-! ## The text of a lock -/

/-- A lock names the process that made it, if the number of the process is in range. -/
theorem lockOwner?_lockText (process : Nat) :
    lockOwner? (lockText process) =
      if process ≤ Number.greatest32 then some process else none := by
  have isText : (lockText process).toList = Number.digitsOf process ++ ['\n'] := by
    rw [lockText, String.toList_append, Number.digitsOf]
    exact congrArg (· ++ ['\n']) Nat.toList_repr
  have filled : ∀ c ∈ Number.digitsOf process, Text.isBlank c = false := by
    intro c isIn
    apply Syntax.not_blank_of_isAlphanum
    rw [Char.isAlphanum, Number.isDigit_of_mem_digitsOf isIn, Bool.or_true]
  rw [lockOwner?, isText, Text.trim_concat filled (by decide), Number.count?_digitsOf]

/-- The lock of a process that is running is not stale. -/
theorem not_stale_of_running {world : World} {tree : FileTree} {place : List String}
    {process : Nat} (running : world.isRunning process = true)
    (there : tree.get? place = some (.file (lockText process))) : ¬ Stale world tree place := by
  rintro ⟨text, owner, isText, isOwner, isGone⟩
  cases there.symm.trans isText
  rw [lockOwner?_lockText] at isOwner
  split at isOwner
  · cases isOwner
    cases running.symm.trans isGone
  · cases isOwner

/-! ## Calls at a lock -/

/-- What a call of a process may do at a lock: nothing, make the lock where there is none, or take
it away if the process holds it. -/
inductive Moves (number : Nat) :
    (holds : Bool) → (before : Option Entry) → (next : Bool) → (after : Option Entry) → Prop where
  | stays {holds : Bool} {lock : Option Entry} : Moves number holds lock holds lock
  | takes : Moves number false none true (some (.file (lockText number)))
  | gives : Moves number true (some (.file (lockText number))) false none

section Moves

variable {number : Nat} {holds next : Bool} {before after : Option Entry}

/-- Who holds the lock after a call finds it as it was made. -/
theorem Moves.own (moves : Moves number holds before next after)
    (own : holds = true → before = some (.file (lockText number))) (isHolder : next = true) :
    after = some (.file (lockText number)) := by
  cases moves with
  | stays => exact own isHolder
  | takes => rfl
  | gives => cases isHolder

/-- Who does not hold the lock leaves it alone if there is one. -/
theorem Moves.stays_of_there (moves : Moves number false before next after)
    (there : before ≠ none) : next = false ∧ after = before := by
  cases moves with
  | stays => exact ⟨rfl, rfl⟩
  | takes => exact absurd rfl there

/-- Only who holds the lock removes it. -/
theorem Moves.holds_of_removed (moves : Moves number holds before next after)
    (there : before ≠ none) (removed : after = none) : holds = true := by
  cases moves with
  | stays => exact absurd removed there
  | takes => cases removed
  | gives => rfl

/-- A call of a running process leaves no stale lock where there was none. -/
theorem Moves.alive {world later : World} {place : List String}
    (moves : Moves number holds (world.tree.get? place) next (later.tree.get? place))
    (isRunning : later.isRunning = world.isRunning) (running : world.isRunning number = true)
    (alive : ¬ Stale world world.tree place) : ¬ Stale later later.tree place := by
  by_cases same : later.tree.get? place = world.tree.get? place
  · rwa [Stale, isRunning, same]
  · generalize isBefore : world.tree.get? place = before at moves same
    generalize isAfter : later.tree.get? place = after at moves same
    cases moves with
    | stays => exact absurd rfl same
    | takes => exact not_stale_of_running (isRunning ▸ running) isAfter
    | gives =>
        rintro ⟨text, owner, isText, -⟩
        cases isAfter.symm.trans isText

end Moves

/-- A process at a project: what it calls the project, where that is, its own number, and which
processes are running. -/
structure Party where
  project : String
  root : List String
  number : Nat
  isRunning : Nat → Bool

namespace Party

variable {α β : Type} {party : Party} {holds : Bool} {world : World}

/-- What the machine is like at a call of a process, whatever others did before. -/
structure Sees (party : Party) (holds : Bool) (world : World) : Prop where
  roots : world.tree.Roots party.project party.root
  isRunning : world.isRunning = party.isRunning
  alive : ¬ Stale world world.tree (lockPlace party.root)
  own (isHolder : holds = true) :
    world.tree.get? (lockPlace party.root) = some (.file (lockText party.number))

/-- What a call of a process does to the machine. Besides the lock, only its holder changes
anything. -/
structure Turns (party : Party) (holds next : Bool) (before after : World) : Prop where
  isRunning : after.isRunning = before.isRunning
  home : after.tree.home = before.tree.home
  folder (place : List String) (there : before.tree.get? place = some .folder) :
    after.tree.get? place = some .folder
  elsewhere (isFree : holds = false) (place : List String)
    (isOther : place ≠ lockPlace party.root) : after.tree.get? place = before.tree.get? place
  moves : Moves party.number holds (before.tree.get? (lockPlace party.root)) next
    (after.tree.get? (lockPlace party.root))

/-- How a computation treats the lock at each call, whatever others do between the calls, and what
is so at its end. -/
def Heeds (party : Party) : Work α → (holds : Bool) → (after : α → Bool → Prop) → Prop
  | .done value, holds, after => after value holds
  | .call change rest, holds, after => ∀ world, party.Sees holds world →
      ∃ next, party.Turns holds next world (change world) ∧ party.Heeds (rest world) next after

/-- How a process treats the lock in a computation. -/
structure Does (party : Party) (work : Work α) (holds : Bool) (after : α → Bool → Prop) :
    Prop where
  heeds : party.Heeds (work.asProcess party.number) holds after

/-- A computation of a process that does nothing at the lock. -/
def Keeps (party : Party) (holds : Bool) (work : Work α) : Prop :=
  party.Does work holds fun _ next => next = holds

/-- Where a process may put something. -/
def May (party : Party) (holds : Bool) (place : List String) : Prop :=
  holds = true ∧ place ≠ lockPlace party.root

theorem Heeds.bind {work : Work α} {more : α → Work β} {middle : α → Bool → Prop}
    {after : β → Bool → Prop} (heeds : party.Heeds work holds middle)
    (rest : ∀ value next, middle value next → party.Heeds (more value) next after) :
    party.Heeds (work >>= more) holds after := by
  induction work generalizing holds with
  | done value => exact rest value holds heeds
  | call change onwards inductionHypothesis =>
      intro world sees
      obtain ⟨next, turns, heedsOn⟩ := heeds world sees
      exact ⟨next, turns, inductionHypothesis world heedsOn⟩

theorem Does.bind {work : Work α} {more : α → Work β} {middle : α → Bool → Prop}
    {after : β → Bool → Prop} (does : party.Does work holds middle)
    (rest : ∀ value next, middle value next → party.Does (more value) next after) :
    party.Does (work >>= more) holds after := by
  constructor
  rw [Work.asProcess_bind]
  exact does.heeds.bind fun value next isSo => (rest value next isSo).heeds

theorem Does.pure {value : α} {after : α → Bool → Prop} (isSo : after value holds) :
    party.Does (Pure.pure value) holds after := ⟨isSo⟩

/-- A single call is judged by what it does on the machines that the process may see. -/
theorem does_call {work : StateM World α} {after : α → Bool → Prop}
    (leaves : ∀ world, party.Sees holds world → world.ownProcess = party.number →
      World.Leaves work world fun answer tree =>
        ∃ next, party.Turns holds next world { world with tree } ∧ after answer next) :
    party.Does (Work.ofState work) holds after := by
  refine ⟨fun world sees => ?_⟩
  obtain ⟨answer, tree, done, next, turns, isSo⟩ :=
    leaves { world with ownProcess := party.number } ⟨sees.roots, sees.isRunning, sees.alive,
      sees.own⟩ rfl
  refine ⟨next, ?_, ?_⟩
  · simp only [done]
    exact ⟨turns.isRunning, turns.home, turns.folder, turns.elsewhere, turns.moves⟩
  · simp only [done]
    exact isSo

theorem Turns.refl (world : World) : party.Turns holds holds world world :=
  ⟨rfl, rfl, fun _ there => there, fun _ _ _ => rfl, .stays⟩

/-- What is put where the process may, over no folder, does nothing at the lock. -/
theorem Turns.put {place : List String} (notFolder : world.tree.get? place ≠ some .folder)
    (may : party.May holds place) (entry : Entry) :
    party.Turns holds holds world { world with tree := world.tree.put place entry } := by
  refine ⟨rfl, rfl, fun _ there => FileTree.folder_put notFolder entry there,
    fun isFree => (nomatch may.1.symm.trans isFree), ?_⟩
  rw [FileTree.get?_put (FileTree.ne_nil_of_not_folder notFolder), if_neg (Ne.symm may.2)]
  exact .stays

/-! ## Computations that do nothing at the lock -/

theorem Keeps.bind {work : Work α} {more : α → Work β} (keeps : party.Keeps holds work)
    (rest : ∀ value, party.Keeps holds (more value)) : party.Keeps holds (work >>= more) :=
  Does.bind keeps fun value _ same => same ▸ rest value

theorem Keeps.pure (value : α) : party.Keeps holds (Pure.pure value) := Does.pure rfl

theorem keeps_call {work : StateM World α}
    (leaves : ∀ world, world.tree.Roots party.project party.root →
      World.Leaves work world fun _ tree => party.Turns holds holds world { world with tree }) :
    party.Keeps holds (Work.ofState work) :=
  does_call fun world sees _ => (leaves world sees.roots).mono fun _ _ turns => ⟨_, turns, rfl⟩

theorem keeps_ask (question : FileTree → Except HostError α) :
    party.Keeps holds (Work.ofState (World.ask question)) :=
  keeps_call fun world _ => (World.leaves_ask question).mono fun _ _ asked => asked.2 ▸ .refl world

theorem Keeps.mapM {γ : Type} {step : γ → Work α} {items : List γ}
    (each : ∀ item ∈ items, party.Keeps holds (step item)) :
    party.Keeps holds (items.mapM step) := by
  induction items with
  | nil => exact .pure []
  | cons item rest inductionHypothesis =>
      rw [List.mapM_cons]
      exact (each item (.head _)).bind fun value =>
        (inductionHypothesis fun other isIn => each other (.tail _ isIn)).bind fun values =>
          .pure (value :: values)

theorem keeps_look (path : String) : party.Keeps holds (Host.look path) := keeps_ask _

theorem keeps_isFolder (path : String) : party.Keeps holds (Files.isFolder path) :=
  (keeps_look path).bind fun _ => .pure _

theorem keeps_unlessThere (path : String) (error : HostError) :
    party.Keeps holds (Files.unlessThere path error) :=
  (keeps_isFolder path).bind fun answer => by
    cases answer with
    | true => exact .pure _
    | false => exact .pure _

theorem keeps_survey (project : String) (entries : List ManifestEntry) :
    party.Keeps holds (survey project entries) := by
  induction entries with
  | nil => exact .pure _
  | cons entry rest inductionHypothesis =>
      have looks : party.Keeps holds (entry.presence project) :=
        (keeps_look _).bind fun _ => .pure _
      exact looks.bind fun _ => inductionHypothesis.bind fun _ => .pure _

section Folders

variable {path : String} {names : List String}

theorem keeps_makeFolder
    (inside : ∀ (tree : FileTree) (place : List String), tree.Roots party.project party.root →
      tree.Leads path place → tree.get? place = none → party.May holds place) :
    party.Keeps holds (Host.makeFolder path) := by
  refine keeps_call fun world roots => (World.leaves_change _).mono fun answer tree made => ?_
  rcases made with ⟨-, made⟩ | ⟨_, -, -, rfl⟩
  · obtain ⟨place, leads, vacant, rfl⟩ := FileTree.exists_of_makeFolder made
    exact .put (by rw [vacant]; nofun) (inside _ place roots leads vacant) .folder
  · exact .refl world

theorem keeps_makeChain {chain : List String}
    (inside : ∀ path ∈ chain, ∀ (tree : FileTree) (place : List String),
      tree.Roots party.project party.root → tree.Leads path place → tree.get? place = none →
        party.May holds place) :
    party.Keeps holds (Files.makeChain chain) := by
  induction chain with
  | nil => exact .pure _
  | cons path around inductionHypothesis =>
      have makes : party.Keeps holds (Host.makeFolder path) :=
        keeps_makeFolder (inside path (.head _))
      unfold Files.makeChain
      refine makes.bind fun answer => ?_
      split
      · exact .pure _
      · refine (inductionHypothesis fun other isIn => inside other (.tail _ isIn)).bind
          fun answer => ?_
        cases answer with
        | error error => exact .pure _
        | ok _ =>
            refine makes.bind fun answer => ?_
            cases answer with
            | ok _ => exact .pure _
            | error error => exact keeps_unlessThere path error
      · exact keeps_unlessThere path _

variable (inward : Inward names)
  (inside : ∀ place, Between party.root names place → party.May holds place)

include inward inside

theorem keeps_makeFolders (goesOn : Path.GoesOn party.project names path) :
    party.Keeps holds (Files.makeFolders path) :=
  keeps_makeChain fun _ isAround _ place roots leads vacant =>
    inside place (roots.between_of_vacant inward goesOn isAround leads vacant)

theorem keeps_place (named : names ≠ []) (goesOn : Path.GoesOn party.project names path)
    (text : String) : party.Keeps holds (Files.place path text) := by
  have around : party.Keeps holds (Files.makeFolders ((Path.namedParent? path).getD ".")) := by
    cases isParent : Path.parent? path with
    | none =>
        have noSteps := goesOn.steps_eq ▸ Path.steps_of_parent?_eq_none isParent
        exact absurd (List.append_eq_nil_iff.mp noSteps).2 named
    | some parent =>
        obtain ⟨front, last, rfl, -, onwards⟩ := goesOn.parent named isParent
        rw [Path.namedParent?_getD isParent]
        exact keeps_makeFolders inward.of_append
          (fun place between => inside place (between.append last)) onwards
  refine around.bind fun answer => ?_
  cases answer with
  | error error => exact .pure _
  | ok _ =>
      refine keeps_call fun world roots =>
        (World.leaves_change _).mono fun answer tree replaced => ?_
      rcases replaced with ⟨-, replaced⟩ | ⟨_, -, -, rfl⟩
      · obtain ⟨place, leads, notFolder, -, rfl⟩ := FileTree.exists_of_replace replaced
        obtain ⟨rfl, -⟩ := (roots.leads_iff inward goesOn).mp leads
        exact .put notFolder (inside _ ⟨names, [], named, (List.append_nil names).symm, rfl⟩) _
      · exact .refl world

end Folders

/-- In a project that is there no folder is made for it. -/
theorem keeps_makeProject : party.Keeps holds (makeProject party.project) := by
  refine (keeps_isFolder _).bind fun answer => ?_
  cases answer with
  | true => exact .pure _
  | false =>
      have inward : Inward [] := nofun
      have inside (place : List String) (between : Between party.root [] place) :
          party.May holds place := by
        obtain ⟨inner, last, filled, isNil, -⟩ := between
        exact absurd (List.append_eq_nil_iff.mp isNil.symm).1 filled
      refine (keeps_makeFolders inward inside ⟨rfl, by simp⟩).bind fun answer => ?_
      cases answer with
      | ok _ => exact .pure _
      | error _ => exact .pure _

end Party

/-! ## Work under the lock -/

/-- A manifest whose entries several processes may make: it has no fault, no entry is at the lock
or inside it, and no file is the project itself. -/
structure Manifest.Shareable (manifest : Manifest) : Prop where
  sound : manifest.Sound
  spares : manifest.SparesLock
  named (entry : ManifestEntry) (isIn : entry ∈ manifest.entries) (isFile : entry.kind = .file) :
    entry.names ≠ []

namespace Party

variable {α : Type} {party : Party} {holds : Bool} {manifest : Manifest} {plan : RecoveryPlan}
  {entry : ManifestEntry}

section Shared

variable (shareable : manifest.Shareable)

include shareable

/-- The holder of the lock may put something on the way to an entry. -/
theorem may_of_between (isIn : entry ∈ manifest.entries) (place : List String)
    (between : Between party.root entry.names place) : party.May true place := by
  refine ⟨rfl, ?_⟩
  rintro rfl
  exact shareable.spares.not_reaches ⟨entry, isIn, between⟩

theorem keeps_placeEntry (isIn : entry ∈ manifest.entries) (isFile : entry.kind = .file)
    (text : String) : party.Keeps true (Files.place (entry.locate party.project) text) :=
  have sound := shareable.sound.entry entry isIn
  keeps_place sound.inward (may_of_between shareable isIn) (shareable.named entry isIn isFile) sound.goesOn text

theorem keeps_makeFile (isIn : entry ∈ manifest.entries) (isFile : entry.kind = .file) :
    party.Keeps true (makeFile party.project manifest plan entry) := by
  unfold makeFile
  refine (keeps_isFolder _).bind fun answer => ?_
  split
  · exact .pure _
  · refine (keeps_placeEntry shareable isIn isFile _).bind fun answer => ?_
    cases answer with
    | ok _ => exact .pure _
    | error _ => exact .pure _

theorem keeps_makeEntry (isIn : entry ∈ manifest.entries) :
    party.Keeps true (makeEntry party.project manifest plan entry) := by
  have sound := shareable.sound.entry entry isIn
  unfold makeEntry
  split
  · rename_i isFile
    exact keeps_makeFile shareable isIn isFile
  · refine (keeps_makeFolders sound.inward (may_of_between shareable isIn) sound.goesOn).bind fun answer => ?_
    cases answer with
    | ok _ => exact .pure _
    | error _ => exact .pure _

theorem keeps_passes (left : Nat) (progress : Progress) :
    party.Keeps true (passes party.project manifest plan left progress) := by
  induction left generalizing progress with
  | zero => exact .pure _
  | succ left inductionHypothesis =>
      have makesPass : party.Keeps true (pass party.project manifest plan progress) :=
        (Keeps.mapM fun entry isLacking =>
          keeps_makeEntry shareable (List.mem_of_mem_filter isLacking)).bind fun _ =>
            (keeps_survey _ _).bind fun _ => .pure _
      unfold passes
      split
      · exact .pure _
      · exact makesPass.bind fun next => inductionHypothesis next

end Shared

/-! ## Holding the lock -/

/-- Only where there is no lock is one made. -/
theorem does_createLock : party.Does (createLock (lockPath party.project)) false
    fun answer next => answer = .ok () ∧ next = true ∨
      answer = .error (.busy (lockPath party.project)) ∧ next = false := by
  have asks : party.Does (Host.ownProcess : Work Nat) false
      fun number next => number = party.number ∧ next = false :=
    does_call fun world _ isOwn => World.leaves_ownProcess.mono fun number tree asked =>
      ⟨false, asked.2 ▸ .refl world, asked.1.trans isOwn, rfl⟩
  refine asks.bind fun number next asked => ?_
  obtain ⟨rfl, rfl⟩ := asked
  have creates : party.Does (Host.create (lockPath party.project) (lockText party.number)) false
      fun answer next => answer = .ok () ∧ next = true ∨
        answer = .error .alreadyThere ∧ next = false := by
    refine does_call fun world sees _ => (World.leaves_change _).mono fun answer tree created => ?_
    have leads := leads_lockPath sees.roots
    by_cases vacant : world.tree.get? (lockPlace party.root) = none
    · have creates := leads.create_vacant speaks_lockPath vacant (lockText party.number)
      rcases created with ⟨rfl, created⟩ | ⟨_, -, refused, -⟩
      · cases creates.symm.trans created
        refine ⟨true, ⟨rfl, rfl, fun _ there => ?_, fun _ place isOther => ?_, ?_⟩,
          .inl ⟨rfl, rfl⟩⟩
        · exact FileTree.folder_put (by rw [vacant]; nofun) _ there
        · rw [FileTree.get?_put lockPlace_ne_nil, if_neg isOther]
        · rw [vacant, FileTree.get?_put lockPlace_ne_nil, if_pos rfl]
          exact .takes
      · cases creates.symm.trans refused
    · have refuses := leads.create_there speaks_lockPath vacant (lockText party.number)
      rcases created with ⟨-, created⟩ | ⟨_, rfl, refused, rfl⟩
      · cases refuses.symm.trans created
      · cases refuses.symm.trans refused
        exact ⟨false, .refl world, .inr ⟨rfl, rfl⟩⟩
  refine creates.bind fun answer next created => ?_
  rcases created with ⟨rfl, rfl⟩ | ⟨rfl, rfl⟩
  · exact .pure (.inl ⟨rfl, rfl⟩)
  · exact .pure (.inr ⟨rfl, rfl⟩)

/-- A process never finds a lock that it may replace. -/
theorem does_isStale : party.Does (isStale (lockPath party.project)) false
    fun answer next => answer = false ∧ next = false := by
  have reads : party.Does (Host.read (lockPath party.project)) false fun answer next =>
      next = false ∧ ∀ text, answer = .ok text → ∀ process, lockOwner? text = some process →
        party.isRunning process = true := by
    refine does_call fun world sees _ => (World.leaves_ask _).mono fun answer tree asked => ?_
    obtain ⟨isRead, rfl⟩ := asked
    refine ⟨false, .refl world, rfl, fun text isText process isOwner => ?_⟩
    obtain ⟨place, found⟩ := FileTree.exists_of_read (isRead.symm.trans isText)
    obtain ⟨-, leads, there, -⟩ := FileTree.find_eq_ok_iff.mp found
    cases leads.unique (leads_lockPath sees.roots)
    rw [← sees.isRunning]
    by_contra isGone
    exact sees.alive ⟨text, process, there, isOwner, by simpa using isGone⟩
  refine reads.bind fun answer next isRead => ?_
  obtain ⟨rfl, runs⟩ := isRead
  cases answer with
  | error _ => exact .pure ⟨rfl, rfl⟩
  | ok text =>
      dsimp only
      cases isOwner : lockOwner? text with
      | none => exact .pure ⟨rfl, rfl⟩
      | some process =>
          have asks : party.Does (Host.isRunning process) false
              fun answer next => answer = true ∧ next = false :=
            does_call fun world sees _ => (World.leaves_isRunning process).mono
              fun answer tree asked => ⟨false, asked.2 ▸ .refl world, by
                rw [asked.1, sees.isRunning, runs text rfl process isOwner], rfl⟩
          refine asks.bind fun answer next asked => ?_
          obtain ⟨rfl, rfl⟩ := asked
          exact .pure ⟨rfl, rfl⟩

theorem does_takeLock : party.Does (takeLock (lockPath party.project)) false
    fun answer next => answer = .ok () ∧ next = true ∨
      answer = .error (.busy (lockPath party.project)) ∧ next = false := by
  refine does_createLock.bind fun answer next created => ?_
  rcases created with ⟨rfl, rfl⟩ | ⟨rfl, rfl⟩
  · exact .pure (.inl ⟨rfl, rfl⟩)
  · refine does_isStale.bind fun answer next asked => ?_
    obtain ⟨rfl, rfl⟩ := asked
    exact .pure (.inr ⟨rfl, rfl⟩)

/-- Who holds the lock can take it away. -/
theorem does_release : party.Does (Host.remove (lockPath party.project)) true
    fun _ next => next = false := by
  refine does_call fun world sees _ => (World.leaves_change _).mono fun answer tree removed => ?_
  have there := sees.own rfl
  have removes := FileTree.remove_of_find ((find_lockPath sees.roots).mpr there)
  rcases removed with ⟨-, removed⟩ | ⟨_, -, refused, -⟩
  · cases removes.symm.trans removed
    refine ⟨false, ⟨rfl, rfl, fun place isFolder => ?_, nofun, ?_⟩, rfl⟩
    · rw [FileTree.get?_erase lockPlace_ne_nil, if_neg, isFolder]
      rintro rfl
      cases there.symm.trans isFolder
    · rw [there, FileTree.get?_erase lockPlace_ne_nil, if_pos rfl]
      exact .gives
  · cases removes.symm.trans refused

/-- The lock is held while the work is done, and given up at its end. -/
theorem does_withLock {work : Work α} (keeps : party.Keeps true work) :
    party.Does (withLock party.project work) false fun _ next => next = false := by
  refine does_takeLock.bind fun answer next taken => ?_
  rcases taken with ⟨rfl, rfl⟩ | ⟨rfl, rfl⟩
  · refine Does.bind keeps fun result next isHolder => ?_
    cases isHolder
    exact does_release.bind fun _ next isFree => .pure isFree
  · exact .pure rfl

theorem does_recover (shareable : manifest.Shareable) :
    party.Does (recover party.project manifest plan) false fun _ next => next = false := by
  refine Does.bind (keeps_survey _ _) fun shortfall next isFree => ?_
  cases isFree
  split
  · exact .pure rfl
  · refine Does.bind keeps_makeProject fun answer next isFree => ?_
    cases isFree
    cases answer with
    | error _ => exact .pure rfl
    | ok actions =>
        refine (does_withLock (keeps_passes shareable _ _)).bind fun answer next isFree => ?_
        cases isFree
        cases answer with
        | error _ => exact .pure rfl
        | ok _ => exact .pure rfl

theorem does_writePayload (shareable : manifest.Shareable) (text : String) :
    party.Does (writePayload party.project manifest text) false fun _ next => next = false := by
  unfold writePayload
  cases isPrimary : manifest.primary? with
  | none => exact .pure rfl
  | some entry =>
      have isIn : entry ∈ manifest.entries := List.mem_of_find?_eq_some isPrimary
      have isFile : entry.kind = .file :=
        (shareable.sound.entry entry isIn).payload (List.find?_some isPrimary)
      have looks : party.Keeps false (Project.holds (entry.locate party.project) text) :=
        (keeps_ask _).bind fun _ => .pure _
      refine Does.bind looks fun answer next isFree => ?_
      cases isFree
      cases answer with
      | true => exact .pure rfl
      | false =>
          refine (does_withLock (keeps_placeEntry shareable isIn isFile text)).bind
            fun answer next isFree => ?_
          cases isFree
          rcases answer with _ | _ | _
          · exact .pure rfl
          · exact .pure rfl
          · exact .pure rfl

end Party

end StopMotion.Project
