import StopMotion.Disk.Files
import StopMotion.Proofs.Disk.Tree

/-!
# Growth of a tree

A tree widens at some places if folders are made there where nothing was, and it grows if
besides files that hold nothing are written. Making a folder with those around it widens a
tree. If a folder on the way is there, nothing is made outside of it: the folders around are
made from the inside out until one is there.
-/

namespace StopMotion

/-- What a computation on a machine answers, and the tree that it leaves. Nothing but the tree
changes. -/
def World.Leaves {α : Type} (work : StateM World α) (world : World)
    (after : α → FileTree → Prop) : Prop :=
  ∃ answer tree, work world = (answer, { world with tree }) ∧ after answer tree

namespace World

variable {α β : Type} {work : StateM World α} {more : α → StateM World β} {world : World}
  {middle after : α → FileTree → Prop} {last : β → FileTree → Prop}

theorem Leaves.mono (leaves : Leaves work world middle)
    (weaker : ∀ answer tree, middle answer tree → after answer tree) :
    Leaves work world after := by
  obtain ⟨answer, tree, run, holds⟩ := leaves
  exact ⟨answer, tree, run, weaker answer tree holds⟩

/-- A computation has one outcome. -/
theorem Leaves.and (first : Leaves work world middle) (second : Leaves work world after) :
    Leaves work world fun answer tree => middle answer tree ∧ after answer tree := by
  obtain ⟨answer, tree, run, holds⟩ := first
  obtain ⟨other, final, again, holdsAgain⟩ := second
  obtain ⟨rfl, isWorld⟩ := Prod.mk.inj (run.symm.trans again)
  obtain rfl : tree = final := congrArg World.tree isWorld
  exact ⟨answer, tree, run, holds, holdsAgain⟩

theorem Leaves.bind (leaves : Leaves work world middle)
    (rest : ∀ answer tree, middle answer tree → Leaves (more answer) { world with tree } last) :
    Leaves (work >>= more) world last := by
  obtain ⟨answer, tree, run, holds⟩ := leaves
  obtain ⟨value, final, runRest, holdsRest⟩ := rest answer tree holds
  refine ⟨value, final, ?_, holdsRest⟩
  change (match work world with | (answer, world) => more answer world) = _
  rw [run]
  exact runRest

theorem Leaves.pure {value : α} (holds : after value world.tree) :
    Leaves (Pure.pure value) world after :=
  ⟨value, world.tree, rfl, holds⟩

theorem leaves_ask {α : Type} (question : FileTree → Except HostError α) :
    Leaves (ask question) world fun answer tree =>
      answer = question world.tree ∧ tree = world.tree :=
  ⟨question world.tree, world.tree, rfl, rfl, rfl⟩

/-- A change is made as a whole or not at all. -/
theorem leaves_change (step : FileTree → Except HostError FileTree) :
    Leaves (change step) world fun answer tree =>
      (answer = .ok () ∧ step world.tree = .ok tree) ∨
        ∃ error, answer = .error error ∧ step world.tree = .error error ∧ tree = world.tree := by
  rw [Leaves]
  cases done : step world.tree with
  | ok tree => exact ⟨.ok (), tree, by simp [change, done], .inl ⟨rfl, rfl⟩⟩
  | error error =>
      exact ⟨.error error, world.tree, by simp [change, done], .inr ⟨error, rfl, rfl, rfl⟩⟩

theorem leaves_ownProcess : Leaves Host.ownProcess world fun answer tree =>
    answer = world.ownProcess ∧ tree = world.tree :=
  ⟨world.ownProcess, world.tree, rfl, rfl, rfl⟩

theorem leaves_isRunning (process : Nat) : Leaves (Host.isRunning process) world
    fun answer tree => answer = world.isRunning process ∧ tree = world.tree :=
  ⟨world.isRunning process, world.tree, rfl, rfl, rfl⟩

theorem leaves_isFolder (path : String) :
    Leaves (Files.isFolder path) world fun answer tree => tree = world.tree ∧
      (answer = true ↔ ∃ place, world.tree.find path = .ok (place, .folder)) := by
  refine (leaves_ask _).bind fun found tree asked => ?_
  obtain ⟨rfl, rfl⟩ := asked
  refine .pure ⟨rfl, ?_⟩
  rw [foundAt]
  cases found : world.tree.find path with
  | error _ => exact ⟨nofun, fun ⟨_, isFound⟩ => nomatch isFound⟩
  | ok there =>
      obtain ⟨place, entry⟩ := there
      cases entry with
      | folder => exact ⟨fun _ => ⟨place, rfl⟩, fun _ => rfl⟩
      | file _ => exact ⟨nofun, fun ⟨_, isFound⟩ => nomatch isFound⟩

theorem leaves_unlessThere (path : String) (error : HostError) :
    Leaves (Files.unlessThere path error) world fun answer tree => tree = world.tree ∧
      ((∃ place, world.tree.find path = .ok (place, .folder)) → answer = .ok ()) := by
  refine (leaves_isFolder path).bind fun answer tree asked => ?_
  obtain ⟨rfl, isFolder⟩ := asked
  cases answer with
  | true => exact .pure ⟨rfl, fun _ => rfl⟩
  | false => exact .pure ⟨rfl, fun there => nomatch isFolder.mpr there⟩

/-- What each of several computations keeps is kept by all of them, and what one of them does
stays done if the others do not undo it. -/
theorem leaves_mapM {γ : Type} {items : List γ} {step : γ → StateM World α}
    {keeps : FileTree → Prop} {done : γ → FileTree → Prop} (holds : keeps world.tree)
    (each : ∀ item ∈ items, ∀ world : World, keeps world.tree →
      Leaves (step item) world fun _ tree => keeps tree ∧ done item tree ∧
        ∀ other, done other world.tree → done other tree) :
    Leaves (items.mapM step) world fun _ tree => keeps tree ∧ (∀ item ∈ items, done item tree) ∧
      ∀ other, done other world.tree → done other tree := by
  induction items generalizing world with
  | nil => exact .pure ⟨holds, nofun, fun _ isDone => isDone⟩
  | cons item rest inductionHypothesis =>
      rw [List.mapM_cons]
      refine (each item (.head _) world holds).bind fun value tree stepped => ?_
      obtain ⟨kept, isDone, stays⟩ := stepped
      refine (inductionHypothesis kept fun other isIn => each other (.tail _ isIn)).bind
        fun values final stepped => ?_
      obtain ⟨keptRest, doneRest, staysRest⟩ := stepped
      refine .pure ⟨keptRest, ?_, fun other isOther => staysRest other (stays other isOther)⟩
      rintro other (_ | ⟨_, isIn⟩)
      · exact staysRest item isDone
      · exact doneRest other isIn

theorem leaves_mapM_keeps {γ : Type} {items : List γ} {step : γ → StateM World α}
    {keeps : FileTree → Prop} (holds : keeps world.tree)
    (each : ∀ item ∈ items, ∀ world : World, keeps world.tree →
      Leaves (step item) world fun _ tree => keeps tree) :
    Leaves (items.mapM step) world fun _ tree => keeps tree := by
  have eachDone (item : γ) (isIn : item ∈ items) (world : World) (kept : keeps world.tree) :
      Leaves (step item) world fun _ tree => keeps tree ∧ True ∧ ∀ _ : γ, True → True :=
    (each item isIn world kept).mono fun _ _ kept => ⟨kept, trivial, fun _ _ => trivial⟩
  exact (leaves_mapM holds eachDone).mono fun _ _ made => made.1

end World

namespace FileTree

variable {may wider : List String → Prop} {first before middle after : FileTree}
  {place root : List String} {path : String}

/-- Folders are made at some places where nothing was, and nothing else changes. -/
structure Widens (may : List String → Prop) (before after : FileTree) : Prop where
  home : after.home = before.home
  entry (place : List String) : after.get? place = before.get? place ∨
    may place ∧ before.get? place = none ∧ after.get? place = some .folder

namespace Widens

theorem refl (tree : FileTree) : tree.Widens may tree := ⟨rfl, fun _ => .inl rfl⟩

theorem mono (widens : before.Widens may after) (wide : ∀ place, may place → wider place) :
    before.Widens wider after :=
  ⟨widens.home, fun place => (widens.entry place).imp_right fun made => ⟨wide place made.1, made.2⟩⟩

theorem folder (widens : before.Widens may after) (place : List String)
    (there : before.get? place = some .folder) : after.get? place = some .folder := by
  rcases widens.entry place with same | ⟨-, -, isFolder⟩
  · exact same.trans there
  · exact isFolder

theorem file (widens : before.Widens may after) {text : String} :
    after.get? place = some (.file text) ↔ before.get? place = some (.file text) := by
  rcases widens.entry place with same | ⟨-, vacant, isFolder⟩
  · rw [same]
  · simp [vacant, isFolder]

theorem elsewhere (widens : before.Widens may after) (place : List String)
    (outside : ¬ may place) : after.get? place = before.get? place :=
  (widens.entry place).resolve_right fun made => outside made.1

theorem trans (left : first.Widens may middle) (right : middle.Widens may after) :
    first.Widens may after := by
  refine ⟨right.home.trans left.home, fun place => ?_⟩
  rcases right.entry place with same | ⟨inside, vacant, isFolder⟩
  · rw [same]
    exact left.entry place
  · rcases left.entry place with same | ⟨-, -, there⟩
    · exact .inr ⟨inside, same.symm.trans vacant, isFolder⟩
    · cases vacant.symm.trans there

theorem put (widens : first.Widens may before) (vacant : before.get? place = none)
    (inside : may place) : first.Widens may (before.put place .folder) := by
  have notFolder : before.get? place ≠ some .folder := by simp [vacant]
  refine widens.trans ⟨rfl, fun other => ?_⟩
  rw [get?_put (ne_nil_of_not_folder notFolder)]
  split
  · rename_i isPlace
    exact .inr ⟨isPlace ▸ inside, isPlace ▸ vacant, rfl⟩
  · exact .inl rfl

end Widens

/-- Folders and files that hold something stay, and what is elsewhere stays as it is. -/
structure Grows (may : List String → Prop) (before after : FileTree) : Prop where
  home : after.home = before.home
  folder (place : List String) (there : before.get? place = some .folder) :
    after.get? place = some .folder
  file (place : List String) (text : String) (there : before.get? place = some (.file text))
    (filled : text ≠ "") : after.get? place = some (.file text)
  elsewhere (place : List String) (outside : ¬ may place) : after.get? place = before.get? place

namespace Grows

theorem refl (tree : FileTree) : tree.Grows may tree :=
  ⟨rfl, fun _ there => there, fun _ _ there _ => there, fun _ _ => rfl⟩

theorem trans (left : first.Grows may middle) (right : middle.Grows may after) :
    first.Grows may after where
  home := right.home.trans left.home
  folder place there := right.folder place (left.folder place there)
  file place text there filled := right.file place text (left.file place text there filled) filled
  elsewhere place outside := (right.elsewhere place outside).trans (left.elsewhere place outside)

/-- Something is put where neither a folder is nor a file that was to stay. -/
theorem put (grows : first.Grows may before) (inside : may place) (entry : Entry)
    (notFolder : before.get? place ≠ some .folder)
    (loose : ∀ text, first.get? place = some (.file text) → text = "") :
    first.Grows may (before.put place entry) := by
  have filled := ne_nil_of_not_folder notFolder
  refine ⟨grows.home, fun other there => ?_, fun other text there isFilled => ?_,
    fun other outside => ?_⟩
  · exact folder_put notFolder entry (grows.folder other there)
  · rw [get?_put filled, if_neg (by rintro rfl; exact isFilled (loose text there))]
    exact grows.file other text there isFilled
  · rw [get?_put filled, if_neg (by rintro rfl; exact outside inside)]
    exact grows.elsewhere other outside

end Grows

theorem Widens.grows (widens : before.Widens may after) : before.Grows may after :=
  ⟨widens.home, widens.folder, fun _ _ there _ => widens.file.mpr there, widens.elsewhere⟩

/-- Folders stay folders, and files stay files. -/
structure Steady (before after : FileTree) : Prop where
  home : after.home = before.home
  folder (place : List String) (there : before.get? place = some .folder) :
    after.get? place = some .folder
  file (place : List String) (text : String) (there : before.get? place = some (.file text)) :
    ∃ newer, after.get? place = some (.file newer)

namespace Steady

theorem refl (tree : FileTree) : tree.Steady tree :=
  ⟨rfl, fun _ there => there, fun _ text there => ⟨text, there⟩⟩

theorem trans (left : first.Steady middle) (right : middle.Steady after) : first.Steady after := by
  refine ⟨right.home.trans left.home, fun place there => right.folder place (left.folder place there),
    fun place text there => ?_⟩
  obtain ⟨newer, isNewer⟩ := left.file place text there
  exact right.file place newer isNewer

theorem put (notFolder : before.get? place ≠ some .folder) (text : String) :
    before.Steady (before.put place (.file text)) := by
  refine ⟨rfl, fun other there => folder_put notFolder _ there, fun other older there => ?_⟩
  rw [get?_put (ne_nil_of_not_folder notFolder)]
  split
  · exact ⟨text, rfl⟩
  · exact ⟨older, there⟩

end Steady

theorem Widens.steady (widens : before.Widens may after) : before.Steady after :=
  ⟨widens.home, widens.folder, fun _ text there => ⟨text, widens.file.mpr there⟩⟩

/-- A path leads where it led if folders stay. -/
theorem Leads.mono (leads : before.Leads path place) (home : after.home = before.home)
    (folders : ∀ place, before.get? place = some .folder → after.get? place = some .folder) :
    after.Leads path place := by
  have isStart : after.start path = before.start path := by rw [start, start, home]
  rw [Leads, isStart]
  exact walk_mono folders leads

/-- A path names what it named if folders stay. -/
theorem locateNew_mono (home : after.home = before.home)
    (folders : ∀ place, before.get? place = some .folder → after.get? place = some .folder)
    (located : before.locateNew path = .ok place) : after.locateNew path = .ok place := by
  unfold locateNew at located ⊢
  dsimp only at located ⊢
  generalize (if (Path.trimSlashes path).isEmpty then path else Path.trimSlashes path) = trimmed
    at located ⊢
  rw [locate] at located ⊢
  by_cases filled : trimmed.isEmpty = true
  · rw [if_pos filled] at located
    cases located
  · rw [if_neg filled] at located ⊢
    rw [home]
    exact walk_mono folders located

/-! ## Folders with those around them -/

/-- One folder is made where nothing was, or none. -/
theorem leaves_makeFolder {world : World} (widens : first.Widens may world.tree)
    (inside : ∀ place, world.tree.Leads path place → world.tree.get? place = none → may place) :
    World.Leaves (Host.makeFolder path) world fun _ after => first.Widens may after := by
  refine (World.leaves_change _).mono fun answer after made => ?_
  rcases made with ⟨-, made⟩ | ⟨error, -, -, rfl⟩
  · obtain ⟨place, leads, vacant, rfl⟩ := exists_of_makeFolder made
    exact widens.put vacant (inside place leads vacant)
  · exact widens

/-- Making a chain of folders makes folders where the paths of the chain lead and nothing was. -/
theorem leaves_makeChain {chain : List String} {world : World}
    (widens : first.Widens may world.tree)
    (inside : ∀ path ∈ chain, ∀ tree, first.Widens may tree → ∀ place, tree.Leads path place →
      tree.get? place = none → may place) :
    World.Leaves (Files.makeChain chain) world fun _ after => first.Widens may after := by
  induction chain generalizing world with
  | nil => exact .pure widens
  | cons path around inductionHypothesis =>
      unfold Files.makeChain
      refine (leaves_makeFolder widens (inside path (.head _) _ widens)).bind
        fun answer tree widened => ?_
      have refused (error : HostError) : World.Leaves (Files.unlessThere path error)
          { world with tree } fun _ after => first.Widens may after :=
        (World.leaves_unlessThere path error).mono fun _ _ same => same.1 ▸ widened
      cases answer with
      | ok _ => exact .pure widened
      | error error =>
          cases error with
          | notFound =>
              refine (inductionHypothesis widened fun other isIn => inside other (.tail _ isIn)).bind
                fun answer tree widened => ?_
              cases answer with
              | error _ => exact .pure widened
              | ok _ =>
                  refine (leaves_makeFolder widened (inside path (.head _) _ widened)).bind
                    fun answer tree widened => ?_
                  cases answer with
                  | ok _ => exact .pure widened
                  | error error =>
                      exact (World.leaves_unlessThere path error).mono fun _ _ same =>
                        same.1 ▸ widened
          | busy | alreadyThere | notFolder | isFolder | denied | notText | other =>
              exact refused _

/-- Whatever a path is like, no folder and no file goes when folders are made along it. -/
theorem leaves_makeFolders_steady (path : String) {world : World} :
    World.Leaves (Files.makeFolders path) world fun _ after => world.tree.Steady after :=
  have widens : World.Leaves (Files.makeFolders path) world fun _ after =>
      world.tree.Widens (fun _ => True) after :=
    leaves_makeChain (.refl _) fun _ _ _ _ _ _ _ => trivial
  widens.mono fun _ _ widens => widens.steady

theorem leaves_place_steady (path text : String) {world : World} :
    World.Leaves (Files.place path text) world fun _ after => world.tree.Steady after := by
  refine (leaves_makeFolders_steady _).bind fun answer tree steady => ?_
  cases answer with
  | error _ => exact .pure steady
  | ok _ =>
      refine (World.leaves_change _).mono fun _ after replaced => ?_
      rcases replaced with ⟨-, replaced⟩ | ⟨_, -, -, rfl⟩
      · obtain ⟨place, -, notFolder, -, rfl⟩ := exists_of_replace replaced
        exact steady.trans (.put notFolder text)
      · exact steady

end FileTree

namespace Path

theorem namedParent?_getD {path parent : String} (isParent : parent? path = some parent) :
    (namedParent? path).getD "." = if parent = "" then "." else parent := by
  rw [namedParent?, isParent]
  by_cases isStart : parent = "" <;> simp [Option.filter, isStart]

/-- A path goes on from a folder by some names. -/
structure GoesOn (folder : String) (names : List String) (path : String) : Prop where
  isAbsolute_eq : isAbsolute path = isAbsolute folder
  steps_eq : steps path = steps folder ++ names

/-- The path of the folder that a path starts at. -/
def origin (path : String) : String := if isAbsolute path then "/" else "."

theorem goesOn_origin (path : String) : GoesOn (origin path) (steps path) path := by
  cases begins : isAbsolute path with
  | true =>
      have isTop : origin path = "/" := if_pos begins
      exact ⟨by rw [isTop, begins]; rfl, by rw [isTop]; rfl⟩
  | false =>
      have isHome : origin path = "." := if_neg (by simp [begins])
      exact ⟨by rw [isHome, begins]; rfl, by rw [isHome]; rfl⟩

/-- A path that never goes back out of a folder. -/
def Direct (path : String) : Prop := ".." ∉ steps path

/-- A path goes on from each folder around it. -/
theorem goesOn_of_mem_ancestors {fuel : Nat} {path around : String}
    (isAround : around ∈ ancestors fuel path) : ∃ last, GoesOn around last path := by
  induction fuel generalizing path with
  | zero => cases isAround
  | succ fuel inductionHypothesis =>
      have itself : ∃ last, GoesOn path last path := ⟨[], rfl, by simp⟩
      unfold ancestors at isAround
      split at isAround
      · cases isAround
      · split at isAround
        · rename_i parent isParent
          rcases List.mem_cons.mp isAround with rfl | isAround
          · exact itself
          · obtain ⟨last, goesOn⟩ := inductionHypothesis isAround
            rcases steps_of_parent? isParent with ⟨rfl, -⟩ | ⟨-, isAbsolute, more, -, isPath, -⟩
            · cases fuel <;> simp [ancestors] at isAround
            · exact ⟨last ++ more, isAbsolute.symm.trans goesOn.isAbsolute_eq,
                by rw [isPath, goesOn.steps_eq, List.append_assoc]⟩
        · rw [List.mem_singleton] at isAround
          exact isAround ▸ itself

/-- The folder that a path names something in goes on by all names but the last, or it is where
relative paths start. -/
theorem GoesOn.parent {folder path parent : String} {names : List String}
    (goesOn : GoesOn folder names path) (filled : names ≠ [])
    (isParent : parent? path = some parent) :
    ∃ front last, names = front ++ last ∧ last.length = 1 ∧
      GoesOn folder front (if parent = "" then "." else parent) := by
  have namesLength := List.length_pos_iff.mpr filled
  rcases steps_of_parent? isParent with
    ⟨rfl, relative, short⟩ | ⟨notStart, isAbsolute, last, short, isPath, speaks⟩
  · rw [goesOn.steps_eq, List.length_append] at short
    have noSteps : steps folder = [] := List.length_eq_zero_iff.mp (by omega)
    refine ⟨[], names, rfl, by omega, ?_, ?_⟩
    · rw [← goesOn.isAbsolute_eq, relative]
      rfl
    · rw [noSteps]
      rfl
  · rw [if_neg notStart]
    have isAbsolute := isAbsolute.trans goesOn.isAbsolute_eq
    have lastFilled : last ≠ [] := fun isNil =>
      filled (List.append_eq_nil_iff.mp (goesOn.steps_eq.symm.trans (speaks isNil))).2
    have lastLength := List.length_pos_iff.mpr lastFilled
    rcases List.append_eq_append_iff.mp (goesOn.steps_eq.symm.trans isPath) with
      ⟨front, isFront, isNames⟩ | ⟨front, isFront, isLast⟩
    · exact ⟨front, last, isNames, by omega, isAbsolute, isFront⟩
    · rw [isLast, List.length_append] at short
      obtain rfl : front = [] := List.length_eq_zero_iff.mp (by omega)
      exact ⟨[], names, rfl, by omega, isAbsolute, by simpa using isFront.symm⟩

/-- The folder around does not end in a part that says nothing, unless nothing else is left. -/
theorem GoesOn.speaks_parent {folder path parent : String} {front : List String}
    (goesOn : GoesOn folder front (if parent = "" then "." else parent))
    (isParent : parent? path = some parent) :
    ¬ EndsBlank (trimSlashes (if parent = "" then "." else parent)) ∨ front = [] := by
  have ends : ¬ EndsBlank (if parent = "" then "." else parent) ∨
      steps (if parent = "" then "." else parent) = [] := by
    split
    · exact .inr stepsOf_dot
    · exact endsBlank_of_parent? isParent
  rcases ends with speaks | isNil
  · rw [trimSlashes_of_endsInSlash (endsInSlash_of_speaks speaks)]
    exact .inl speaks
  · exact .inr (List.append_eq_nil_iff.mp (goesOn.steps_eq.symm.trans isNil)).2

end Path

namespace FileTree

variable {may : List String → Prop} {before after : FileTree} {place root : List String}
  {path : String}

/-- A project folder that is in a tree. -/
structure Roots (project : String) (root : List String) (tree : FileTree) : Prop where
  leads : tree.Leads project root
  folder : tree.get? root = some .folder

/-- The places on the way from a folder to something inside it. -/
def Between (root names place : List String) : Prop :=
  ∃ inner last, inner ≠ [] ∧ names = inner ++ last ∧ place = root ++ inner

theorem Between.append {front : List String} (between : Between root front place)
    (last : List String) : Between root (front ++ last) place := by
  obtain ⟨inner, rest, filled, rfl, rfl⟩ := between
  exact ⟨inner, rest ++ last, filled, List.append_assoc .., rfl⟩

section Rooted

variable {tree : FileTree} {project : String} {names target : List String} {text : String}

theorem roots_of_find (found : tree.find project = .ok (root, .folder)) :
    tree.Roots project root := by
  obtain ⟨-, leads, folder, -⟩ := find_eq_ok_iff.mp found
  exact ⟨leads, folder⟩

theorem Roots.find (roots : tree.Roots project root) (filled : project ≠ "") :
    tree.find project = .ok (root, .folder) :=
  find_eq_ok_iff.mpr ⟨filled, roots.leads, roots.folder, fun _ => rfl⟩

theorem Roots.mono (roots : before.Roots project root) (home : after.home = before.home)
    (folders : ∀ place, before.get? place = some .folder → after.get? place = some .folder) :
    after.Roots project root :=
  ⟨roots.leads.mono home folders, folders _ roots.folder⟩

theorem Roots.widens (roots : before.Roots project root) (widens : before.Widens may after) :
    after.Roots project root :=
  roots.mono widens.home widens.folder

theorem Roots.grows (roots : before.Roots project root) (grows : before.Grows may after) :
    after.Roots project root :=
  roots.mono grows.home grows.folder

variable (roots : tree.Roots project root) (inward : Inward names)
  (goesOn : Path.GoesOn project names path)

include roots goesOn

/-- A path is walked on from the project by its names. -/
theorem Roots.walk_eq : tree.walk (tree.start path) (Path.steps path) = tree.walk root names := by
  have isStart : tree.start path = tree.start project := by
    rw [start, start, goesOn.isAbsolute_eq]
  have reaches : tree.walk (tree.start project) (Path.steps project) = .ok root := roots.leads
  rw [isStart, goesOn.steps_eq, walk_append, reaches, Except.ok_bind]

omit goesOn in
/-- A path that says what the path of a project says leads to the project. -/
theorem Roots.onwards_nil (goesOn : Path.GoesOn project [] path) : tree.Roots path root :=
  ⟨roots.walk_eq goesOn, roots.folder⟩

include inward

theorem Roots.leads_iff : tree.Leads path target ↔ target = root ++ names ∧
    ∀ inner last, names = inner ++ last → last ≠ [] →
      tree.get? (root ++ inner) = some .folder := by
  rw [Leads, roots.walk_eq goesOn]
  exact walk_inward inward

/-- Nothing is missing around a project that is there, and what is missing inside it is on the
way to the end of a path. -/
theorem Roots.between_of_vacant {fuel : Nat} {around : String}
    (isAround : around ∈ Path.ancestors fuel path) (leads : tree.Leads around target)
    (vacant : tree.get? target = none) : Between root names target := by
  obtain ⟨last, onwards⟩ := Path.goesOn_of_mem_ancestors isAround
  rcases List.append_eq_append_iff.mp (onwards.steps_eq.symm.trans goesOn.steps_eq) with
    ⟨middle, isProject, -⟩ | ⟨front, isAround, isNames⟩
  · -- the walk to the project goes on from here, so that a folder is here
    have outwards : Path.GoesOn around middle project :=
      ⟨goesOn.isAbsolute_eq.symm.trans onwards.isAbsolute_eq, isProject⟩
    have walks : tree.walk target middle = .ok root := by
      have reaches := roots.leads
      have isStart : tree.start project = tree.start around := by
        rw [start, start, outwards.isAbsolute_eq]
      rwa [Leads, isStart, isProject, walk_append, leads, Except.ok_bind] at reaches
    cases vacant.symm.trans (folder_of_walk roots.folder walks)
  · subst isNames
    have inwards : Path.GoesOn project front around :=
      ⟨onwards.isAbsolute_eq.symm.trans goesOn.isAbsolute_eq, isAround⟩
    obtain ⟨rfl, -⟩ := (roots.leads_iff inward.of_append inwards).mp leads
    refine ⟨front, last, ?_, rfl, rfl⟩
    rintro rfl
    rw [List.append_nil, roots.folder] at vacant
    cases vacant

end Rooted

theorem inward_of_direct (direct : Path.Direct path) : Inward (Path.steps path) := by
  intro name isIn
  refine ⟨fun isBlank => ?_, fun isUp => direct (isUp ▸ isIn)⟩
  rw [Path.steps_eq, List.mem_filter] at isIn
  simp [isBlank] at isIn

theorem roots_origin {tree : FileTree} (home : tree.get? tree.home = some .folder)
    (path : String) : tree.Roots (Path.origin path) (tree.start path) := by
  rw [Path.origin, start]
  split
  · exact ⟨rfl, rfl⟩
  · exact ⟨rfl, home⟩

section Outcome

variable {project : String} {names : List String} {text : String} {world : World}
  (roots : world.tree.Roots project root) (inward : Inward names)

include roots inward

/-- A folder is made with those around it on the way from a folder that is there. -/
theorem leaves_makeAncestors (fuel : Nat)
    (goesOn : path ≠ "" → Path.GoesOn project names path) :
    World.Leaves (Files.makeChain (Path.ancestors fuel path)) world fun _ after =>
      world.tree.Widens (Between root names) after := by
  refine leaves_makeChain (.refl _) fun around isAround tree widens place leads vacant => ?_
  have filled : path ≠ "" := by
    rintro rfl
    cases fuel <;> simp [Path.ancestors] at isAround
  exact (roots.widens widens).between_of_vacant inward (goesOn filled) isAround leads vacant

/-- The folder for a file and the file are made. The file is put where no folder is. -/
theorem leaves_place (named : names ≠ []) (goesOn : Path.GoesOn project names path)
    (ends : Path.endsInSlash path = false) (text : String) :
    World.Leaves (Files.place path text) world fun _ after => ∃ middle,
      world.tree.Widens (Between root names) middle ∧
        (after = middle ∨ middle.get? (root ++ names) ≠ some .folder ∧
          ¬ Path.EndsBlank path ∧ after = middle.put (root ++ names) (.file text)) := by
  have around : World.Leaves (Files.makeFolders ((Path.namedParent? path).getD ".")) world
      fun _ after => world.tree.Widens (Between root names) after := by
    cases isParent : Path.parent? path with
    | none =>
        have noSteps := goesOn.steps_eq ▸ Path.steps_of_parent?_eq_none isParent
        exact absurd (List.append_eq_nil_iff.mp noSteps).2 named
    | some parent =>
        obtain ⟨front, last, rfl, -, onwards⟩ := goesOn.parent named isParent
        rw [Path.namedParent?_getD isParent]
        exact (leaves_makeAncestors roots inward.of_append _ fun _ => onwards).mono
          fun _ _ widens => widens.mono fun place between => between.append last
  refine around.bind fun answer middle widens => ?_
  cases answer with
  | error _ => exact .pure ⟨middle, widens, .inl rfl⟩
  | ok _ =>
      refine (World.leaves_change _).mono fun _ after replaced => ⟨middle, widens, ?_⟩
      rcases replaced with ⟨-, replaced⟩ | ⟨_, -, -, isMiddle⟩
      · obtain ⟨place, leads, notFolder, speaks, rfl⟩ := exists_of_replace replaced
        obtain ⟨rfl, -⟩ := ((roots.widens widens).leads_iff inward goesOn).mp leads
        exact .inr ⟨notFolder, speaks ends, rfl⟩
      · exact .inl isMiddle

end Outcome

end FileTree

end StopMotion
