import StopMotion.CommandLine.Run
import StopMotion.Proofs.Disk.Interleaving
import StopMotion.Proofs.Disk.Growth
import StopMotion.Proofs.Transpile

/-!
# Batches

The artifacts of a folder are transpiled side by side, each written to a file of its own name. Two
artifacts of one name share that file, and an output folder that is the folder of the artifacts may
have one of them at the place of an output. Where neither is so, the order in which the workers get
on does not matter: each has the result that its artifact alone decides, every component is in its
file, and nothing else is touched.

The type checker is left out: it runs another program, which may do anything to the machine.
-/

namespace StopMotion.Path

/-- The stem of a name is a name. -/
theorem slashless_stem {path stem : String} (isStem : stem? path = some stem) :
    '/' ∉ stem.toList := by
  obtain ⟨name, isName, rfl⟩ := Option.map_eq_some_iff.mp isStem
  have slashless : '/' ∉ name.toList := by
    unfold name? at isName
    dsimp only at isName
    split at isName
    · cases isName
    · cases isName
      rw [String.toList_ofList]
      exact slashless_takeWhile _
  unfold splitName
  dsimp only
  split
  · rename_i dot c before isDropped
    rw [String.toList_ofList, List.mem_reverse]
    intro inside
    have inName := List.mem_of_mem_drop (isDropped ▸ List.mem_cons_of_mem dot inside)
    exact slashless (List.mem_reverse.mp inName)
  · exact slashless

end StopMotion.Path

namespace StopMotion.CommandLine

open Syntax Validation Checker

/-! ## One artifact -/

/-- What becomes of an artifact if the checker is not asked. -/
def verdict (settings : Settings) (artifact : Artifact) : Except Rejection Transpiled :=
  transpile (m := Id) (fun _ => .ok []) settings.framesPerSecond artifact

/-- An artifact of a folder: the path to it, its text and its place, and the place of the file for
its component. -/
structure Job where
  path : String
  text : String
  source : List String
  target : List String

namespace Job

/-- The artifact in the file. -/
def artifact (job : Job) : Artifact := ⟨job.text, (Path.stem? job.path).getD "artifact"⟩

/-- The result that an artifact has if its component can be written. -/
def result (settings : Settings) (job : Job) : BatchResult :=
  match verdict settings job.artifact with
  | .error rejection => .rejected rejection
  | .ok _ => .transpiled

end Job

variable {settings : Settings} {out : String}

section

variable {m : Type → Type} [Monad m] [Host m]

/-- What a worker does with the component of its artifact. -/
def writing (out : String) (artifact : Artifact) (transpiled : Transpiled) : m BatchResult := do
  match ← writeTo (batchTarget out artifact) transpiled.text with
  | .error fault => return .failed fault
  | .ok () => return .transpiled

/-- What a worker does with what it reads. -/
def afterReading (settings : Settings) (out path : String) :
    Except HostError String → m BatchResult
  | .error error => pure (.failed (.artifact path (.unreadable path error)))
  | .ok text =>
    let artifact : Artifact := ⟨text, (Path.stem? path).getD "artifact"⟩
    match verdict settings artifact with
    | .error rejection => pure (.rejected rejection)
    | .ok transpiled => writing out artifact transpiled

variable [LawfulMonad m]

omit [Host m] in
/-- Where the checker is not asked, a validation makes no calls. -/
theorem validate_silent (text identifier : String) :
    validate (fun _ => (pure (.ok []) : m Verdict)) text identifier =
      pure (validate (m := Id) (fun _ => .ok []) text identifier) := by
  cases read : parse text.toList with
  | error error =>
      rw [validate_of_error read, validate_of_error read]
      rfl
  | ok module =>
      rw [validate_of_ok read, validate_of_ok read, pure_bind]
      rfl

/-- Nor does transpiling. -/
theorem transpile_unchecked (unchecked : settings.checks = false) (artifact : Artifact) :
    transpile (settings.check none) settings.framesPerSecond artifact =
      (pure (verdict settings artifact) : m (Except Rejection Transpiled)) := by
  have silent : (settings.check none : String → m Verdict) = fun _ => pure (.ok []) := by
    funext text
    rw [Settings.check, unchecked]
    rfl
  rw [silent, verdict]
  cases read : parse (Repair.repair artifact.text.toList).text with
  | error error =>
      rw [transpile_of_error read, transpile_of_error read, validate_silent, pure_bind]
      rfl
  | ok module =>
      rw [transpile_of_ok read, transpile_of_ok read, validate_silent, pure_bind]
      rfl

/-- A worker reads its artifact and goes on by what it finds. -/
theorem batchOne_eq (unchecked : settings.checks = false) (path : String) :
    batchOne settings out path =
      (Host.read path >>= afterReading settings out path : m BatchResult) := by
  unfold batchOne artifactAt readArtifact
  simp only [bind_assoc, pure_bind, transpile_unchecked unchecked]
  congr 1
  funext answer
  cases answer with
  | error error => rfl
  | ok text =>
      unfold afterReading
      dsimp only [Except.mapError]
      cases verdict settings ⟨text, (Path.stem? path).getD "artifact"⟩ with
      | error rejection => rfl
      | ok transpiled => rfl

end

theorem run_writeTo (path text : String) :
    (writeTo path text : Work (Except Fault Unit)).run = writeTo path text := by
  have written : (Host.write path text : Work (Except HostError Unit)).run =
      Host.write path text := Work.run_ofState _
  unfold writeTo
  rw [Work.run_bind, written]
  rfl

theorem run_writing (artifact : Artifact) (transpiled : Transpiled) :
    (writing out artifact transpiled : Work BatchResult).run =
      (writing out artifact transpiled : StateM World BatchResult) := by
  unfold writing
  rw [Work.run_bind, run_writeTo]
  apply bind_congr
  intro answer
  cases answer with
  | error fault => rfl
  | ok done => rfl

/-- A worker that is not disturbed does what the command does with one artifact. -/
theorem run_batchOne (unchecked : settings.checks = false) (path : String) :
    (batchOne settings out path : Work BatchResult).run =
      (batchOne settings out path : StateM World BatchResult) := by
  have read : (Host.read path : Work (Except HostError String)).run = Host.read path :=
    Work.run_ofState _
  rw [batchOne_eq unchecked, batchOne_eq unchecked, Work.run_bind, read]
  apply bind_congr
  intro answer
  unfold afterReading
  cases answer with
  | error error => rfl
  | ok text =>
      dsimp only
      cases verdict settings ⟨text, (Path.stem? path).getD "artifact"⟩ with
      | error rejection => rfl
      | ok transpiled => exact run_writing _ transpiled

/-! ## Workers side by side -/

/-- The files of the artifacts can be read, those of the components can be written, and they are
all apart. -/
structure Separate (out : String) (tree : FileTree) (jobs : List Job) : Prop where
  reads : ∀ job ∈ jobs, tree.find job.path = .ok (job.source, .file job.text)
  leads : ∀ job ∈ jobs, tree.locateNew (batchTarget out job.artifact) = .ok job.target
  free : ∀ job ∈ jobs, tree.get? job.target ≠ some .folder
  distinct : (jobs.map (·.target)).Nodup
  spared : ∀ job ∈ jobs, ∀ other ∈ jobs, job.target ≠ other.source

/-- The component of a job is in its file. -/
def Delivered (settings : Settings) (tree : FileTree) (job : Job) : Prop :=
  ∀ transpiled, verdict settings job.artifact = .ok transpiled →
    tree.get? job.target = some (.file transpiled.text)

/-- How far a worker has come with its job. -/
inductive Stage (settings : Settings) (out : String) (tree : FileTree) (job : Job) :
    Work BatchResult → Prop where
  | waiting {work} (isFirst : work = batchOne settings out job.path) : Stage settings out tree job work
  | holding {work} (transpiled : Transpiled)
      (accepted : verdict settings job.artifact = .ok transpiled)
      (isLast : work = writing out job.artifact transpiled) : Stage settings out tree job work
  | ended {work} (delivered : Delivered settings tree job)
      (isDone : work = .done (job.result settings)) : Stage settings out tree job work

/-- Where the workers stand: besides the files of accepted components the tree is as it was at the
start. -/
structure Underway (settings : Settings) (out : String) (start : FileTree) (jobs : List Job)
    (pool : Pool BatchResult) : Prop where
  home : pool.world.tree.home = start.home
  places : ∀ place, pool.world.tree.get? place = start.get? place ∨
    ∃ job ∈ jobs, job.target = place ∧ ∃ transpiled,
      verdict settings job.artifact = .ok transpiled ∧
        pool.world.tree.get? place = some (.file transpiled.text)
  stages : List.Forall₂ (Stage settings out pool.world.tree) jobs pool.works

variable {start : FileTree} {jobs : List Job} {pool : Pool BatchResult}

/-- The file of a component has an extension, so its path does not end in a slash. -/
theorem endsInSlash_batchTarget (out : String) (artifact : Artifact) :
    Path.endsInSlash (batchTarget out artifact) = false := by
  unfold batchTarget Path.join
  split_ifs
  · simp [Path.endsInSlash]
  · simp [Path.endsInSlash]
  · simp [Path.endsInSlash, List.getLast?_cons]

/-- The file for a component stands in the output folder. -/
theorem locateNew_batchTarget {tree : FileTree} {folder : List String}
    (isFolder : tree.find out = .ok (folder, .folder)) {artifact : Artifact}
    (slashless : '/' ∉ artifact.identifier.toList) :
    tree.locateNew (batchTarget out artifact) =
      .ok (folder ++ [artifact.identifier ++ ".tsx"]) := by
  have ends := endsInSlash_batchTarget out artifact
  unfold batchTarget at ends ⊢
  have long : 4 ≤ (artifact.identifier ++ ".tsx").toList.length := by
    simp
  have slashlessName : '/' ∉ (artifact.identifier ++ ".tsx").toList := by
    simpa using slashless
  generalize artifact.identifier ++ ".tsx" = name at ends long slashlessName ⊢
  have relative : Path.isAbsolute name = false := by
    apply beq_eq_false_iff_ne.mpr
    intro first
    exact slashlessName (List.mem_of_mem_head? first)
  have parts : Path.parts name = [name] := by
    rw [Path.parts, Path.split_of_slashless slashlessName, String.ofList_toList]
  have speaks : ¬ Path.isBlank name := by
    intro isBlank
    rcases Path.isBlank_iff.mp isBlank with rfl | rfl
    · exact absurd long (by decide)
    · exact absurd long (by decide)
  have notUp : name ≠ ".." := by
    rintro rfl
    exact absurd long (by decide)
  have speaksJoined : ¬ Path.EndsBlank (Path.join out name) := by
    rw [Path.endsBlank_join relative]
    rintro ⟨last, isLast, isBlank⟩
    rw [parts] at isLast
    cases isLast
    exact speaks isBlank
  have step : Path.steps name = [name] := by
    rw [Path.steps_eq, parts]
    simp [speaks]
  obtain ⟨-, leads, there, -⟩ := FileTree.find_eq_ok_iff.mp isFolder
  have isStart : tree.start (Path.join out name) = tree.start out := by
    rw [FileTree.start, FileTree.start, Path.isAbsolute_join relative]
  rw [FileTree.locateNew_eq (by rwa [Path.trimSlashes_of_endsInSlash ends]), isStart,
    Path.steps_join relative, FileTree.walk_append, leads, Except.ok_bind, step,
    FileTree.walk_step there speaks, FileTree.stepTo, if_neg notUp]
  rfl

theorem Job.slashless (job : Job) : '/' ∉ job.artifact.identifier.toList := by
  unfold Job.artifact
  cases isStem : Path.stem? job.path with
  | none =>
      change '/' ∉ "artifact".toList
      decide
  | some stem => exact Path.slashless_stem isStem

/-- The files of a batch are apart if the artifacts have names of their own and none of them stands
in the output folder. -/
theorem separate_of_names {tree : FileTree} {folder : List String} {jobs : List Job}
    (isFolder : tree.find out = .ok (folder, .folder))
    (reads : ∀ job ∈ jobs, tree.find job.path = .ok (job.source, .file job.text))
    (targets : ∀ job ∈ jobs, job.target = folder ++ [job.artifact.identifier ++ ".tsx"])
    (free : ∀ job ∈ jobs, tree.get? job.target ≠ some .folder)
    (named : (jobs.map (·.artifact.identifier)).Nodup)
    (outside : ∀ job ∈ jobs, job.source.dropLast ≠ folder) : Separate out tree jobs where
  reads := reads
  leads := by
    intro job isJob
    rw [targets job isJob]
    exact locateNew_batchTarget isFolder job.slashless
  free := free
  distinct := by
    rw [List.map_congr_left targets]
    have injective : Function.Injective fun identifier : String => folder ++ [identifier ++ ".tsx"] := by
      intro first second same
      simpa using same
    simpa [List.map_map, Function.comp_def] using named.map injective
  spared := by
    intro job isJob other isOther same
    apply outside other isOther
    rw [← same, targets job isJob, List.dropLast_concat]

/-- Artifacts that differ in their extensions alone have one name. -/
example : (⟨"in/x.jsx", "", [], []⟩ : Job).artifact.identifier =
    (⟨"in/x.ts", "", [], []⟩ : Job).artifact.identifier := by
  decide +kernel

namespace Underway

theorem folder (underway : Underway settings out start jobs pool)
    (separate : Separate out start jobs) (place : List String)
    (there : start.get? place = some .folder) : pool.world.tree.get? place = some .folder := by
  rcases underway.places place with same | ⟨job, isJob, rfl, -⟩
  · exact same.trans there
  · exact absurd there (separate.free job isJob)

/-- The artifacts are as they were. -/
theorem find (underway : Underway settings out start jobs pool)
    (separate : Separate out start jobs) {job : Job} (isJob : job ∈ jobs) :
    pool.world.tree.find job.path = .ok (job.source, .file job.text) := by
  obtain ⟨filled, leads, there, speaks⟩ := FileTree.find_eq_ok_iff.mp (separate.reads job isJob)
  apply FileTree.find_eq_ok_iff.mpr
  refine ⟨filled, leads.mono underway.home (underway.folder separate), ?_, speaks⟩
  rcases underway.places job.source with same | ⟨other, isOther, isSource, -⟩
  · exact same.trans there
  · exact absurd isSource (separate.spared other isOther job isJob)

theorem read (underway : Underway settings out start jobs pool)
    (separate : Separate out start jobs) {job : Job} (isJob : job ∈ jobs) :
    pool.world.tree.read job.path = .ok job.text := by
  rw [FileTree.read, underway.find separate isJob]
  rfl

/-- No folder comes to be where a component belongs. -/
theorem free (underway : Underway settings out start jobs pool)
    (separate : Separate out start jobs) {job : Job} (isJob : job ∈ jobs) :
    pool.world.tree.get? job.target ≠ some .folder := by
  rcases underway.places job.target with same | ⟨_, -, -, _, -, isFile⟩
  · rw [same]
    exact separate.free job isJob
  · rw [isFile]
    nofun

/-- The component of a job can be written. -/
theorem write (underway : Underway settings out start jobs pool)
    (separate : Separate out start jobs) {job : Job} (isJob : job ∈ jobs) (text : String) :
    pool.world.tree.write (batchTarget out job.artifact) text =
      .ok (pool.world.tree.put job.target (.file text)) := by
  have located : pool.world.tree.locateNew (batchTarget out job.artifact) = .ok job.target :=
    FileTree.locateNew_mono underway.home (underway.folder separate) (separate.leads job isJob)
  have notFolder := underway.free separate isJob
  rw [FileTree.write, located, Except.ok_bind, endsInSlash_batchTarget]
  cases there : pool.world.tree.get? job.target with
  | none => rfl
  | some entry =>
      cases entry with
      | folder => exact absurd there notFolder
      | file older => rfl

end Underway

/-- A worker that has read its artifact holds its component or has ended. -/
theorem stage_afterReading (tree : FileTree) (job : Job) :
    Stage settings out tree job (afterReading settings out job.path (.ok job.text)) := by
  have answered : (afterReading settings out job.path (.ok job.text) : Work BatchResult) =
      match verdict settings job.artifact with
      | .error rejection => pure (.rejected rejection)
      | .ok transpiled => writing out job.artifact transpiled := rfl
  rw [answered]
  cases isVerdict : verdict settings job.artifact with
  | error rejection =>
      apply Stage.ended
      · intro transpiled accepted
        rw [isVerdict] at accepted
        cases accepted
      · rw [Job.result, isVerdict]
        rfl
  | ok transpiled => exact .holding transpiled isVerdict rfl

/-- A worker does not notice what happens elsewhere than at its file. -/
theorem Stage.elsewhere {tree after : FileTree} {job : Job} {work : Work BatchResult}
    (stage : Stage settings out tree job work)
    (same : after.get? job.target = tree.get? job.target) : Stage settings out after job work := by
  cases stage with
  | waiting isFirst => exact .waiting isFirst
  | holding transpiled accepted isLast => exact .holding transpiled accepted isLast
  | ended delivered isDone =>
      apply Stage.ended _ isDone
      intro transpiled accepted
      rw [same]
      exact delivered transpiled accepted

/-- A worker that has ended has delivered. -/
theorem Stage.of_done {tree : FileTree} {job : Job} {result : BatchResult}
    (unchecked : settings.checks = false) (stage : Stage settings out tree job (.done result)) :
    Delivered settings tree job ∧ result = job.result settings := by
  cases stage with
  | waiting isFirst =>
      rw [batchOne_eq unchecked] at isFirst
      cases isFirst
  | holding transpiled accepted isLast => cases isLast
  | ended delivered isDone =>
      cases isDone
      exact ⟨delivered, rfl⟩

/-- A call of a worker: it reads its artifact, which leaves the machine as it is, or it writes its
component and ends. -/
theorem Stage.call {world : World} {job : Job} {change : World → World}
    {rest : World → Work BatchResult} (unchecked : settings.checks = false)
    (stage : Stage settings out world.tree job (.call change rest))
    (read : world.tree.read job.path = .ok job.text)
    (write : ∀ text, world.tree.write (batchTarget out job.artifact) text =
      .ok (world.tree.put job.target (.file text))) :
    (change world = world ∧ Stage settings out world.tree job (rest world)) ∨
      ∃ transpiled, verdict settings job.artifact = .ok transpiled ∧
        change world = { world with
          tree := world.tree.put job.target (.file transpiled.text) } ∧
        rest world = .done (job.result settings) := by
  cases stage with
  | waiting isFirst =>
      left
      rw [batchOne_eq unchecked] at isFirst
      obtain ⟨rfl, rfl⟩ := Work.call.inj isFirst
      constructor
      · rfl
      · change Stage settings out world.tree job
          (afterReading settings out job.path (world.tree.read job.path))
        rw [read]
        exact stage_afterReading world.tree job
  | holding transpiled accepted isLast =>
      right
      refine ⟨transpiled, accepted, ?_⟩
      have written := write transpiled.text
      have host : (Host.write (batchTarget out job.artifact) transpiled.text : StateM World _) world =
          (.ok (), { world with tree := world.tree.put job.target (.file transpiled.text) }) := by
        change World.change _ world = _
        unfold World.change
        dsimp only
        rw [written]
      obtain ⟨rfl, rfl⟩ := Work.call.inj isLast
      constructor
      · exact congrArg Prod.snd host
      · have isDone : job.result settings = .transpiled := by
          rw [Job.result, accepted]
        rw [isDone]
        beta_reduce
        rw [host]
        rfl
  | ended delivered isDone => cases isDone

/-- Where one of two lists that correspond is divided, so is the other. -/
theorem exists_divided {α β : Type} {related : α → β → Prop} {items : List α} {front back : List β}
    {middle : β} (all : List.Forall₂ related items (front ++ middle :: back)) :
    ∃ before item behind, items = before ++ item :: behind ∧ List.Forall₂ related before front ∧
      related item middle ∧ List.Forall₂ related behind back := by
  have first := List.forall₂_take_append items front (middle :: back) all
  have second := List.forall₂_drop_append items front (middle :: back) all
  obtain ⟨item, behind, isRelated, later, isDropped⟩ := List.forall₂_cons_right_iff.mp second
  refine ⟨_, item, behind, ?_, first, isRelated, later⟩
  rw [← isDropped, List.take_append_drop]

/-- Every call of a worker leads on. -/
theorem Underway.step (unchecked : settings.checks = false) (separate : Separate out start jobs)
    {after : Pool BatchResult} (underway : Underway settings out start jobs pool)
    (step : Pool.Step pool after) : Underway settings out start jobs after := by
  obtain ⟨change, rest⟩ := step
  rename_i world front back
  obtain ⟨before, job, behind, isJobs, stagesBefore, stage, stagesBehind⟩ :=
    exists_divided underway.stages
  have isJob : job ∈ jobs := isJobs ▸ List.mem_append_right before List.mem_cons_self
  have joined {tree : FileTree} {work : Work BatchResult}
      (first : List.Forall₂ (Stage settings out tree) before front)
      (next : Stage settings out tree job work)
      (later : List.Forall₂ (Stage settings out tree) behind back) :
      List.Forall₂ (Stage settings out tree) jobs (front ++ work :: back) := by
    rw [isJobs]
    exact List.rel_append first (.cons next later)
  rcases stage.call unchecked (underway.read separate isJob)
    (underway.write separate isJob) with ⟨same, next⟩ | ⟨transpiled, accepted, changed, isDone⟩
  · rw [same]
    exact ⟨underway.home, underway.places, joined stagesBefore next stagesBehind⟩
  · have filled := FileTree.ne_nil_of_not_folder (underway.free separate isJob)
    have others : ∀ other ∈ before ++ behind, other.target ≠ job.target := by
      have distinct := separate.distinct
      rw [isJobs, List.map_append, List.map_cons, List.nodup_middle, ← List.map_append] at distinct
      intro other isOther same
      exact (List.nodup_cons.mp distinct).1 (same ▸ List.mem_map_of_mem isOther)
    have elsewhere {some : List Job} {works : List (Work BatchResult)}
        (stages : List.Forall₂ (Stage settings out world.tree) some works)
        (inside : ∀ other ∈ some, other ∈ before ++ behind) :
        List.Forall₂ (Stage settings out
          (world.tree.put job.target (.file transpiled.text))) some works := by
      apply ((List.forall₂_and_left _ _).mpr ⟨inside, stages⟩).imp
      rintro other work ⟨isOther, stage⟩
      apply stage.elsewhere
      rw [FileTree.get?_put filled, if_neg (others other isOther)]
    rw [changed, isDone]
    constructor
    · exact underway.home
    · intro place
      dsimp only
      rw [FileTree.get?_put filled]
      split
      · rename_i isTarget
        exact .inr ⟨job, isJob, isTarget.symm, transpiled, accepted, rfl⟩
      · exact underway.places place
    · apply joined
      · exact elsewhere stagesBefore fun other => List.mem_append_left behind
      · apply Stage.ended _ rfl
        intro other isOther
        rw [accepted] at isOther
        cases isOther
        rw [FileTree.get?_put filled, if_pos rfl]
      · exact elsewhere stagesBehind fun other => List.mem_append_right before

/-- However the workers take turns, they stay underway. -/
theorem underway_of_runs (unchecked : settings.checks = false) {world : World}
    (separate : Separate out world.tree jobs) {later : Pool BatchResult}
    (runs : Pool.Runs ⟨world, jobs.map fun job => batchOne settings out job.path⟩ later) :
    Underway settings out world.tree jobs later := by
  apply Pool.Runs.holds runs
  · constructor
    · rfl
    · exact fun place => .inl rfl
    · apply List.forall₂_map_right_iff.mpr
      apply List.forall₂_same.mpr
      exact fun job isJob => .waiting rfl
  · exact fun before after underway step => underway.step unchecked separate step

/-- Where the files of a batch are apart, the order in which its workers get on does not matter: the
results are those of the single artifacts, every artifact is as it was, every component is in its
file, there is a file for each artifact that is counted, and nothing else is touched. -/
theorem batch_delivers (unchecked : settings.checks = false) {world : World}
    (separate : Separate out world.tree jobs) {later : Pool BatchResult}
    (runs : Pool.Runs ⟨world, jobs.map fun job => batchOne settings out job.path⟩ later)
    {results : List BatchResult} (ended : later.works = results.map .done) :
    let accepted := jobs.filter fun job => (job.result settings).isTranspiled
    results = jobs.map (·.result settings) ∧
      (∀ job ∈ jobs, later.world.tree.find job.path = .ok (job.source, .file job.text) ∧
        Delivered settings later.world.tree job) ∧
      (accepted.map (·.target)).Nodup ∧ accepted.length = results.countP (·.isTranspiled) ∧
      ∀ place, place ∉ accepted.map (·.target) →
        later.world.tree.get? place = world.tree.get? place := by
  intro accepted
  have underway := underway_of_runs unchecked separate runs
  have stages := underway.stages
  rw [ended, List.forall₂_map_right_iff] at stages
  have isResults : results = jobs.map (·.result settings) := by
    have same := stages.imp fun job result stage => (stage.of_done unchecked).2
    rw [← List.forall₂_eq_eq_eq, List.forall₂_map_right_iff]
    exact same.flip
  refine ⟨isResults, ?_, ?_, ?_, ?_⟩
  · intro job isJob
    rw [isResults, List.forall₂_map_right_iff, List.forall₂_same] at stages
    exact ⟨underway.find separate isJob, ((stages job isJob).of_done unchecked).1⟩
  · exact separate.distinct.sublist (List.filter_sublist.map _)
  · rw [isResults, List.countP_map, List.countP_eq_length_filter]
    rfl
  · intro place spared
    rcases underway.places place with same | ⟨job, isJob, rfl, transpiled, isAccepted, -⟩
    · exact same
    · have counted : (job.result settings).isTranspiled = true := by
        rw [Job.result, isAccepted]
        rfl
      exact absurd (List.mem_map_of_mem (List.mem_filter.mpr ⟨isJob, counted⟩)) spared

end StopMotion.CommandLine
