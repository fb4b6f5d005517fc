import Mathlib.Logic.Relation
import StopMotion.Disk.Tree

/-!
# Work side by side

A computation on a machine as the calls that it makes, one after the other. Several computations
can then share a machine: each call is made as a whole, but between two calls of one computation
the others may make any number of theirs.
-/

namespace StopMotion

/-- A computation on a machine: its value, or a call, and what follows it by what the machine was
like at the call. -/
inductive Work (α : Type) : Type where
  | done (value : α)
  | call (change : World → World) (rest : World → Work α)

namespace Work

variable {α β : Type}

/-- One computation after the other. -/
def bind : Work α → (α → Work β) → Work β
  | done value, more => more value
  | call change rest, more => call change fun world => (rest world).bind more

instance : Monad Work where
  pure := done
  bind := bind

instance : LawfulMonad Work := by
  apply LawfulMonad.mk' Work
  · intro α work
    change work.bind done = work
    induction work with
    | done value => rfl
    | call change rest inductionHypothesis => exact congrArg (call change) (funext inductionHypothesis)
  · intro α β value more
    rfl
  · intro α β γ work first second
    change (work.bind first).bind second = work.bind fun value => (first value).bind second
    induction work with
    | done value => rfl
    | call change rest inductionHypothesis => exact congrArg (call change) (funext inductionHypothesis)

/-- A single call. -/
def ofState (work : StateM World α) : Work α :=
  call (fun world => (work world).2) fun world => done (work world).1

instance : Host Work where
  look path := ofState (Host.look path)
  read path := ofState (Host.read path)
  list path := ofState (Host.list path)
  makeFolder path := ofState (Host.makeFolder path)
  write path text := ofState (Host.write path text)
  create path text := ofState (Host.create path text)
  replace path text := ofState (Host.replace path text)
  remove path := ofState (Host.remove path)
  makeScratch folder := ofState (Host.makeScratch folder)
  removeScratch path := ofState (Host.removeScratch path)
  isRunning process := ofState (Host.isRunning process)
  ownProcess := ofState Host.ownProcess
  run command := ofState (Host.run command)
  runFor limit command := ofState (Host.runFor limit command)

/-- A computation that is not interrupted. -/
def run : Work α → StateM World α
  | done value => pure value
  | call change rest => fun world => (rest world).run (change world)

theorem run_bind (work : Work α) (more : α → Work β) :
    (work >>= more).run = work.run >>= fun value => (more value).run := by
  induction work with
  | done value => rfl
  | call change rest inductionHypothesis =>
      funext world
      exact congrFun (inductionHypothesis world) (change world)

theorem run_ofState (work : StateM World α) : (ofState work).run = work := rfl

/-- A computation as the process with a number makes it. -/
def asProcess (number : Nat) : Work α → Work α
  | done value => done value
  | call change rest =>
    call
      (fun world => { change { world with ownProcess := number } with
        ownProcess := world.ownProcess })
      fun world => (rest { world with ownProcess := number }).asProcess number

theorem asProcess_bind (number : Nat) (work : Work α) (more : α → Work β) :
    (work >>= more).asProcess number =
      work.asProcess number >>= fun value => (more value).asProcess number := by
  induction work with
  | done value => rfl
  | call change rest inductionHypothesis =>
      exact congrArg (call _) (funext fun world => inductionHypothesis { world with
        ownProcess := number })

/-- Left alone on a machine, a computation comes to another by calls that change nothing. -/
inductive Idles (world : World) : Work α → Work α → Prop where
  | refl {work : Work α} : Idles world work work
  | call {change : World → World} {rest : World → Work α} {later : Work α}
      (same : change world = world) (onwards : Idles world (rest world) later) :
      Idles world (.call change rest) later

namespace Idles

variable {world : World}

theorem trans {work middle later : Work α} (first : Idles world work middle)
    (second : Idles world middle later) : Idles world work later := by
  induction first with
  | refl => exact second
  | call same _ inductionHypothesis => exact .call same (inductionHypothesis second)

theorem bind {work later : Work α} (idles : Idles world work later) (more : α → Work β) :
    Idles world (work >>= more) (later >>= more) := by
  induction idles with
  | refl => exact .refl
  | call same _ inductionHypothesis => exact .call same inductionHypothesis

/-- A call that changes nothing answers what it answers, and the computation goes on by that. -/
theorem ofState {work : StateM World α} {answer : α} (asked : work world = (answer, world)) :
    Idles world (Work.ofState work) (pure answer) := by
  refine .call (congrArg Prod.snd asked) ?_
  rw [asked]
  exact .refl

theorem asProcess {work later : Work α} {number : Nat}
    (idles : Idles { world with ownProcess := number } work later) :
    Idles world (work.asProcess number) (later.asProcess number) := by
  generalize isSeen : ({ world with ownProcess := number } : World) = seen at idles
  induction idles with
  | refl => exact .refl
  | call same _ inductionHypothesis =>
      subst isSeen
      exact .call (by rw [same]) inductionHypothesis

end Idles

end Work

/-- Computations that share a machine. -/
structure Pool (α : Type) where
  world : World
  works : List (Work α)

namespace Pool

variable {α : Type}

/-- One of the computations makes its next call. -/
inductive Step : Pool α → Pool α → Prop where
  | call {world : World} {front back : List (Work α)} (change : World → World)
      (rest : World → Work α) :
      Step ⟨world, front ++ .call change rest :: back⟩ ⟨change world, front ++ rest world :: back⟩

/-- Any number of calls, by any of the computations. -/
def Runs : Pool α → Pool α → Prop := Relation.ReflTransGen Step

/-- What holds at first and stays at every call holds however the calls are ordered. -/
theorem Runs.holds {invariant : Pool α → Prop} {pool later : Pool α} (runs : Runs pool later)
    (first : invariant pool)
    (stays : ∀ before after, invariant before → Step before after → invariant after) :
    invariant later := by
  induction runs with
  | refl => exact first
  | tail _ step inductionHypothesis => exact stays _ _ inductionHypothesis step

/-- However far several computations have come, they can all be brought to an end: none waits for
another. -/
theorem exists_ended (world : World) (finished : List α) (works : List (Work α)) :
    ∃ (later : Pool α) (results : List α), Runs ⟨world, finished.map .done ++ works⟩ later ∧
      later.works = results.map .done := by
  induction works generalizing world finished with
  | nil => exact ⟨_, finished, .refl, List.append_nil _⟩
  | cons work works inductionHypothesis =>
      induction work generalizing world with
      | done value =>
          have later := inductionHypothesis world (finished ++ [value])
          rwa [List.map_append, List.append_assoc] at later
      | call change rest restHypothesis =>
          obtain ⟨later, results, runs, ended⟩ := restHypothesis world (change world)
          exact ⟨later, results, .head (.call change rest) runs, ended⟩

/-- A call of one of several computations, which is told by its position among them. -/
structure Turn where
  worker : Nat
  before : World
  after : World

/-- The calls on the way from one state of several computations to another, the latest first. -/
inductive Trace (pool : Pool α) : List Turn → Pool α → Prop where
  | start : Trace pool [] pool
  | turn {turns : List Turn} {world : World} {works : List (Work α)} {worker : Nat}
      {change : World → World} {rest : World → Work α} (earlier : Trace pool turns ⟨world, works⟩)
      (isNext : works[worker]? = some (.call change rest)) :
      Trace pool (⟨worker, world, change world⟩ :: turns)
        ⟨change world, works.set worker (rest world)⟩

theorem Trace.trans {pool middle later : Pool α} {turns more : List Turn}
    (first : Trace pool turns middle) (second : Trace middle more later) :
    Trace pool (more ++ turns) later := by
  induction second with
  | start => exact first
  | turn _ isNext inductionHypothesis => exact .turn inductionHypothesis isNext

/-- One of several computations makes a call as a process. -/
theorem Trace.call {β : Type} {world : World} {tree : FileTree} {works : List (Work α)}
    {worker number : Nat} {work : StateM World β} {answer : β} {more : β → Work α}
    (isWork : works[worker]? = some ((Work.ofState work).asProcess number >>= more))
    (done : work { world with ownProcess := number } =
      (answer, { world with tree, ownProcess := number })) :
    Trace ⟨world, works⟩ [⟨worker, world, { world with tree }⟩]
      ⟨{ world with tree }, works.set worker (more answer)⟩ := by
  have turned := Trace.turn (@Trace.start α ⟨world, works⟩) isWork
  simp only [done] at turned
  exact turned

/-- One of several computations can be left alone while its calls change nothing. -/
theorem exists_idle {world : World} {works : List (Work α)} {work later : Work α} {worker : Nat}
    (idles : work.Idles world later) (isWork : works[worker]? = some work) :
    ∃ turns waiting, Trace ⟨world, works⟩ turns ⟨world, waiting⟩ ∧
      waiting[worker]? = some later ∧ ∀ other, worker ≠ other → waiting[other]? = works[other]? := by
  induction idles generalizing works with
  | refl => exact ⟨[], works, .start, isWork, fun _ _ => rfl⟩
  | @call change rest later same _ inductionHypothesis =>
      obtain ⟨within, -⟩ := List.getElem?_eq_some_iff.mp isWork
      have turned : Trace ⟨world, works⟩ [⟨worker, world, change world⟩]
          ⟨change world, works.set worker (rest world)⟩ := .turn .start isWork
      rw [same] at turned
      obtain ⟨turns, waiting, trace, isLater, others⟩ :=
        inductionHypothesis (List.getElem?_set_self within)
      refine ⟨_, waiting, turned.trans trace, isLater, fun other isOther => ?_⟩
      rw [others other isOther, List.getElem?_set_ne isOther]

/-- Whatever can be reached is reached by some calls. -/
theorem Runs.exists_trace {pool later : Pool α} (runs : Runs pool later) :
    ∃ turns, Trace pool turns later := by
  induction runs with
  | refl => exact ⟨[], .start⟩
  | tail _ step inductionHypothesis =>
      obtain ⟨turns, trace⟩ := inductionHypothesis
      cases step with
      | @call world front back change rest =>
          have isNext : (front ++ .call change rest :: back)[front.length]? =
              some (.call change rest) := by simp
          have turned := Trace.turn trace isNext
          rw [List.set_append_right _ _ (Nat.le_refl _), Nat.sub_self, List.set_cons_zero] at turned
          exact ⟨_, turned⟩

/-- Some calls lead to what can be reached. -/
theorem Trace.runs {pool later : Pool α} {turns : List Turn} (trace : Trace pool turns later) :
    Runs pool later := by
  induction trace with
  | start => exact .refl
  | @turn turns world works worker change rest _ isNext inductionHypothesis =>
      obtain ⟨within, isCall⟩ := List.getElem?_eq_some_iff.mp isNext
      have step : Step ⟨world, works.take worker ++ .call change rest :: works.drop (worker + 1)⟩
          ⟨change world, works.take worker ++ rest world :: works.drop (worker + 1)⟩ :=
        .call change rest
      rw [← isCall, List.getElem_cons_drop, List.take_append_drop] at step
      rw [List.set_eq_take_append_cons_drop, if_pos within]
      exact inductionHypothesis.tail step

end Pool

end StopMotion
