import StopMotion.Number.Count
import StopMotion.Project.Fault
import StopMotion.Text.Pieces
import StopMotion.Disk.Path

/-!
# The lock of a project

Whoever changes a project holds its lock: a file that names the process that made it. A
lock is given up when the work is done, whatever came of the work. The lock of a process
that is gone is replaced once; a lock that names no process stays.
-/

namespace StopMotion.Project

variable {m : Type → Type} [Monad m] [Host m]

/-- The place of the lock of a project. -/
def lockPath (project : String) : String :=
  Path.join project ".framewright.lock"

/-- What a process writes into its lock. -/
def lockText (process : Nat) : String := toString process ++ "\n"

/-- The process that a lock names. -/
def lockOwner? (text : String) : Option Nat :=
  Number.count? Number.greatest32 (Text.trim text.toList)

/-- Whether the process that a lock names is gone. -/
def isStale (lock : String) : m Bool := do
  match ← Host.read lock with
  | .error _ => return false
  | .ok text =>
    match lockOwner? text with
    | some process => return !(← Host.isRunning process)
    | none => return false

/-- Makes a lock where there is none. -/
def createLock (lock : String) : m (Except ProjectFault Unit) := do
  match ← Host.create lock (lockText (← Host.ownProcess)) with
  | .ok () => return .ok ()
  | .error .alreadyThere => return .error (.busy lock)
  | .error error => return .error (.notLocked lock error)

/-- Makes a lock, in the place of a stale one if there is one. -/
def takeLock (lock : String) : m (Except ProjectFault Unit) := do
  match ← createLock lock with
  | .error (.busy held) =>
    if ← isStale lock then
      match ← Host.remove lock with
      | .ok () => createLock lock
      | .error error => return .error (.notReleased lock error)
    else return .error (.busy held)
  | taken => return taken

/-- Does some work on a project while holding its lock. -/
def withLock {α : Type} (project : String) (work : m α) : m (Except ProjectFault α) := do
  let lock := lockPath project
  match ← takeLock lock with
  | .error fault => return .error fault
  | .ok () =>
    let result ← work
    let _ ← Host.remove lock
    return .ok result

end StopMotion.Project
