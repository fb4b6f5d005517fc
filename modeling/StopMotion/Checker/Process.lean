import StopMotion.Checker.Output
import StopMotion.Disk.Host
import StopMotion.Disk.Path

/-!
# Running a type checker

A type checker is a program that is given a copy of a source in a scratch folder and
writes diagnostics. The folder is removed when the checker has ended.
-/

namespace StopMotion.Checker

variable {m : Type → Type} [Monad m] [Host m]

/-- A type checker. The path of the copy comes behind the arguments. -/
structure TypeChecker where
  program : String
  arguments : List String
  timeoutMs : Nat
  deriving DecidableEq, Repr

/-- Codes that say something about what is installed and nothing about a source: a module
that is not found, and one without types. -/
def ignoredCodes : List String := ["TS2307", "TS7016"]

/-- A time in seconds, or in milliseconds below one second. -/
def timeText (milliseconds : Nat) : String :=
  let fraction := milliseconds % 1000
  if milliseconds = 0 then "0ns"
  else if milliseconds < 1000 then toString milliseconds ++ "ms"
  else if fraction = 0 then toString (milliseconds / 1000) ++ "s"
  else
    let digits := (toString (1000 + fraction)).toList.drop 1
    let kept := (digits.reverse.dropWhile (· == '0')).reverse
    toString (milliseconds / 1000) ++ "." ++ String.ofList kept ++ "s"

/-- Why a checker did not come to an answer. -/
inductive CheckFault where
  /-- No copy of the source could be made. -/
  | notCopied (error : HostError)
  | notStarted (program : String) (error : HostError)
  | timedOut (milliseconds : Nat)
  /-- The checker failed without a diagnostic. -/
  | failed (program : String) (ended : Ended)
  deriving DecidableEq, Repr

/-- What a program wrote that failed: its errors, or its output if there are none. -/
def lastWords (ended : Ended) : String :=
  let errors := Text.trim ended.errors.toList
  String.ofList (if errors.isEmpty then Text.trim ended.output.toList else errors)

/-- The wording of a fault. -/
def CheckFault.text : CheckFault → String
  | notCopied error => "oracle i/o: " ++ error.text
  | notStarted program error => "failed to launch `" ++ program ++ "`: " ++ error.text
  | timedOut milliseconds => "type check timed out after " ++ timeText milliseconds
  | failed program ended => ended.complaint program (lastWords ended)

/-- The diagnostics of a checker that has ended, without those that are ignored. A checker
that fails must have a diagnostic for it, be it one that is ignored. -/
def verdictOf (program : String) (ignored : List String) (ended : Ended) :
    Except CheckFault (List Diagnostic) :=
  let found := diagnostics ended.output ++ diagnostics ended.errors
  if ended.status ≠ 0 ∧ found = [] then .error (.failed program ended)
  else .ok (found.filter fun diagnostic => !ignored.contains diagnostic.code)

namespace TypeChecker

/-- Asks a checker about a source, with a scratch folder at hand. -/
def checkIn (checker : TypeChecker) (ignored : List String) (folder : Option String)
    (source scratch : String) : m (Except CheckFault (List Diagnostic)) := do
  let copy := Path.join scratch "artifact.tsx"
  match ← Host.write copy source with
  | .error error => return .error (.notCopied error)
  | .ok () =>
    match ← Host.runFor checker.timeoutMs
        ⟨checker.program, checker.arguments ++ [copy], folder.getD scratch⟩ with
    | .error error => return .error (.notStarted checker.program error)
    | .ok none => return .error (.timedOut checker.timeoutMs)
    | .ok (some ended) => return verdictOf checker.program ignored ended

/-- Asks a checker about a source. It runs in a folder, if one is given, and otherwise in the
scratch folder. -/
def check (checker : TypeChecker) (ignored : List String) (folder : Option String)
    (source : String) : m (Except CheckFault (List Diagnostic)) := do
  match ← Host.makeScratch folder with
  | .error error => return .error (.notCopied error)
  | .ok scratch =>
    let result ← checker.checkIn ignored folder source scratch
    Host.removeScratch scratch
    return result

/-- Asks a checker about a source and takes its answer as a verdict. -/
def verdict (checker : TypeChecker) (folder : Option String) (source : String) :
    m Verdict := do
  return match ← checker.check ignoredCodes folder source with
    | .ok found => .ok found
    | .error fault => .error fault.text

end TypeChecker

end StopMotion.Checker
