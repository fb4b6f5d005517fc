import StopMotion.CommandLine.Data
import StopMotion.CommandLine.Outcome
import StopMotion.CommandLine.Request

/-!
# Commands

What each command does. Settings are loaded before anything else is read.
-/

namespace StopMotion.CommandLine

open StopMotion.Project

variable {m : Type → Type} [Monad m] [Host m]

/-! ## What commands begin with -/

/-- The settings for a request. -/
def Request.settings (request : Request) : m (Except Fault Settings) := do
  let loaded : Except SettingsFault Settings ←
    match request.settingsPath with
    | some path => Settings.load path
    | none => pure (.ok {})
  match loaded with
  | .error fault => return .error (.settings (request.settingsPath.getD "") fault)
  | .ok settings => return .ok { settings with checks := settings.checks && !request.skipsChecker }

/-- Goes on with a value, unless there is none. -/
def orRefuse {α : Type} (value : m (Except Fault α)) (work : α → m Outcome) : m Outcome := do
  match ← value with
  | .error fault => return .refused fault
  | .ok value => work value

/-- The artifact in a file. -/
def artifactAt (path : String) : m (Except Fault Artifact) := do
  return (← readArtifact path).mapError (.artifact path)

/-- The text of a file. -/
def textAt (path : String) : m (Except Fault String) := do
  return (← Host.read path).mapError (.notRead path)

/-- Writes a file. -/
def writeTo (path text : String) : m (Except Fault Unit) := do
  return (← Host.write path text).mapError (.notWritten path)

/-- The outcome for an artifact that is rejected. -/
def rejected (rejection : Rejection) : Outcome where
  status := 1
  errors := unlines rejection.report.lines

/-! ## Single artifacts -/

/-- What is said about how an artifact was transpiled. -/
def explanation (transpiled : Transpiled) : List String :=
  (transpiled.driven.substitutions.map fun substitution =>
    "substituted " ++ substitution.name ++ " = " ++ substitution.expression) ++
  (transpiled.driven.notes.map fun note => "note: " ++ note) ++
  (transpiled.audit.map fun line => "repair: " ++ line) ++
  ["confidence: " ++ Number.fixed 2 transpiled.driven.confidence]

/-- Writes a file and makes the folder around it. -/
def writeOut (path text : String) : m (Except Fault Unit) := do
  match ← Files.makeParent path with
  | .error (folder, error) => return .error (.notMade folder error)
  | .ok () => writeTo path text

/-- Transpiles an artifact. -/
def transpileFile (settings : Settings) (artifact : Artifact) (out : Option String)
    (explain : Bool) : m Outcome := do
  match ← transpile (settings.check none) settings.framesPerSecond artifact with
  | .error rejection => return rejected rejection
  | .ok transpiled =>
    let errors := if explain then unlines (explanation transpiled) else ""
    match out with
    | none => return { output := transpiled.text, errors }
    | some path =>
      match ← writeOut path transpiled.text with
      | .error fault => return .failed fault { errors }
      | .ok () => return { errors := errors ++ unlines ["wrote " ++ path] }

/-- Validates a component. -/
def validateFile (settings : Settings) (artifact : Artifact) (json : Bool) : m Outcome := do
  let report ← Validation.validate (settings.check none) artifact.text artifact.identifier
  let status := if report.isValid then 0 else 1
  if json then return { status, output := unlines [report.document.text] }
  else return { status, errors := unlines report.lines }

/-- Repairs a text. -/
def repairFile (path text : String) (inPlace : Bool) : m Outcome := do
  let repaired := Repair.repair text.toList
  let audit := unlines repaired.audit
  let result := String.ofList repaired.text
  if !inPlace then return { output := result, errors := audit }
  else
    let count := repaired.fixCount
    let written ← if count = 0 then pure (.ok ()) else writeTo path result
    match written with
    | .error fault => return .failed fault { errors := audit }
    | .ok () =>
      return { errors := audit ++ unlines [toString count ++ " fix(es) in " ++ path] }

/-! ## Projects -/

/-- Checks a project. -/
def checkProject (settings : Settings) (project : String) (json : Bool) : m Outcome := do
  let report ← Project.check project settings.manifest
  let shortfall := report.shortfall
  let lines :=
    if json then [report.document.text]
    else
      shortfall.missing.map ("missing   " ++ ·) ++ shortfall.malformed.map ("malformed " ++ ·) ++
        [report.finalWord]
  return { status := if report.isComplete then 0 else 1, output := unlines lines }

/-- Recovers a project. -/
def recoverProject (settings : Settings) (project : String) (payload : Option String)
    (composition : String) : m Outcome := do
  match ← recover project settings.manifest (settings.plan composition payload) with
  | .error fault => return .refused (.project fault)
  | .ok report =>
    let done := report.state.word ++ " after " ++ toString report.attempts ++ " attempt(s)"
    let printed : Outcome := { output := unlines (report.actions.map (·.text) ++ [done]) }
    return match report.fault? with
      | some fault => .failed (.project fault) printed
      | none => printed

/-- Renders a project to a file, after something was printed. -/
def renderTo (settings : Settings) (composition project video : String) (printed : Outcome) :
    m Outcome := do
  let job := Render.Job.ofManifest settings.manifest composition video
  match ← settings.renderer.render project job with
  | .error fault => return .failed (.render fault) printed
  | .ok () =>
    return { printed with errors := printed.errors ++ unlines ["wrote " ++ video] }

/-- Transpiles an artifact into a project. -/
def deployFile (settings : Settings) (artifact : Artifact) (project : String)
    (video : Option String) : m Outcome := do
  match ← deploy settings (settings.check (some project)) artifact project with
  | .error (.rejected rejection) => return rejected rejection
  | .error (.project fault) => return .refused (.project fault)
  | .ok deployment =>
    let done := "deployed " ++ artifact.identifier ++ " into " ++ project ++ " (" ++
      deployment.integrity.state.word ++ ")"
    let actions := deployment.integrity.actions.map (·.text)
    let printed : Outcome := { errors := unlines (actions ++ [done]) }
    match video with
    | none => return printed
    | some video => renderTo settings artifact.compositionId project video printed

/-! ## Folders -/

/-- Whether a path names a file that may hold an artifact. -/
def isArtifact (path : String) : m Bool := do
  let known := (Path.extension? path).any fun extension =>
    ["jsx", "tsx", "js", "ts"].contains extension
  return known && (← Files.isFile path)

/-- The artifacts in a folder, in the order of their names. -/
def artifactsIn (folder : String) : m (Except Fault (List String)) := do
  match ← Host.list folder with
  | .error error => return .error (.notListed folder error)
  | .ok names =>
    let paths := (names.mergeSort fun first other => first ≤ other).map (Path.join folder)
    return .ok (← paths.filterM isArtifact)

/-- Makes a folder for what is written. -/
def makeOutput (folder : String) : m (Except Fault Unit) := do
  return (← Files.makeFolders folder).mapError (.notMade folder)

/-- What came of one artifact among many. -/
inductive BatchResult where
  | transpiled
  | rejected (rejection : Rejection)
  | failed (fault : Fault)

/-- Whether an artifact was transpiled. -/
def BatchResult.isTranspiled : BatchResult → Bool
  | transpiled => true
  | rejected _ | failed _ => false

/-- The report on a rejected artifact. -/
def BatchResult.report : BatchResult → List String
  | rejected rejection => rejection.report.lines
  | transpiled | failed _ => []

/-- What is said in the end about an artifact that was not transpiled. -/
def BatchResult.verdict (path : String) : BatchResult → List String
  | transpiled => []
  | rejected _ => ["rejected " ++ path]
  | failed fault => ["failed " ++ path ++ ": " ++ fault.text]

/-- The file that an artifact of a folder is written to. -/
def batchTarget (out : String) (artifact : Artifact) : String :=
  Path.join out (artifact.identifier ++ ".tsx")

/-- Transpiles one artifact among many. -/
def batchOne (settings : Settings) (out path : String) : m BatchResult := do
  match ← artifactAt path with
  | .error fault => return .failed fault
  | .ok artifact =>
    match ← transpile (settings.check none) settings.framesPerSecond artifact with
    | .error rejection => return .rejected rejection
    | .ok transpiled =>
      match ← writeTo (batchTarget out artifact) transpiled.text with
      | .error fault => return .failed fault
      | .ok () => return .transpiled

/-- Transpiles some artifacts, one after the other. -/
def batchAll (settings : Settings) (out : String) (paths : List String) : m Outcome := do
  let results ← paths.mapM (batchOne settings out)
  let count := results.countP (·.isTranspiled)
  let verdicts := List.flatten ((paths.zip results).map fun (path, result) => result.verdict path)
  let tally := toString count ++ "/" ++ toString paths.length ++
    " artifact(s) transpiled into " ++ out
  return {
    status := if count = paths.length then 0 else 1
    errors := unlines (results.flatMap (·.report) ++ verdicts ++ [tally]) }

/-! ## All commands -/

/-- Runs a command under some settings. -/
def Command.run (settings : Settings) : Command → m Outcome
  | .transpile input out explain =>
    orRefuse (artifactAt input) fun artifact => transpileFile settings artifact out explain
  | .validate input json =>
    orRefuse (artifactAt input) fun artifact => validateFile settings artifact json
  | .repair input inPlace =>
    orRefuse (textAt input) fun text => repairFile input text inPlace
  | .check project json => checkProject settings project json
  | .recover project none composition => recoverProject settings project none composition
  | .recover project (some payload) composition =>
    orRefuse (textAt payload) fun text =>
      recoverProject settings project (some text) composition
  | .deploy input project video =>
    orRefuse (artifactAt input) fun artifact => deployFile settings artifact project video
  | .batch folder out =>
    orRefuse (artifactsIn folder) fun paths =>
      orRefuse (makeOutput out) fun () => batchAll settings out paths

/-- Whether a command needs settings. -/
def Command.needsSettings : Command → Bool
  | .repair .. => false
  | _ => true

/-- Does what a request asks for. -/
def Request.run (request : Request) : m Outcome :=
  if request.command.needsSettings then
    orRefuse request.settings fun settings => request.command.run settings
  else request.command.run {}

/-- What is said when the words of a command line make no request. -/
def usage : String :=
  "usage: framewright [--config FILE] [--no-typecheck] COMMAND ...\n" ++
  "  transpile INPUT [--out FILE] [--explain]\n" ++
  "  validate INPUT [--json]\n" ++
  "  repair INPUT [--in-place]\n" ++
  "  check PROJECT [--json]\n" ++
  "  recover PROJECT [--payload FILE] [--composition ID]\n" ++
  "  deploy INPUT PROJECT [--render FILE]\n" ++
  "  batch FOLDER --out FOLDER\n"

/-- Does what the words of a command line ask for. -/
def run (words : List String) : m Outcome :=
  match request? words with
  | some request => request.run
  | none => return { status := 2, errors := usage }

end StopMotion.CommandLine
