/-!
# Requests

What a command line asks for. The first word is the command; options stand anywhere
behind it and take their value from the next word or from behind an equals sign. Two
options hold for all commands and may stand before the command too.
-/

namespace StopMotion.CommandLine

/-- What is asked of the program. -/
inductive Command where
  /-- Transpile an artifact; write it to a file, or print it. -/
  | transpile (input : String) (out : Option String) (explain : Bool)
  /-- Validate a component. -/
  | validate (input : String) (json : Bool)
  /-- Repair an artifact; write it back, or print it. -/
  | repair (input : String) (inPlace : Bool)
  /-- Check a project. -/
  | check (project : String) (json : Bool)
  /-- Recover a project. -/
  | recover (project : String) (payload : Option String) (composition : String)
  /-- Transpile an artifact into a project, and render it to a file. -/
  | deploy (input project : String) (video : Option String)
  /-- Transpile all artifacts of a folder into another. -/
  | batch (folder out : String)
  deriving DecidableEq, Repr

/-- A command with the options that hold for all commands. -/
structure Request where
  settingsPath : Option String
  skipsChecker : Bool
  command : Command
  deriving DecidableEq, Repr

/-! ## Options -/

/-- Whether an option stands alone or takes a value, which may have to be a path. -/
inductive OptionKind where
  | flag
  | path
  | text
  deriving DecidableEq, Repr

/-- The options that hold for all commands. -/
def sharedOptions : List (String × OptionKind) :=
  [("--config", .path), ("--no-typecheck", .flag)]

/-- The options of a command. -/
def optionsOf : String → Option (List (String × OptionKind))
  | "transpile" => some [("--out", .path), ("--explain", .flag)]
  | "validate" | "check" => some [("--json", .flag)]
  | "repair" => some [("--in-place", .flag)]
  | "recover" => some [("--payload", .path), ("--composition", .text)]
  | "deploy" => some [("--render", .path)]
  | "batch" => some [("--out", .path)]
  | _ => none

/-- Words and options of a command line. A flag has no value. -/
structure Parts where
  words : List String := []
  options : List (String × Option String) := []
  deriving DecidableEq, Repr

namespace Parts

/-- Parts with a word before them. -/
def addWord (word : String) (parts : Parts) : Parts :=
  { parts with words := word :: parts.words }

/-- Parts with an option before them, unless it is among them. -/
def addOption? (name : String) (value : Option String) (parts : Parts) : Option Parts :=
  if (parts.options.lookup name).isSome then none
  else some { parts with options := (name, value) :: parts.options }

/-- Whether a flag is given. -/
def has (parts : Parts) (name : String) : Bool := (parts.options.lookup name).isSome

/-- The value of an option. -/
def value? (parts : Parts) (name : String) : Option String :=
  (parts.options.lookup name).join

end Parts

/-- Whether a word looks like an option. -/
def isOption (word : String) : Bool := word.toList.head? == some '-' && word != "-"

/-- The name of an option, and the value behind its equals sign. -/
def splitOption (word : String) : String × Option String :=
  let name := word.toList.takeWhile (· != '=')
  match word.toList.drop name.length with
  | [] => (word, none)
  | _ :: value => (String.ofList name, some (String.ofList value))

/-- Whether a value will do for an option. -/
def OptionKind.accepts (kind : OptionKind) (value : String) : Bool :=
  kind == .text || !value.isEmpty

/-- Words and options, in any order; none if an option is unknown, given twice or without
its value. All behind two hyphens are words. -/
def parts? (known : List (String × OptionKind)) : List String → Option Parts
  | [] => some {}
  | "--" :: words => some { words }
  | word :: rest =>
    if !isOption word then (parts? known rest).map (Parts.addWord word)
    else
      let (name, given) := splitOption word
      match known.lookup name with
      | none => none
      | some kind =>
        match kind, given with
        | .flag, none => (parts? known rest).bind (Parts.addOption? name none)
        | .flag, some _ => none
        | kind, some value =>
          if kind.accepts value then
            (parts? known rest).bind (Parts.addOption? name (some value))
          else none
        | kind, none =>
          match rest with
          | [] => none
          | value :: rest =>
            if isOption value || !kind.accepts value then none
            else (parts? known rest).bind (Parts.addOption? name (some value))

/-- The options before the command, the command and what follows it. -/
def splitCommand : List String → List String × List String
  | "--config" :: value :: rest =>
    let (before, behind) := splitCommand rest
    ("--config" :: value :: before, behind)
  | word :: rest =>
    if isOption word then
      let (before, behind) := splitCommand rest
      (word :: before, behind)
    else ([], word :: rest)
  | [] => ([], [])

/-! ## Commands -/

/-- The command that a word and the parts behind it say. -/
def command? (word : String) (parts : Parts) : Option Command :=
  if parts.words.any (·.isEmpty) then none
  else
    match word, parts.words with
    | "transpile", [input] =>
      some (.transpile input (parts.value? "--out") (parts.has "--explain"))
    | "validate", [input] => some (.validate input (parts.has "--json"))
    | "repair", [input] => some (.repair input (parts.has "--in-place"))
    | "check", [project] => some (.check project (parts.has "--json"))
    | "recover", [project] =>
      some (.recover project (parts.value? "--payload")
        ((parts.value? "--composition").getD "Artifact"))
    | "deploy", [input, project] => some (.deploy input project (parts.value? "--render"))
    | "batch", [folder] => (parts.value? "--out").map (.batch folder)
    | _, _ => none

/-- The request that the words of a command line make. -/
def request? (words : List String) : Option Request := do
  let (before, behind) := splitCommand words
  let shared ← parts? sharedOptions before
  let word ← behind.head?
  let parts ← parts? (sharedOptions ++ (← optionsOf word)) behind.tail
  return {
    settingsPath := (parts.value? "--config").or (shared.value? "--config")
    skipsChecker := parts.has "--no-typecheck" || shared.has "--no-typecheck"
    command := ← command? word parts }

end StopMotion.CommandLine
