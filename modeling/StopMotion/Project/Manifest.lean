import StopMotion.Disk.Path
import StopMotion.Document.Decoder

/-!
# Manifests

The files and folders that a project must have, and how a missing one is made. Paths are
relative to the project; those of folders usually end in a slash.
-/

namespace StopMotion.Project

/-- Whether an entry is a folder, which may be empty, or a file, which may not. -/
inductive EntryKind where
  | folder
  | file
  deriving DecidableEq, Repr

/-- The name of a kind of entry. -/
def EntryKind.name : EntryKind → String
  | folder => "dir"
  | file => "file"

/-- How a missing file is generated. -/
inductive Template where
  /-- The registry of compositions. -/
  | root
  /-- The entry point of the bundle. -/
  | entry
  /-- The settings of the renderer. -/
  | config
  deriving DecidableEq, Repr

/-- The name of a template. -/
def Template.name : Template → String
  | root => "root-template"
  | entry => "entry-template"
  | config => "config-template"

/-- A required path. The primary payload is the file that takes the artifact. -/
structure ManifestEntry where
  path : String
  kind : EntryKind
  isPrimary : Bool := false
  template : Option Template := none
  deriving DecidableEq, Repr

/-- The path of an entry inside a project. -/
def ManifestEntry.locate (entry : ManifestEntry) (project : String) : String :=
  Path.join project (Path.trimSlashes entry.path)

/-- The required paths of a project, in order. -/
structure Manifest where
  entries : List ManifestEntry
  deriving DecidableEq, Repr

/-- What makes a manifest unusable. -/
inductive ManifestFault where
  | noEntries
  | emptyPath (position : Nat)
  | escapes (path : String)
  | duplicate (path : String)
  | folderWithContents (path : String)
  | fileWithSlash (path : String)
  | manyPayloads
  deriving DecidableEq, Repr

/-- The wording of a fault. -/
def ManifestFault.text : ManifestFault → String
  | noEntries => "manifest has no entries"
  | emptyPath position => "manifest entry " ++ toString position ++ " has an empty path"
  | escapes path => "manifest path '" ++ path ++ "' must stay inside the project"
  | duplicate path => "duplicate manifest path '" ++ path ++ "'"
  | folderWithContents path =>
    "directory entry '" ++ path ++ "' cannot carry a template or payload"
  | fileWithSlash path => "file entry '" ++ path ++ "' ends with '/'"
  | manyPayloads => "manifest names more than one primary payload"

namespace Manifest

/-- The usual project. -/
def standard : Manifest where
  entries :=
    [⟨"src/", .folder, false, none⟩,
      ⟨"src/Artifact.tsx", .file, true, none⟩,
      ⟨"src/Root.tsx", .file, false, some .root⟩,
      ⟨"src/index.ts", .file, false, some .entry⟩,
      ⟨"remotion.config.ts", .file, false, some .config⟩,
      ⟨"public/", .folder, false, none⟩]

/-- The entry of the primary payload. -/
def primary? (manifest : Manifest) : Option ManifestEntry :=
  manifest.entries.find? (·.isPrimary)

/-- The first entry with a template. -/
def withTemplate? (manifest : Manifest) (template : Template) : Option ManifestEntry :=
  manifest.entries.find? fun entry => entry.template == some template

/-- Whether a path leads out of the project. -/
def escapes (path : String) : Bool :=
  Path.isAbsolute path || (Path.parts path).contains ".."

/-- What is wrong with an entry at a position behind other entries. -/
def entryFault? (earlier : List ManifestEntry) (position : Nat) (entry : ManifestEntry) :
    Option ManifestFault :=
  let trimmed := Path.trimSlashes entry.path
  if trimmed.isEmpty then some (.emptyPath position)
  else if escapes trimmed then some (.escapes entry.path)
  else if earlier.any fun other => other.path == entry.path then some (.duplicate entry.path)
  else
    match entry.kind with
    | .folder =>
      if entry.isPrimary || entry.template.isSome then some (.folderWithContents entry.path)
      else none
    | .file => if Path.endsInSlash entry.path then some (.fileWithSlash entry.path) else none

/-- What is wrong with the first faulty entry behind some earlier ones. -/
def firstFault? : (earlier : List ManifestEntry) → List ManifestEntry → Option ManifestFault
  | _, [] => none
  | earlier, entry :: rest =>
    match entryFault? earlier earlier.length entry with
    | some fault => some fault
    | none => firstFault? (earlier ++ [entry]) rest

/-- What is wrong with a manifest. -/
def fault? (manifest : Manifest) : Option ManifestFault :=
  if manifest.entries.isEmpty then some .noEntries
  else
    match firstFault? [] manifest.entries with
    | some fault => some fault
    | none =>
      if 1 < manifest.entries.countP (·.isPrimary) then some .manyPayloads else none

/-- An entry in a document. -/
def entry? : Document.Decoder ManifestEntry := fun document => do
  let record ← Document.record? ["path", "kind", "primaryPayload", "template"] document
  let path ← record.get? "path" Document.string?
  let kind ← record.get? "kind"
    (Document.choice? ([EntryKind.folder, .file].map fun kind => (kind.name, kind)))
  let isPrimary ← record.getD? "primaryPayload" Document.boolean? false
  let template ← record.getD? "template"
    (Document.option? (Document.choice? ([Template.root, .entry, .config].map fun template =>
      (template.name, template)))) none
  return { path, kind, isPrimary, template }

/-- An entry as a document, without what is usual. -/
def entryDocument (entry : ManifestEntry) : Document :=
  .object
    ([("path", .string entry.path), ("kind", .string entry.kind.name)] ++
      (if entry.isPrimary then [("primaryPayload", .boolean true)] else []) ++
      (entry.template.map fun template => ("template", .string template.name)).toList)

/-- A manifest as a document. -/
def document (manifest : Manifest) : Document :=
  .array (manifest.entries.map entryDocument)

/-- A manifest in a document. -/
def ofDocument? : Document.Decoder Manifest := fun document =>
  (Document.list? entry? document).map Manifest.mk

end Manifest

end StopMotion.Project
