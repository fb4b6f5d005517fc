import StopMotion.Proofs.Disk.Clear
import StopMotion.Proofs.Project.Recovery

/-!
# Manifests that can be met

One pass over a manifest makes everything that a project lacks if nothing is in the way: neither
something in the tree nor one entry of the manifest in that of another. The invariant of the pass
is that nothing is in the way of any entry. Making an entry keeps it, because what is made is on
the way to that entry, and the entry of a file is on the way to no other.
-/

namespace StopMotion.Project

open FileTree (Inward Roots Between Clear Widens)

variable {project : String} {root : List String} {manifest : Manifest} {plan : RecoveryPlan}
  {world : World} {tree before after : FileTree} {entry other : ManifestEntry}

/-! ## Entries that can be made -/

namespace ManifestEntry

/-- The path of an entry ends in a name, or it is that of the project. -/
def Named (entry : ManifestEntry) : Prop :=
  ¬ Path.EndsBlank (Path.trimSlashes entry.path) ∨ entry.kind = .folder ∧ entry.names = []

/-- Nothing in a tree is in the way of an entry. -/
structure Fits (entry : ManifestEntry) (root : List String) (tree : FileTree) : Prop where
  noFile (inner last : List String) (isNames : entry.names = inner ++ last)
    (within : last ≠ [] ∨ entry.kind = .folder) (text : String) :
    tree.get? (root ++ inner) ≠ some (.file text)
  noFolder (isFile : entry.kind = .file) : tree.get? (root ++ entry.names) ≠ some .folder

/-- What is made of an entry. -/
def made (entry : ManifestEntry) (manifest : Manifest) (plan : RecoveryPlan) : Entry :=
  match entry.kind with
  | .folder => .folder
  | .file => .file (entry.contents manifest plan)

/-- What the path of an entry finds in a project. -/
def Finds (entry : ManifestEntry) (project : String) (root : List String) (there : Entry)
    (tree : FileTree) : Prop :=
  tree.find (entry.locate project) = .ok (root ++ entry.names, there)

theorem endsBlank_locate (sound : entry.Sound) : Path.EndsBlank (entry.locate project) ↔
    Path.EndsBlank (Path.trimSlashes entry.path) :=
  Path.endsBlank_join sound.relative

theorem names_ne_nil (speaks : ¬ Path.EndsBlank (Path.trimSlashes entry.path)) :
    entry.names ≠ [] := by
  intro isNil
  have isLast := Path.getLast?_steps speaks
  rw [Path.steps_trimSlashes, ← names, isNil] at isLast
  exact Path.split_ne_nil _ (List.getLast?_eq_none_iff.mp isLast.symm)

end ManifestEntry

/-- A file of the manifest is put where nothing is in the way. -/
theorem leaves_placeEntry_ok (roots : world.tree.Roots project root) (sound : entry.Sound)
    (speaks : ¬ Path.EndsBlank (Path.trimSlashes entry.path)) (isFile : entry.kind = .file)
    (fits : entry.Fits root world.tree) (text : String) :
    World.Leaves (Files.place (entry.locate project) text) world fun answer after =>
      answer = .ok () ∧ entry.Finds project root (.file text) after := by
  obtain ⟨front, name, isNames⟩ :=
    (List.eq_nil_or_concat entry.names).resolve_left (ManifestEntry.names_ne_nil speaks)
  rw [List.concat_eq_append] at isNames
  have speaksHere : ¬ Path.EndsBlank (entry.locate project) :=
    mt (ManifestEntry.endsBlank_locate sound).mp speaks
  have clear : world.tree.Clear root front := fun inner last isFront =>
    fits.noFile inner (last ++ [name]) (by simp [isNames, isFront]) (.inl (by simp))
  refine (FileTree.leaves_place_ok roots (isNames ▸ sound.inward) (isNames ▸ sound.goesOn) clear
    (isNames ▸ fits.noFolder isFile) speaksHere text).mono fun answer after placed => ?_
  obtain ⟨rfl, found⟩ := placed
  rw [← isNames] at found
  exact ⟨rfl, found⟩

/-- An entry is made where nothing is in the way. -/
theorem leaves_makeEntry_made (roots : world.tree.Roots project root) (sound : entry.Sound)
    (named : entry.Named) (fits : entry.Fits root world.tree) :
    World.Leaves (makeEntry project manifest plan entry) world fun _ after =>
      entry.Finds project root (entry.made manifest plan) after := by
  unfold makeEntry ManifestEntry.made
  cases isKind : entry.kind with
  | file =>
      have speaks := named.resolve_right fun isFolder => by simp [isKind] at isFolder
      refine (World.leaves_isFolder _).bind fun answer tree asked => ?_
      obtain ⟨rfl, isFolder⟩ := asked
      cases answer with
      | true =>
          obtain ⟨place, found⟩ := isFolder.mp rfl
          obtain ⟨-, leads, there, -⟩ := FileTree.find_eq_ok_iff.mp found
          obtain ⟨rfl, -⟩ := (roots.leads_iff sound.inward sound.goesOn).mp leads
          exact absurd there (fits.noFolder isKind)
      | false =>
          refine (leaves_placeEntry_ok roots sound speaks isKind fits _).bind
            fun answer after made => ?_
          obtain ⟨rfl, finds⟩ := made
          exact .pure finds
  | folder =>
      have speaks : ¬ Path.EndsBlank (Path.trimSlashes (entry.locate project)) ∨
          entry.names = [] := by
        rw [Path.trimSlashes_of_endsInSlash sound.endsInSlash_locate,
          ManifestEntry.endsBlank_locate sound]
        exact named.imp_right And.right
      have clear : world.tree.Clear root entry.names := fun inner last isNames =>
        fits.noFile inner last isNames (.inr isKind)
      refine (FileTree.leaves_makeAncestors_ok roots sound.inward sound.goesOn clear
        sound.locate_ne_empty speaks (Nat.lt_succ_self _)).bind fun answer after made => ?_
      obtain ⟨rfl, rootsEntry⟩ := made
      exact .pure (rootsEntry.find sound.locate_ne_empty)

/-! ## Manifests that can be met -/

/-- No file of a manifest is in the way of another entry, and every entry can be made. -/
structure Manifest.Consistent (manifest : Manifest) : Prop where
  named (entry : ManifestEntry) (isIn : entry ∈ manifest.entries) : entry.Named
  apart (entry other : ManifestEntry) (isIn : entry ∈ manifest.entries)
    (isFile : entry.kind = .file) (isOther : other ∈ manifest.entries) (differs : other ≠ entry)
    (rest : List String) : other.names ≠ entry.names ++ rest

/-- What making an entry leaves of another one. -/
structure ManifestEntry.Spared (other : ManifestEntry) (project : String) (root : List String)
    (before after : FileTree) : Prop where
  fits (fits : other.Fits root before) : other.Fits root after
  finds (there : Entry) (finds : other.Finds project root there before) :
    other.Finds project root there after

theorem ManifestEntry.Builds.steady {contents : String}
    (builds : entry.Builds project contents root before after) : before.Steady after := by
  obtain ⟨middle, widens, rfl | ⟨-, notFolder, -, rfl⟩⟩ := builds
  · exact widens.steady
  · exact widens.steady.trans (.put notFolder contents)

/-- Making an entry of a manifest without contradictions spares the others. -/
theorem ManifestEntry.Builds.spared {contents : String} (consistent : manifest.Consistent)
    (isIn : entry ∈ manifest.entries) (isOther : other ∈ manifest.entries)
    (differs : other ≠ entry) (builds : entry.Builds project contents root before after) :
    other.Spared project root before after := by
  have steady := builds.steady
  obtain ⟨middle, widens, built⟩ := builds
  -- the file is not put on the way to the other entry
  have onWay (inner last : List String) (isNames : other.names = inner ++ last) :
      after.get? (root ++ inner) = middle.get? (root ++ inner) := by
    rcases built with rfl | ⟨isFile, notFolder, -, rfl⟩
    · rfl
    · rw [FileTree.get?_put (FileTree.ne_nil_of_not_folder notFolder), if_neg]
      intro isPlace
      obtain rfl : inner = entry.names := List.append_cancel_left isPlace
      exact consistent.apart entry other isIn isFile isOther differs last isNames
  have here := onWay other.names [] (by simp)
  constructor
  · intro fits
    constructor
    · intro inner last isNames within text there
      rw [onWay inner last isNames, widens.file] at there
      exact fits.noFile inner last isNames within text there
    · intro isFile there
      rw [here] at there
      rcases widens.entry (root ++ other.names) with same | ⟨⟨inner, last, -, isNames, isPlace⟩, -⟩
      · exact fits.noFolder isFile (same.symm.trans there)
      · obtain rfl : other.names = inner := List.append_cancel_left isPlace
        exact consistent.apart other entry isOther isFile isIn differs.symm last isNames
  · intro there finds
    obtain ⟨filled, leads, isThere, ends⟩ := FileTree.find_eq_ok_iff.mp finds
    refine FileTree.find_eq_ok_iff.mpr
      ⟨filled, leads.mono steady.home steady.folder, here.trans ?_, ends⟩
    rcases widens.entry (root ++ other.names) with same | ⟨-, vacant, -⟩
    · exact same.trans isThere
    · cases vacant.symm.trans isThere

/-- Nothing is in the way of an entry that is made. -/
theorem ManifestEntry.Builds.fits {contents : String} {there : Entry} (fits : entry.Fits root before)
    (builds : entry.Builds project contents root before after)
    (finds : entry.Finds project root there after) (isMade : entry.kind = .file → there ≠ .folder) :
    entry.Fits root after := by
  obtain ⟨-, -, isThere, -⟩ := FileTree.find_eq_ok_iff.mp finds
  obtain ⟨middle, widens, built⟩ := builds
  constructor
  · intro inner last isNames within text found
    rcases built with rfl | ⟨isFile, notFolder, -, rfl⟩
    · exact fits.noFile inner last isNames within text (widens.file.mp found)
    · rw [FileTree.get?_put (FileTree.ne_nil_of_not_folder notFolder), if_neg] at found
      · exact fits.noFile inner last isNames within text (widens.file.mp found)
      · intro isPlace
        obtain rfl : inner = entry.names := List.append_cancel_left isPlace
        obtain rfl : last = [] := by simpa using isNames
        simp [isFile] at within
  · intro isFile found
    exact isMade isFile (Option.some.inj (isThere.symm.trans found))

/-! ## What is made is met -/

/-- What an entry must be. -/
def EntryKind.Accepts : EntryKind → Entry → Prop
  | folder, there => there = .folder
  | file, there => ∃ text, there = .file text ∧ text ≠ ""

theorem ManifestEntry.present_iff_find : entry.metIn project tree = .present ↔
    ∃ place there, tree.find (entry.locate project) = .ok (place, there) ∧
      entry.kind.Accepts there := by
  have bytes (text : String) : Text.size text.toList = 0 ↔ text = "" := by
    rw [Text.size_eq_zero, String.toList_eq_nil_iff]
  unfold metIn World.foundAt
  cases found : tree.find (entry.locate project) with
  | error error =>
      have missing : entry.kind.presence (.error error) = .missing := by cases entry.kind <;> rfl
      constructor
      · intro present
        cases missing.symm.trans present
      · rintro ⟨_, _, ⟨⟩, _⟩
  | ok answer =>
      obtain ⟨place, there⟩ := answer
      rw [Except.ok_bind]
      cases there <;> cases entry.kind <;>
        simp [EntryKind.presence, EntryKind.Accepts, bytes, pure, Except.pure]

/-- An entry stays met if its path still finds what it found. -/
theorem ManifestEntry.present_mono
    (stays : ∀ place there, before.find (entry.locate project) = .ok (place, there) →
      after.find (entry.locate project) = .ok (place, there))
    (present : entry.metIn project before = .present) : entry.metIn project after = .present := by
  obtain ⟨place, there, found, accepted⟩ := present_iff_find.mp present
  exact present_iff_find.mpr ⟨place, there, stays place there found, accepted⟩

theorem ManifestEntry.Sound.finds {place : List String} {there : Entry} (sound : entry.Sound)
    (roots : tree.Roots project root)
    (found : tree.find (entry.locate project) = .ok (place, there)) :
    entry.Finds project root there tree := by
  obtain ⟨-, leads, -⟩ := FileTree.find_eq_ok_iff.mp found
  obtain ⟨rfl, -⟩ := (roots.leads_iff sound.inward sound.goesOn).mp leads
  exact found

theorem ManifestEntry.present_iff (roots : tree.Roots project root) (sound : entry.Sound) :
    entry.metIn project tree = .present ↔
      ∃ there, entry.Finds project root there tree ∧ entry.kind.Accepts there := by
  rw [present_iff_find]
  constructor
  · rintro ⟨place, there, found, accepted⟩
    exact ⟨there, sound.finds roots found, accepted⟩
  · rintro ⟨there, finds, accepted⟩
    exact ⟨_, there, finds, accepted⟩

/-- An entry is only met in a project that is there. -/
theorem ManifestEntry.exists_roots_of_present (sound : entry.Sound) (named : entry.Named)
    (present : entry.metIn project tree = .present) : ∃ root, tree.Roots project root := by
  obtain ⟨place, there, found, accepted⟩ := present_iff_find.mp present
  obtain ⟨-, leads, isThere, -⟩ := FileTree.find_eq_ok_iff.mp found
  have isStart : tree.start (entry.locate project) = tree.start project := by
    rw [FileTree.start, FileTree.start, sound.goesOn.isAbsolute_eq]
  rw [FileTree.Leads, isStart, sound.goesOn.steps_eq, FileTree.walk_append] at leads
  obtain ⟨root, reaches, leads⟩ := Except.bind_eq_ok leads
  refine ⟨root, reaches, ?_⟩
  cases isNames : entry.names with
  | cons name rest =>
      rw [isNames] at leads
      exact FileTree.folder_of_walk_cons leads
  | nil =>
      rw [isNames] at leads
      cases leads
      have isFolder : entry.kind = .folder := by
        rcases named with speaks | ⟨isFolder, -⟩
        · exact absurd isNames (names_ne_nil speaks)
        · exact isFolder
      rw [isFolder] at accepted
      cases accepted
      exact isThere

/-- A text that ends in something holds something. -/
theorem append_ne_empty {front back : String} (filled : back ≠ "") : front ++ back ≠ "" := by
  intro isEmpty
  have isNil := congrArg String.toList isEmpty
  rw [String.toList_append] at isNil
  exact filled (String.toList_eq_nil_iff.mp (List.append_eq_nil_iff.mp isNil).2)

theorem Template.text_ne_empty (template : Template) (path : String)
    (composition : Composition) : template.text path manifest composition ≠ "" := by
  cases template with
  | root => exact append_ne_empty (by decide)
  | entry => exact append_ne_empty (by decide)
  | config => exact append_ne_empty (by decide)

/-- A file that is made holds something, if the artifact does. -/
theorem contents_ne_empty (filled : ∀ text, plan.payload = some text → text ≠ "") :
    entry.contents manifest plan ≠ "" := by
  unfold ManifestEntry.contents ManifestEntry.origin
  by_cases isPrimary : entry.isPrimary = true
  · rw [if_pos isPrimary]
    cases isPayload : plan.payload with
    | some text => simpa using filled text isPayload
    | none =>
        have written : Frame.placeholder plan.composition.id ≠ "" := append_ne_empty (by decide)
        exact written
  · rw [if_neg isPrimary]
    cases entry.template with
    | some template => exact template.text_ne_empty _ _
    | none => simp

theorem accepts_made (filled : ∀ text, plan.payload = some text → text ≠ "") :
    entry.kind.Accepts (entry.made manifest plan) := by
  unfold ManifestEntry.made
  cases entry.kind with
  | folder => rfl
  | file => exact ⟨_, rfl, contents_ne_empty filled⟩

/-- What is made of the primary payload is the artifact, if there is one. -/
theorem made_primary {text : String} (isPrimary : entry.isPrimary = true)
    (isFile : entry.kind = .file) (isPayload : plan.payload = some text) :
    entry.made manifest plan = .file text := by
  simp [ManifestEntry.made, isFile, ManifestEntry.contents, ManifestEntry.origin, isPrimary,
    isPayload]

theorem lacks_eq_none {entries : List ManifestEntry}
    (met : ∀ entry ∈ entries, entry.metIn project tree = .present) :
    lacks project tree entries = .none := by
  induction entries with
  | nil => rfl
  | cons entry rest inductionHypothesis =>
      rw [lacks, met entry (.head _), inductionHypothesis fun other isIn => met other (.tail _ isIn)]
      rfl

/-! ## One pass -/

/-- Nothing is in the way of any entry. -/
def Manifest.Fits (manifest : Manifest) (root : List String) (tree : FileTree) : Prop :=
  ∀ entry ∈ manifest.entries, entry.Fits root tree

/-- How far a pass has come that makes the entries that are `lacking`: nothing got in the way, and
the other entries are what they were. -/
structure Underway (project : String) (root : List String) (manifest : Manifest)
    (lacking : ManifestEntry → Prop) (first tree : FileTree) : Prop where
  roots : tree.Roots project root
  fits : manifest.Fits root tree
  rest (entry : ManifestEntry) (isIn : entry ∈ manifest.entries) (isLeft : ¬ lacking entry)
    (there : Entry) (finds : entry.Finds project root there first) :
    entry.Finds project root there tree

/-- An entry of a manifest is as it is made. -/
def ManifestEntry.IsMade (entry : ManifestEntry) (project : String) (root : List String)
    (manifest : Manifest) (plan : RecoveryPlan) (tree : FileTree) : Prop :=
  entry ∈ manifest.entries → entry.Finds project root (entry.made manifest plan) tree

/-- Making an entry that is lacking brings a pass on and undoes nothing. -/
theorem leaves_makeEntry_underway {lacking : ManifestEntry → Prop} {first : FileTree}
    (isSound : manifest.Sound) (consistent : manifest.Consistent)
    (underway : Underway project root manifest lacking first world.tree)
    (isIn : entry ∈ manifest.entries) (isLacking : lacking entry) :
    World.Leaves (makeEntry project manifest plan entry) world fun _ after =>
      Underway project root manifest lacking first after ∧
      entry.IsMade project root manifest plan after ∧
      ∀ other : ManifestEntry, other.IsMade project root manifest plan world.tree →
        other.IsMade project root manifest plan after := by
  have sound := isSound.entry entry isIn
  refine ((leaves_makeEntry underway.roots sound).and
    (leaves_makeEntry_made underway.roots sound (consistent.named entry isIn)
      (underway.fits entry isIn))).mono fun _ after made => ?_
  obtain ⟨builds, isMade⟩ := made
  have spared (other : ManifestEntry) (isOther : other ∈ manifest.entries)
      (differs : other ≠ entry) : other.Spared project root world.tree after :=
    builds.spared consistent isIn isOther differs
  refine ⟨⟨?_, ?_, ?_⟩, fun _ => isMade, ?_⟩
  · exact underway.roots.mono builds.steady.home builds.steady.folder
  · intro other isOther
    by_cases same : other = entry
    · subst same
      refine builds.fits (underway.fits other isOther) isMade fun isFile => ?_
      simp [ManifestEntry.made, isFile]
    · exact (spared other isOther same).fits (underway.fits other isOther)
  · intro other isOther isLeft there finds
    refine (spared other isOther ?_).finds there (underway.rest other isOther isLeft there finds)
    rintro rfl
    exact isLeft isLacking
  · intro other wasMade isOther
    by_cases same : other = entry
    · subst same
      exact isMade
    · exact (spared other isOther same).finds _ (wasMade isOther)

/-- What a pass makes of an entry that is `lacking`, and what it leaves of one that is not. -/
def ManifestEntry.Done (entry : ManifestEntry) (project : String) (root : List String)
    (manifest : Manifest) (plan : RecoveryPlan) (lacking : Prop) (before after : FileTree) : Prop :=
  (lacking → entry.Finds project root (entry.made manifest plan) after) ∧
    (¬ lacking → ∀ there, entry.Finds project root there before →
      entry.Finds project root there after)

theorem leaves_pass_done {progress : Progress} (isSound : manifest.Sound)
    (consistent : manifest.Consistent) (roots : world.tree.Roots project root)
    (fits : manifest.Fits root world.tree) :
    World.Leaves (pass project manifest plan progress) world fun next after =>
      after.Roots project root ∧ manifest.Fits root after ∧
      (∀ entry ∈ manifest.entries, entry.Done project root manifest plan
        (entry.path ∈ progress.shortfall.paths) world.tree after) ∧
      next.shortfall = lacks project after manifest.entries ∧
      next.attempts = progress.attempts + 1 := by
  let lacking (entry : ManifestEntry) : Prop := entry.path ∈ progress.shortfall.paths
  have begins : Underway project root manifest lacking world.tree world.tree :=
    ⟨roots, fits, fun _ _ _ _ finds => finds⟩
  have each (entry : ManifestEntry)
      (isListed : entry ∈ manifest.entries.filter fun entry =>
        progress.shortfall.paths.contains entry.path)
      (inner : World) (underway : Underway project root manifest lacking world.tree inner.tree) :
      World.Leaves (makeEntry project manifest plan entry) inner fun _ after =>
        Underway project root manifest lacking world.tree after ∧
        entry.IsMade project root manifest plan after ∧
        ∀ other : ManifestEntry, other.IsMade project root manifest plan inner.tree →
          other.IsMade project root manifest plan after := by
    obtain ⟨isIn, isNamed⟩ := List.mem_filter.mp isListed
    exact leaves_makeEntry_underway isSound consistent underway isIn
      (List.contains_iff_mem.mp isNamed)
  refine (World.leaves_mapM begins each).bind fun actions tree made => ?_
  obtain ⟨underway, isMade, -⟩ := made
  refine (leaves_survey project manifest.entries _).bind fun shortfall after asked => ?_
  obtain ⟨isShortfall, rfl⟩ := asked
  refine .pure ⟨underway.roots, underway.fits, fun entry isIn => ⟨fun isLacking => ?_,
    underway.rest entry isIn⟩, isShortfall, rfl⟩
  exact isMade entry (List.mem_filter.mpr ⟨isIn, List.contains_iff_mem.mpr isLacking⟩) isIn

/-- One pass makes everything, so no other pass is made. -/
theorem leaves_passes_done {progress : Progress} (isSound : manifest.Sound)
    (consistent : manifest.Consistent) (roots : world.tree.Roots project root)
    (fits : manifest.Fits root world.tree)
    (filled : ∀ text, plan.payload = some text → text ≠ "")
    (rest : ∀ entry ∈ manifest.entries, entry.path ∉ progress.shortfall.paths →
      entry.metIn project world.tree = .present)
    (isLacking : progress.shortfall.isComplete = false) (left : Nat) :
    World.Leaves (passes project manifest plan (left + 1) progress) world fun last after =>
      after.Roots project root ∧ manifest.Fits root after ∧
      (∀ entry ∈ manifest.entries, entry.Done project root manifest plan
        (entry.path ∈ progress.shortfall.paths) world.tree after) ∧
      (∀ entry ∈ manifest.entries, entry.metIn project after = .present) ∧
      last.shortfall = .none ∧ last.attempts = progress.attempts + 1 := by
  unfold passes
  rw [if_neg (by simp [isLacking])]
  refine (leaves_pass_done isSound consistent roots fits).bind fun next after passed => ?_
  obtain ⟨rootsAfter, fitsAfter, done, isShortfall, counted⟩ := passed
  have met (entry : ManifestEntry) (isIn : entry ∈ manifest.entries) :
      entry.metIn project after = .present := by
    have sound := isSound.entry entry isIn
    rw [ManifestEntry.present_iff rootsAfter sound]
    by_cases isNamed : entry.path ∈ progress.shortfall.paths
    · exact ⟨_, (done entry isIn).1 isNamed, accepts_made filled⟩
    · obtain ⟨there, finds, accepted⟩ :=
        (ManifestEntry.present_iff roots sound).mp (rest entry isIn isNamed)
      exact ⟨there, (done entry isIn).2 isNamed there finds, accepted⟩
  rw [lacks_eq_none met] at isShortfall
  have stops : passes project manifest plan left next = (pure next : StateM World Progress) := by
    cases left with
    | zero => rfl
    | succ left =>
        unfold passes
        rw [isShortfall]
        rfl
  rw [stops]
  exact .pure ⟨rootsAfter, fitsAfter, done, met, isShortfall, counted⟩

end StopMotion.Project
