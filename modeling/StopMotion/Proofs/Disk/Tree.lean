import StopMotion.Disk.Tree
import StopMotion.Proofs.Disk.Path

/-!
# Where paths lead in a tree

A walk along a path is a walk along its steps: the parts that say nothing only ask that a
folder is where they stand. So a path leads to something exactly when its steps do, and a
path that ends in a part that says nothing when that is a folder besides. What the single
operations do to a tree is stated by the place that the steps lead to.
-/

namespace StopMotion

theorem Except.bind_eq_ok {ε α β : Type} {first : Except ε α} {rest : α → Except ε β}
    {value : β} (done : first >>= rest = .ok value) :
    ∃ middle, first = .ok middle ∧ rest middle = .ok value := by
  cases first with
  | error _ => cases done
  | ok middle => exact ⟨middle, rfl, done⟩

@[simp] theorem Except.ok_bind {ε α β : Type} (value : α) (rest : α → Except ε β) :
    ((.ok value : Except ε α) >>= rest) = rest value := rfl

namespace FileTree

variable {tree after : FileTree} {place other root target : List String} {path : String}

/-! ## Places -/

@[simp] theorem get?_nil : tree.get? [] = some .folder := rfl

@[simp] theorem home_put (entry : Entry) : (tree.put place entry).home = tree.home := rfl

@[simp] theorem home_erase : (tree.erase place).home = tree.home := rfl

theorem lookup_replaced (entries : List (List String × Entry)) (entry : Entry) :
    (entries.map fun (other, old) => (other, if other == place then entry else old)).lookup target =
      if target = place then (entries.lookup place).map fun _ => entry
      else entries.lookup target := by
  induction entries with
  | nil => simp
  | cons head rest inductionHypothesis =>
      obtain ⟨key, old⟩ := head
      simp only [List.map_cons, List.lookup_cons, inductionHypothesis]
      by_cases isKey : target = key
      · subst isKey
        by_cases isPlace : target = place
        · simp [isPlace]
        · simp [isPlace]
      · have notKey : (target == key) = false := by simpa using isKey
        by_cases isPlace : target = place
        · subst isPlace
          simp [notKey]
        · simp [notKey, isPlace]

theorem lookup_erased (entries : List (List String × Entry)) :
    (entries.filter fun (other, _) => other != place).lookup target =
      if target = place then none else entries.lookup target := by
  induction entries with
  | nil => simp
  | cons head rest inductionHypothesis =>
      obtain ⟨key, old⟩ := head
      by_cases isPlace : key = place
      · subst isPlace
        by_cases isTarget : target = key
        · subst isTarget
          simpa using inductionHypothesis
        · have notTarget : (target == key) = false := by simpa using isTarget
          simp [isTarget, inductionHypothesis, List.lookup_cons, notTarget]
      · by_cases isTarget : target = key
        · simp [isTarget, isPlace]
        · have notTarget : (target == key) = false := by simpa using isTarget
          simp [isPlace, inductionHypothesis, List.lookup_cons, notTarget]

theorem get?_put (filled : place ≠ []) (entry : Entry) :
    (tree.put place entry).get? target =
      if target = place then some entry else tree.get? target := by
  cases target with
  | nil => simp [Ne.symm filled]
  | cons name inner =>
      simp only [get?, List.isEmpty_cons, put, Bool.false_eq_true, if_false]
      split
      · rename_i there
        rw [lookup_replaced]
        split
        · obtain ⟨old, isOld⟩ := Option.isSome_iff_exists.mp there
          simp [isOld]
        · rfl
      · rename_i absent
        rw [List.lookup_append]
        by_cases isPlace : name :: inner = place
        · have isNone : tree.entries.lookup place = none := by
            simpa only [Option.not_isSome_iff_eq_none] using absent
          simp [isPlace, isNone]
        · have isOther : (name :: inner == place) = false := by simpa using isPlace
          simp [isPlace, List.lookup_cons, isOther]

theorem ne_nil_of_not_folder (notFolder : tree.get? place ≠ some .folder) : place ≠ [] := by
  rintro rfl
  exact notFolder rfl

/-- Folders stay when something is put where no folder is. -/
theorem folder_put (notFolder : tree.get? place ≠ some .folder) (entry : Entry)
    (there : tree.get? target = some .folder) :
    (tree.put place entry).get? target = some .folder := by
  rw [get?_put (ne_nil_of_not_folder notFolder), if_neg (by rintro rfl; exact notFolder there)]
  exact there

theorem get?_erase (filled : place ≠ []) :
    (tree.erase place).get? target = if target = place then none else tree.get? target := by
  cases target with
  | nil => simp [Ne.symm filled]
  | cons name inner => simp [get?, erase, lookup_erased]

/-- Whatever is in a tree is in a folder. -/
def WellFormed (tree : FileTree) : Prop :=
  ∀ place name, tree.get? (place ++ [name]) ≠ none → tree.get? place = some .folder

/-- Everything on the way to something is a folder. -/
theorem WellFormed.folder_of_append (whole : tree.WellFormed) {inner : List String}
    (filled : inner ≠ []) (there : tree.get? (place ++ inner) ≠ none) :
    tree.get? place = some .folder := by
  have around : tree.get? (place ++ inner.dropLast) = some .folder := by
    refine whole _ (inner.getLast filled) ?_
    rwa [List.append_assoc, List.dropLast_concat_getLast]
  by_cases front : inner.dropLast = []
  · simpa [front] using around
  · exact whole.folder_of_append front (by simp [around])
termination_by inner.length
decreasing_by
  have := List.length_pos_iff.mpr filled
  simp only [List.length_dropLast]
  omega

/-! ## Walks -/

theorem walk_append (left right : List String) :
    tree.walk place (left ++ right) = tree.walk place left >>= fun inner => tree.walk inner right := by
  induction left generalizing place with
  | nil => rfl
  | cons part left inductionHypothesis =>
      simp only [List.cons_append, walk]
      split
      · rfl
      · rfl
      · split
        · exact inductionHypothesis
        · split <;> exact inductionHypothesis

/-- Where a part that says something leads from a folder. -/
def stepTo (place : List String) (part : String) : List String :=
  if part = ".." then place.dropLast else place ++ [part]

theorem walk_blank {part : String} (begins : tree.get? place = some .folder)
    (isBlank : Path.isBlank part) (rest : List String) :
    tree.walk place (part :: rest) = tree.walk place rest := by
  rw [walk, begins]
  exact if_pos (Path.isBlank_iff.mp isBlank)

theorem walk_step {part : String} (begins : tree.get? place = some .folder)
    (speaks : ¬ Path.isBlank part) (rest : List String) :
    tree.walk place (part :: rest) = tree.walk (stepTo place part) rest := by
  rw [walk, begins, stepTo]
  simp only [if_neg (mt Path.isBlank_iff.mpr speaks)]
  split <;> rfl

theorem folder_of_walk_cons {part : String} {rest : List String}
    (walks : tree.walk place (part :: rest) = .ok target) : tree.get? place = some .folder := by
  rw [walk] at walks
  split at walks <;> first | cases walks | assumption

/-- A walk that reaches a folder starts at one. -/
theorem folder_of_walk {parts : List String} (isFolder : tree.get? target = some .folder)
    (walks : tree.walk place parts = .ok target) : tree.get? place = some .folder := by
  cases parts with
  | nil => cases walks; exact isFolder
  | cons part rest => exact folder_of_walk_cons walks

/-- The parts of a walk that say something lead where the walk leads. -/
theorem walk_filter {parts : List String} (walks : tree.walk place parts = .ok target) :
    tree.walk place (parts.filter fun part => !Path.isBlank part) = .ok target := by
  induction parts generalizing place with
  | nil => exact walks
  | cons part rest inductionHypothesis =>
      have begins := folder_of_walk_cons walks
      by_cases isBlank : Path.isBlank part
      · rw [walk_blank begins isBlank] at walks
        rw [List.filter_cons_of_neg (by simp [isBlank])]
        exact inductionHypothesis walks
      · rw [walk_step begins isBlank] at walks
        rw [List.filter_cons_of_pos (by simp [isBlank]), walk_step begins isBlank]
        exact inductionHypothesis walks

/-- Parts that say nothing do not keep a walk from a folder. -/
theorem walk_of_filter {parts : List String} (isFolder : tree.get? target = some .folder)
    (walks : tree.walk place (parts.filter fun part => !Path.isBlank part) = .ok target) :
    tree.walk place parts = .ok target := by
  induction parts generalizing place with
  | nil => exact walks
  | cons part rest inductionHypothesis =>
      have begins := folder_of_walk isFolder walks
      by_cases isBlank : Path.isBlank part
      · rw [List.filter_cons_of_neg (by simp [isBlank])] at walks
        rw [walk_blank begins isBlank]
        exact inductionHypothesis walks
      · rw [List.filter_cons_of_pos (by simp [isBlank]), walk_step begins isBlank] at walks
        rw [walk_step begins isBlank]
        exact inductionHypothesis walks

/-- A walk that ends in a part that says nothing leads to a folder. -/
theorem folder_of_walk_concat {parts : List String} {last : String} (isBlank : Path.isBlank last)
    (walks : tree.walk place (parts ++ [last]) = .ok target) :
    tree.get? target = some .folder := by
  rw [walk_append] at walks
  cases inner : tree.walk place parts with
  | error _ => rw [inner] at walks; cases walks
  | ok around =>
      rw [inner] at walks
      have begins := folder_of_walk_cons walks
      cases (walk_blank begins isBlank []).symm.trans walks
      exact begins

/-- Parts that say nothing make no difference before a part that says something. -/
theorem walk_concat_filter {parts : List String} {last : String} (speaks : ¬ Path.isBlank last) :
    tree.walk place ((parts ++ [last]).filter fun part => !Path.isBlank part) =
      tree.walk place (parts ++ [last]) := by
  induction parts generalizing place with
  | nil => simp [speaks]
  | cons part rest inductionHypothesis =>
      rw [List.cons_append]
      by_cases isBlank : Path.isBlank part
      · rw [List.filter_cons_of_neg (by simp [isBlank]), inductionHypothesis]
        by_cases begins : tree.get? place = some .folder
        · rw [walk_blank begins isBlank]
        · obtain ⟨first, more, isCons⟩ := List.exists_cons_of_ne_nil
            (List.append_ne_nil_of_right_ne_nil rest (List.cons_ne_nil last []))
          rw [isCons, walk, walk]
          split
          · rfl
          · rfl
          · exact absurd ‹_› begins
      · rw [List.filter_cons_of_pos (by simp [isBlank])]
        by_cases begins : tree.get? place = some .folder
        · rw [walk_step begins isBlank, walk_step begins isBlank, inductionHypothesis]
        · rw [walk, walk]
          split
          · rfl
          · rfl
          · exact absurd ‹_› begins

/-- A walk goes on where everything that it needs to be a folder is one. -/
theorem walk_mono (folders : ∀ place, tree.get? place = some .folder →
      after.get? place = some .folder) {parts : List String}
    (walks : tree.walk place parts = .ok target) : after.walk place parts = .ok target := by
  induction parts generalizing place with
  | nil => exact walks
  | cons part rest inductionHypothesis =>
      have begins := folder_of_walk_cons walks
      by_cases isBlank : Path.isBlank part
      · rw [walk_blank begins isBlank] at walks
        rw [walk_blank (folders _ begins) isBlank]
        exact inductionHypothesis walks
      · rw [walk_step begins isBlank] at walks
        rw [walk_step (folders _ begins) isBlank]
        exact inductionHypothesis walks

/-- Steps that go on inwards. -/
def Inward (names : List String) : Prop :=
  ∀ name ∈ names, ¬ Path.isBlank name ∧ name ≠ ".."

theorem Inward.of_append {front last : List String} (inward : Inward (front ++ last)) :
    Inward front :=
  fun name isIn => inward name (List.mem_append_left _ isIn)

/-- A walk inwards leads straight on, through folders. -/
theorem walk_inward {names : List String} (inward : Inward names) :
    tree.walk place names = .ok target ↔ target = place ++ names ∧
      ∀ inner last, names = inner ++ last → last ≠ [] →
        tree.get? (place ++ inner) = some .folder := by
  induction names generalizing place with
  | nil =>
      constructor
      · intro walks
        cases walks
        exact ⟨by simp, fun inner last isNil filled => absurd (by simp_all) filled⟩
      · rintro ⟨rfl, -⟩
        simp [walk]
  | cons name rest inductionHypothesis =>
      have inwardRest : Inward rest := fun other isIn => inward other (.tail _ isIn)
      obtain ⟨speaks, notUp⟩ := inward name (.head _)
      have isStep : stepTo place name = place ++ [name] := if_neg notUp
      constructor
      · intro walks
        have begins := folder_of_walk_cons walks
        rw [walk_step begins speaks, isStep] at walks
        obtain ⟨isTarget, folders⟩ := (inductionHypothesis inwardRest).mp walks
        refine ⟨by simpa using isTarget, fun inner last isNames filled => ?_⟩
        cases inner with
        | nil => simpa using begins
        | cons _ inner =>
            obtain ⟨rfl, isRest⟩ := List.cons.inj isNames
            simpa using folders inner last isRest filled
      · rintro ⟨isTarget, folders⟩
        have begins : tree.get? place = some .folder := by
          simpa using folders [] (name :: rest) rfl (by simp)
        rw [walk_step begins speaks, isStep, inductionHypothesis inwardRest]
        refine ⟨by simpa using isTarget, fun inner last isRest filled => ?_⟩
        simpa using folders (name :: inner) last (by simp [isRest]) filled

/-- If no file is in the way, a walk inwards ends only where something is missing. -/
theorem walk_inward_of_clear {names : List String} (inward : Inward names)
    (clear : ∀ inner last, names = inner ++ last → last ≠ [] →
      ∀ text, tree.get? (place ++ inner) ≠ some (.file text)) :
    tree.walk place names = .ok (place ++ names) ∨ tree.walk place names = .error .notFound := by
  induction names generalizing place with
  | nil => exact .inl (by simp [walk])
  | cons name rest inductionHypothesis =>
      obtain ⟨speaks, notUp⟩ := inward name (.head _)
      cases begins : tree.get? place with
      | none => exact .inr (by rw [walk, begins])
      | some entry =>
          cases entry with
          | file text => exact absurd begins (by simpa using clear [] _ rfl (by simp) text)
          | folder =>
              have isStep : stepTo place name = place ++ [name] := if_neg notUp
              rw [walk_step begins speaks, isStep]
              have clearRest (inner last : List String) (isRest : rest = inner ++ last)
                  (filled : last ≠ []) (text : String) :
                  tree.get? (place ++ [name] ++ inner) ≠ some (.file text) := by
                simpa using clear (name :: inner) last (by simp [isRest]) filled text
              simpa using inductionHypothesis
                (fun other isIn => inward other (.tail _ isIn)) clearRest

/-- A walk that does not reach its end misses something or meets a file. -/
theorem error_of_walk {parts : List String} {error : HostError}
    (strays : tree.walk place parts = .error error) : error = .notFound ∨ error = .notFolder := by
  induction parts generalizing place with
  | nil => cases strays
  | cons part rest inductionHypothesis =>
      rw [walk] at strays
      split at strays
      · cases strays
        exact .inl rfl
      · cases strays
        exact .inr rfl
      · split at strays
        · exact inductionHypothesis strays
        · split at strays <;> exact inductionHypothesis strays

/-! ## Where a path leads -/

/-- The place that a path starts at. -/
def start (tree : FileTree) (path : String) : List String :=
  if Path.isAbsolute path then [] else tree.home

/-- The steps of a path lead to a place. -/
def Leads (tree : FileTree) (path : String) (place : List String) : Prop :=
  tree.walk (tree.start path) (Path.steps path) = .ok place

theorem Leads.unique (leads : tree.Leads path place) (others : tree.Leads path other) :
    place = other :=
  Except.ok.inj (leads.symm.trans others)

theorem leads_of_locate (located : tree.locate path = .ok place) : tree.Leads path place := by
  rw [locate] at located
  split at located
  · cases located
  · exact walk_filter located

theorem Leads.locate_folder (leads : tree.Leads path place) (filled : path ≠ "")
    (isFolder : tree.get? place = some .folder) : tree.locate path = .ok place := by
  rw [locate, if_neg (by simpa using filled)]
  exact walk_of_filter isFolder leads

theorem folder_of_endsBlank (located : tree.locate path = .ok place)
    (ends : Path.EndsBlank path) : tree.get? place = some .folder := by
  obtain ⟨last, isLast, isBlank⟩ := ends
  obtain ⟨front, isParts⟩ := List.getLast?_eq_some_iff.mp isLast
  rw [locate] at located
  split at located
  · cases located
  · rw [isParts] at located
    exact folder_of_walk_concat isBlank located

/-- A path is walked along its steps if its last part says something. -/
theorem locate_eq (speaks : ¬ Path.EndsBlank path) :
    tree.locate path = tree.walk (tree.start path) (Path.steps path) := by
  obtain ⟨front, last, isParts⟩ :=
    (List.eq_nil_or_concat (Path.parts path)).resolve_left (Path.split_ne_nil _)
  have isLast : ¬ Path.isBlank last := fun isBlank => speaks ⟨last, by simp [isParts], isBlank⟩
  have filled : path ≠ "" := Path.ne_empty_of_speaks speaks
  rw [List.concat_eq_append] at isParts
  rw [locate, if_neg (by simpa using filled), Path.steps_eq, isParts, walk_concat_filter isLast]
  rfl

/-- A path finds what its steps lead to, but only a folder if it ends in a part that says
nothing. -/
theorem find_eq_ok_iff {entry : Entry} : tree.find path = .ok (place, entry) ↔
    path ≠ "" ∧ tree.Leads path place ∧ tree.get? place = some entry ∧
      (Path.EndsBlank path → entry = .folder) := by
  constructor
  · intro found
    obtain ⟨inner, located, found⟩ := Except.bind_eq_ok found
    split at found
    · rename_i there
      cases found
      refine ⟨?_, leads_of_locate located, there, fun ends => ?_⟩
      · rintro rfl
        cases located
      · exact Option.some.inj (there.symm.trans (folder_of_endsBlank located ends))
    · cases found
  · rintro ⟨filled, leads, there, ends⟩
    have located : tree.locate path = .ok place := by
      by_cases isBlank : Path.EndsBlank path
      · exact leads.locate_folder filled (ends isBlank ▸ there)
      · exact (locate_eq isBlank).trans leads
    rw [find, located, Except.ok_bind, there]
    rfl

/-! ## What the operations do -/

section Operations

variable {text : String}

/-- The slashes at the end of a path do not matter for where it leads. -/
theorem leads_trimSlashes (filled : Path.trimSlashes path ≠ "") :
    tree.Leads (Path.trimSlashes path) place ↔ tree.Leads path place := by
  rw [Leads, Leads, start, start, Path.isAbsolute_trimSlashes filled, Path.steps_trimSlashes]

theorem leads_of_locateNew (located : tree.locateNew path = .ok place) :
    tree.Leads path place := by
  rw [locateNew] at located
  by_cases filled : Path.trimSlashes path = ""
  · exact leads_of_locate (by simpa [filled] using located)
  · exact (leads_trimSlashes filled).mp (leads_of_locate (by simpa [filled] using located))

theorem locateNew_eq (speaks : ¬ Path.EndsBlank (Path.trimSlashes path)) :
    tree.locateNew path = tree.walk (tree.start path) (Path.steps path) := by
  have filled := Path.ne_empty_of_speaks speaks
  rw [locateNew, if_neg (by simpa using filled), locate_eq speaks, start, start,
    Path.isAbsolute_trimSlashes filled, Path.steps_trimSlashes]

theorem Leads.locateNew_folder (leads : tree.Leads path place) (filled : path ≠ "")
    (isFolder : tree.get? place = some .folder) : tree.locateNew path = .ok place := by
  rw [locateNew]
  by_cases trimmed : Path.trimSlashes path = ""
  · simpa [trimmed] using leads.locate_folder filled isFolder
  · simpa [trimmed] using
      ((leads_trimSlashes trimmed).mpr leads).locate_folder trimmed isFolder

/-- A folder is made where nothing is. -/
theorem exists_of_makeFolder (made : tree.makeFolder path = .ok after) :
    ∃ place, tree.Leads path place ∧ tree.get? place = none ∧ after = tree.put place .folder := by
  obtain ⟨place, located, made⟩ := Except.bind_eq_ok made
  split at made
  · cases made
  · exact ⟨place, leads_of_locateNew located, ‹_›, (Except.ok.inj made).symm⟩

theorem Leads.makeFolder_vacant (leads : tree.Leads path place)
    (speaks : ¬ Path.EndsBlank (Path.trimSlashes path)) (vacant : tree.get? place = none) :
    tree.makeFolder path = .ok (tree.put place .folder) := by
  have located : tree.locateNew path = .ok place := (locateNew_eq speaks).trans leads
  rw [makeFolder, located, Except.ok_bind, vacant]
  rfl

theorem Leads.makeFolder_folder (leads : tree.Leads path place) (filled : path ≠ "")
    (isFolder : tree.get? place = some .folder) :
    tree.makeFolder path = .error .alreadyThere := by
  rw [makeFolder, leads.locateNew_folder filled isFolder, Except.ok_bind, isFolder]
  rfl

/-- Nothing is created where something is, and nothing where a path does not lead. -/
theorem Leads.create_vacant (leads : tree.Leads path place) (speaks : ¬ Path.EndsBlank path)
    (vacant : tree.get? place = none) (text : String) :
    tree.create path text = .ok (tree.put place (.file text)) := by
  have isTrimmed := Path.trimSlashes_of_endsInSlash (Path.endsInSlash_of_speaks speaks)
  have located : tree.locateNew path = .ok place :=
    (locateNew_eq (isTrimmed.symm ▸ speaks)).trans leads
  rw [create, located, Except.ok_bind, vacant]
  rfl

theorem Leads.create_there (leads : tree.Leads path place) (speaks : ¬ Path.EndsBlank path)
    (there : tree.get? place ≠ none) (text : String) :
    tree.create path text = .error .alreadyThere := by
  have isTrimmed := Path.trimSlashes_of_endsInSlash (Path.endsInSlash_of_speaks speaks)
  have located : tree.locateNew path = .ok place :=
    (locateNew_eq (isTrimmed.symm ▸ speaks)).trans leads
  obtain ⟨entry, isEntry⟩ := Option.ne_none_iff_exists'.mp there
  rw [create, located, Except.ok_bind, isEntry]
  rfl

theorem create_astray (speaks : ¬ Path.EndsBlank path)
    (strays : ∀ place, ¬ tree.Leads path place) (text : String) :
    ∃ error, error ≠ .alreadyThere ∧ tree.create path text = .error error := by
  have isTrimmed := Path.trimSlashes_of_endsInSlash (Path.endsInSlash_of_speaks speaks)
  cases walks : tree.walk (tree.start path) (Path.steps path) with
  | ok place => exact absurd walks (strays place)
  | error error =>
      refine ⟨error, ?_, ?_⟩
      · rcases error_of_walk walks with rfl | rfl <;> nofun
      · rw [create, locateNew_eq (isTrimmed.symm ▸ speaks), walks]
        rfl

/-- A file is moved over what is no folder. -/
theorem exists_of_replace (made : tree.replace path text = .ok after) :
    ∃ place, tree.Leads path place ∧ tree.get? place ≠ some .folder ∧
      (Path.endsInSlash path = false → ¬ Path.EndsBlank path) ∧
      after = tree.put place (.file text) := by
  obtain ⟨place, located, made⟩ := Except.bind_eq_ok made
  dsimp only at made
  split at made
  · cases made
  · split at made
    · cases made
    · rename_i notFolder
      refine ⟨place, leads_of_locateNew located, notFolder, fun ends isBlank => notFolder ?_,
        (Except.ok.inj made).symm⟩
      have onPath : tree.locate path = .ok place := by
        rw [locateNew, Path.trimSlashes_of_endsInSlash ends] at located
        simpa using located
      exact folder_of_endsBlank onPath isBlank

theorem Leads.replace_file (leads : tree.Leads path place) (speaks : ¬ Path.EndsBlank path)
    (notUp : (Path.steps path).getLast? ≠ some "..") (notFolder : tree.get? place ≠ some .folder)
    (text : String) : tree.replace path text = .ok (tree.put place (.file text)) := by
  have isTrimmed := Path.trimSlashes_of_endsInSlash (Path.endsInSlash_of_speaks speaks)
  have located : tree.locateNew path = .ok place :=
    (locateNew_eq (isTrimmed.symm ▸ speaks)).trans leads
  have named : endsInDots path = false := by
    rw [Path.getLast?_steps speaks] at notUp
    rw [endsInDots, isTrimmed]
    cases isLast : (Path.parts path).getLast? with
    | none => rfl
    | some last =>
        have notDot : last ≠ "." := fun isDot => speaks ⟨last, isLast, by simp [isDot, Path.isBlank]⟩
        have notDots : last ≠ ".." := fun isDots => notUp (isLast.trans (congrArg some isDots))
        simp [notDot, notDots]
  rw [replace, located, Except.ok_bind]
  cases there : tree.get? place with
  | none => simp [named, Pure.pure, Except.pure]
  | some entry =>
      cases entry with
      | folder => exact absurd there notFolder
      | file _ => simp [named, Pure.pure, Except.pure]

theorem exists_of_read (found : tree.read path = .ok text) :
    ∃ place, tree.find path = .ok (place, .file text) := by
  obtain ⟨⟨place, entry⟩, there, found⟩ := Except.bind_eq_ok found
  split at found
  · cases found
    simp_all
  · cases found

theorem remove_of_find (there : tree.find path = .ok (place, .file text)) :
    tree.remove path = .ok (tree.erase place) := by
  rw [remove, there]
  rfl

end Operations

end FileTree

end StopMotion
