import StopMotion.Proofs.Disk.Growth

/-!
# Where no file is in the way

A folder can be made with those around it if no file is on the way to it, and a file can be put
where besides no folder is. The induction is on the chain of folders around a path: a folder
that cannot be made yet misses the one around it, which is made first.
-/

namespace StopMotion.FileTree

variable {tree after : FileTree} {root names place : List String} {project path : String}
  {world : World}

/-- No file is on the way from a folder by some names. -/
def Clear (tree : FileTree) (root names : List String) : Prop :=
  ∀ inner last, names = inner ++ last → ∀ text, tree.get? (root ++ inner) ≠ some (.file text)

theorem Clear.of_append {front last : List String} (clear : tree.Clear root (front ++ last)) :
    tree.Clear root front :=
  fun inner rest isFront => clear inner (rest ++ last) (by simp [isFront])

theorem Clear.widens {may : List String → Prop} (clear : tree.Clear root names)
    (widens : tree.Widens may after) : after.Clear root names :=
  fun inner last isNames text there => clear inner last isNames text (widens.file.mp there)

/-- A folder can be made where a path leads, unless it is there. -/
theorem leaves_makeFolder_led (leads : world.tree.Leads path place)
    (noFile : ∀ text, world.tree.get? place ≠ some (.file text)) (filled : path ≠ "")
    (speaks : ¬ Path.EndsBlank (Path.trimSlashes path) ∨ world.tree.get? place = some .folder) :
    World.Leaves (Host.makeFolder path) world fun answer after => after.Roots path place ∧
      (answer = .ok () ∨ answer = .error .alreadyThere) := by
  refine (World.leaves_change _).mono fun answer after changed => ?_
  cases there : world.tree.get? place with
  | none =>
      have makes := leads.makeFolder_vacant (speaks.resolve_right (by simp [there])) there
      rcases changed with ⟨rfl, made⟩ | ⟨error, -, refused, -⟩
      · obtain rfl := Except.ok.inj (makes.symm.trans made)
        have widens : world.tree.Widens (fun _ => True) (world.tree.put place .folder) :=
          (Widens.refl _).put there trivial
        have notFolder : world.tree.get? place ≠ some .folder := by simp [there]
        refine ⟨⟨leads.mono widens.home widens.folder, ?_⟩, .inl rfl⟩
        rw [get?_put (ne_nil_of_not_folder notFolder), if_pos rfl]
      · cases makes.symm.trans refused
  | some entry =>
      cases entry with
      | file text => exact absurd there (noFile text)
      | folder =>
          have refuses := leads.makeFolder_folder filled there
          rcases changed with ⟨rfl, made⟩ | ⟨error, rfl, refused, rfl⟩
          · cases refuses.symm.trans made
          · cases refuses.symm.trans refused
            exact ⟨⟨leads, there⟩, .inr rfl⟩

section Rooted

variable (roots : world.tree.Roots project root) (inward : Inward names)
  (goesOn : Path.GoesOn project names path) (clear : world.tree.Clear root names)
  (filled : path ≠ "") (speaks : ¬ Path.EndsBlank (Path.trimSlashes path) ∨ names = [])

include roots inward goesOn clear

/-- Where no file is in the way, a folder that cannot be made misses one around it. -/
theorem leaves_makeFolder_astray (strays : ∀ place, ¬ world.tree.Leads path place)
    (speaks : ¬ Path.EndsBlank (Path.trimSlashes path)) :
    World.Leaves (Host.makeFolder path) world fun answer after =>
      answer = .error .notFound ∧ after = world.tree := by
  have refuses : world.tree.makeFolder path = .error .notFound := by
    rw [makeFolder, locateNew_eq speaks]
    rcases walk_inward_of_clear inward fun inner last isNames _ => clear inner last isNames with
      reaches | missing
    · exact absurd ((roots.walk_eq goesOn).trans reaches) (strays _)
    · rw [roots.walk_eq goesOn, missing]
      rfl
  refine (World.leaves_change _).mono fun answer after changed => ?_
  rcases changed with ⟨-, made⟩ | ⟨error, rfl, refused, rfl⟩
  · cases refuses.symm.trans made
  · cases refuses.symm.trans refused
    exact ⟨rfl, rfl⟩

include filled speaks

/-- A folder is made where no file is in the way, if the folders around it are made where they
are needed. -/
theorem leaves_makeChain_cons {around : List String}
    (rest : (∀ place, ¬ world.tree.Leads path place) → names ≠ [] →
      World.Leaves (Files.makeChain around) world fun answer after => answer = .ok () ∧
        after.Leads path (root ++ names) ∧ after.Clear root names) :
    World.Leaves (Files.makeChain (path :: around)) world fun answer after =>
      answer = .ok () ∧ after.Roots path (root ++ names) := by
  have there (error : HostError) (tree : FileTree) (roots : tree.Roots path (root ++ names)) :
      World.Leaves (Files.unlessThere path error) { world with tree } fun answer after =>
        answer = .ok () ∧ after.Roots path (root ++ names) :=
    (World.leaves_unlessThere path error).mono fun _ _ answered =>
      ⟨answered.2 ⟨_, roots.find filled⟩, answered.1 ▸ roots⟩
  have suits (tree : FileTree) (stays : tree.get? root = some .folder) :
      ¬ Path.EndsBlank (Path.trimSlashes path) ∨ tree.get? (root ++ names) = some .folder :=
    speaks.imp_right fun isNil => by simpa [isNil] using stays
  unfold Files.makeChain
  by_cases leads : world.tree.Leads path (root ++ names)
  · refine (leaves_makeFolder_led leads (clear names [] (by simp)) filled
      (suits _ roots.folder)).bind fun answer tree made => ?_
    obtain ⟨rootsPath, rfl | rfl⟩ := made
    · exact .pure ⟨rfl, rootsPath⟩
    · exact there _ _ rootsPath
  · have strays (place : List String) : ¬ world.tree.Leads path place := by
      intro leadsTo
      obtain ⟨rfl, -⟩ := (roots.leads_iff inward goesOn).mp leadsTo
      exact leads leadsTo
    have named : names ≠ [] := by
      rintro rfl
      exact strays _ (roots.onwards_nil goesOn).leads
    have speaks := speaks.resolve_right named
    refine (leaves_makeFolder_astray roots inward goesOn clear strays speaks).bind
      fun answer tree refused => ?_
    obtain ⟨rfl, rfl⟩ := refused
    refine (rest strays named).bind fun answer tree made => ?_
    obtain ⟨rfl, leads, clear⟩ := made
    refine (leaves_makeFolder_led leads (clear names [] (by simp)) filled (.inl speaks)).bind
      fun answer tree made => ?_
    obtain ⟨rootsPath, rfl | rfl⟩ := made
    · exact .pure ⟨rfl, rootsPath⟩
    · exact there _ _ rootsPath

end Rooted

/-- A path goes on from the folder around it. -/
theorem Roots.leads_of_parent {parent : String} {front last : List String}
    (roots : tree.Roots project root) (inward : Inward (front ++ last))
    (goesOn : Path.GoesOn project (front ++ last) path) (isLast : last.length = 1)
    (onwards : Path.GoesOn project front parent) (rootsParent : tree.Roots parent (root ++ front)) :
    tree.Leads path (root ++ (front ++ last)) := by
  rw [roots.leads_iff inward goesOn]
  refine ⟨rfl, fun inner rest isNames filled => ?_⟩
  have restLength := List.length_pos_iff.mpr filled
  have folders := ((roots.leads_iff inward.of_append onwards).mp rootsParent.leads).2
  rcases List.append_eq_append_iff.mp isNames with ⟨middle, rfl, isRest⟩ | ⟨middle, rfl, isRest⟩
  · have short := congrArg List.length isRest
    rw [List.length_append] at short
    obtain rfl : middle = [] := List.length_eq_zero_iff.mp (by omega)
    simpa using rootsParent.folder
  · by_cases isNil : middle = []
    · subst isNil
      simpa using rootsParent.folder
    · exact folders inner middle rfl isNil

/-- A folder is made with those around it where no file is in the way. -/
theorem leaves_makeAncestors_ok {fuel : Nat} (roots : world.tree.Roots project root)
    (inward : Inward names) (goesOn : Path.GoesOn project names path)
    (clear : world.tree.Clear root names) (filled : path ≠ "")
    (speaks : ¬ Path.EndsBlank (Path.trimSlashes path) ∨ names = [])
    (enough : path.length < fuel) :
    World.Leaves (Files.makeChain (Path.ancestors fuel path)) world fun answer after =>
      answer = .ok () ∧ after.Roots path (root ++ names) := by
  induction fuel generalizing path names with
  | zero => omega
  | succ fuel inductionHypothesis =>
      unfold Path.ancestors
      rw [if_neg (by simpa using filled)]
      split
      · rename_i parent isParent
        refine leaves_makeChain_cons roots inward goesOn clear filled speaks
          fun strays named => ?_
        obtain ⟨front, last, rfl, isLast, onwards⟩ := goesOn.parent named isParent
        have speaksParent := onwards.speaks_parent isParent
        have notStart : parent ≠ "" := by
          rintro rfl
          obtain rfl : front = [] := (List.append_eq_nil_iff.mp onwards.steps_eq.symm).2
          exact strays _ (roots.leads_of_parent inward goesOn isLast onwards
            (by simpa using roots.onwards_nil onwards))
        rw [if_neg notStart] at onwards speaksParent
        have short := Path.length_of_parent? isParent
        refine ((inductionHypothesis inward.of_append onwards clear.of_append notStart speaksParent
          (by omega)).and (leaves_makeAncestors roots inward.of_append fuel
            fun _ => onwards)).mono fun answer after made => ?_
        obtain ⟨⟨isOk, rootsParent⟩, widens⟩ := made
        exact ⟨isOk, (roots.widens widens).leads_of_parent inward goesOn isLast onwards rootsParent,
          clear.widens widens⟩
      · rename_i isTop
        refine leaves_makeChain_cons roots inward goesOn clear filled speaks
          fun strays named => ?_
        have noSteps := goesOn.steps_eq ▸ Path.steps_of_parent?_eq_none isTop
        exact absurd (List.append_eq_nil_iff.mp noSteps).2 named

theorem leaves_replace_led (leads : world.tree.Leads path place)
    (speaks : ¬ Path.EndsBlank path) (notUp : (Path.steps path).getLast? ≠ some "..")
    (notFolder : world.tree.get? place ≠ some .folder) (text : String) :
    World.Leaves (Host.replace path text) world fun answer after => answer = .ok () ∧
      after.find path = .ok (place, .file text) := by
  have puts := leads.replace_file speaks notUp notFolder text
  refine (World.leaves_change _).mono fun answer after changed => ?_
  rcases changed with ⟨rfl, replaced⟩ | ⟨error, -, refused, -⟩
  · obtain rfl := Except.ok.inj (puts.symm.trans replaced)
    refine ⟨rfl, find_eq_ok_iff.mpr ⟨Path.ne_empty_of_speaks speaks, ?_, ?_, ?_⟩⟩
    · exact leads.mono rfl fun _ => folder_put notFolder _
    · rw [get?_put (ne_nil_of_not_folder notFolder), if_pos rfl]
    · exact fun ends => absurd ends speaks
  · cases puts.symm.trans refused

/-- A file is put where neither a file is in the way nor a folder is in its place. -/
theorem leaves_place_ok {name : String} (roots : world.tree.Roots project root)
    (inward : Inward (names ++ [name])) (goesOn : Path.GoesOn project (names ++ [name]) path)
    (clear : world.tree.Clear root names)
    (notFolder : world.tree.get? (root ++ (names ++ [name])) ≠ some .folder)
    (speaks : ¬ Path.EndsBlank path) (text : String) :
    World.Leaves (Files.place path text) world fun answer after => answer = .ok () ∧
      after.find path = .ok (root ++ (names ++ [name]), .file text) := by
  have named : names ++ [name] ≠ [] := by simp
  cases isParent : Path.parent? path with
  | none =>
      have noSteps := goesOn.steps_eq ▸ Path.steps_of_parent?_eq_none isParent
      exact absurd (List.append_eq_nil_iff.mp noSteps).2 named
  | some parent =>
      obtain ⟨front, last, isNames, isLast, onwards⟩ := goesOn.parent named isParent
      obtain ⟨rfl, rfl⟩ := List.append_inj' isNames isLast.symm
      have speaksParent := onwards.speaks_parent isParent
      unfold Files.place
      rw [Path.namedParent?_getD isParent]
      have filled : (if parent = "" then "." else parent) ≠ "" := by
        split
        · decide
        · assumption
      generalize (if parent = "" then "." else parent) = folder at onwards speaksParent filled ⊢
      refine ((leaves_makeAncestors_ok roots inward.of_append onwards clear filled speaksParent
        (Nat.lt_succ_self _)).and (leaves_makeAncestors roots inward.of_append _
          fun _ => onwards)).bind fun answer tree made => ?_
      obtain ⟨⟨rfl, rootsParent⟩, widens⟩ := made
      have leads := (roots.widens widens).leads_of_parent inward goesOn isLast onwards rootsParent
      have notThere : tree.get? (root ++ (names ++ [name])) ≠ some .folder := by
        rwa [widens.elsewhere]
        rintro ⟨inner, last, -, rfl, isPlace⟩
        simpa using congrArg List.length isPlace
      have notUp : (Path.steps path).getLast? ≠ some ".." := by
        rw [goesOn.steps_eq, ← List.append_assoc, List.getLast?_concat]
        exact fun isUp => (inward name (by simp)).2 (Option.some.inj isUp)
      exact leaves_replace_led leads speaks notUp notThere text

end StopMotion.FileTree
