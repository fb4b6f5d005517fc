import StopMotion.Frame.Drive
import StopMotion.Proofs.Frame.Entropy
import StopMotion.Proofs.Frame.Substitution

/-!
# What is cleared

Before any binding is looked at, effects, timers and events are removed and the entropy that
is left is replaced. These edits take up regions of the module, among them every entropy, and
what they put in is said by the rewriter alone.
-/

namespace StopMotion.Frame

open StopMotion.Syntax StopMotion.State

namespace Scene

variable {scene : Scene}

/-- The removals and the replacements of what entropy they leave. -/
def clearings (scene : Scene) : List Edit :=
  let removed := deletions scene.module
  removed ++ (scene.entropyChange removed).edits

/-- The change before any binding is looked at. -/
def clearedChange (scene : Scene) : Change :=
  let noActor : Change :=
    if scene.actors.isEmpty then { notes := ["no component found; artifact left as written"] }
    else {}
  let removed := deletions scene.module
  noActor ++ { edits := removed } ++ scene.entropyChange removed

theorem edits_clearedChange : scene.clearedChange.edits = scene.clearings := by
  unfold clearedChange
  dsimp only
  split <;> rfl

theorem substitutions_clearedChange : scene.clearedChange.substitutions = [] := by
  unfold clearedChange
  dsimp only
  split <;> rfl

/-- A component whose time stands for a clock reads its counter. -/
theorem framed_clearedChange {site : EntropySite} {position : Nat}
    (isSite : site ∈ entropySites (deletions scene.module) scene.module)
    (timed : site.entropy = .clock ∨ site.entropy = .date)
    (found : scene.actorAt? site.span = some position) :
    position ∈ scene.clearedChange.framed := by
  refine List.mem_append_right _ (List.mem_filterMap.mpr ⟨site, List.mem_filter.mpr ⟨isSite, ?_⟩,
    found⟩)
  rcases timed with isClock | isDate
  · rw [isClock]
    decide
  · rw [isDate]
    decide

/-- Every replacement stands for an entropy at a site. -/
theorem exists_of_mem_replacements {parts : List Counted} {drawn : Nat}
    {sites : List EntropySite} {edit : Edit}
    (member : edit ∈ scene.replacements parts drawn sites) :
    ∃ site ∈ sites, ∃ drawn, edit = ⟨site.span, scene.replacement parts drawn site⟩ := by
  induction sites generalizing drawn with
  | nil => cases member
  | cons site rest inductionHypothesis =>
      rcases List.mem_cons.mp member with rfl | more
      · exact ⟨site, by simp, drawn, rfl⟩
      · obtain ⟨other, isOther, drawn, same⟩ := inductionHypothesis more
        exact ⟨other, by simp [isOther], drawn, same⟩

/-- Every site is replaced. -/
theorem exists_mem_replacements (parts : List Counted) (drawn : Nat) {sites : List EntropySite}
    {site : EntropySite} (member : site ∈ sites) :
    ∃ edit ∈ scene.replacements parts drawn sites, edit.span = site.span := by
  induction sites generalizing drawn with
  | nil => cases member
  | cons first rest inductionHypothesis =>
      rcases List.mem_cons.mp member with rfl | more
      · exact ⟨_, List.mem_cons_self, rfl⟩
      · obtain ⟨edit, isEdit, same⟩ := inductionHypothesis _ more
        exact ⟨edit, List.mem_cons_of_mem _ isEdit, same⟩

/-- Where nothing is cleared, no component reads the time and no number is drawn. -/
theorem idle_clearedChange (none : scene.clearings = []) :
    scene.clearedChange.framed = [] ∧ scene.clearedChange.draws = false := by
  obtain ⟨removed, replaced⟩ := List.append_eq_nil_iff.mp none
  have sites : entropySites (deletions scene.module) scene.module = [] := by
    refine List.eq_nil_iff_forall_not_mem.mpr fun site isSite => ?_
    obtain ⟨edit, isEdit, _⟩ :=
      scene.exists_mem_replacements (countedParts scene.module) 0 isSite
    have isEdit : edit ∈ (scene.entropyChange (deletions scene.module)).edits := isEdit
    rw [replaced] at isEdit
    cases isEdit
  have idle : scene.entropyChange (deletions scene.module) = {} := by
    unfold entropyChange
    dsimp only
    rw [sites]
    rfl
  unfold clearedChange
  dsimp only
  rw [idle]
  split <;> exact ⟨rfl, rfl⟩

/-- A clearing is a removal, or it replaces the entropy at a site. -/
theorem cases_of_mem_clearings {edit : Edit} (member : edit ∈ scene.clearings) :
    edit ∈ deletions scene.module ∨
      ∃ site ∈ entropySites (deletions scene.module) scene.module, ∃ drawn,
        edit = ⟨site.span, scene.replacement (countedParts scene.module) drawn site⟩ :=
  (List.mem_append.mp member).imp id exists_of_mem_replacements

/-- Clearings take up regions. -/
theorem region_of_mem_clearings {edit : Edit} (laid : scene.module.Laid)
    (member : edit ∈ scene.clearings) : scene.module.Region edit.span := by
  rcases cases_of_mem_clearings member with removal | ⟨site, isSite, _, rfl⟩
  · exact (clears_of_mem_deletions laid removal).1
  · obtain ⟨expr, held, same, _⟩ := exists_of_mem_entropySites isSite
    dsimp only
    rw [← same]
    exact held.region_expr

/-- An edit of a region replaces something. -/
theorem not_isInsertion_of_region {module : Module} {edit : Edit} (laid : module.Laid)
    (region : module.Region edit.span) : edit.isInsertion = false := by
  have := region.filled laid
  simp only [Edit.isInsertion, beq_eq_false_iff_ne]
  omega

/-- Every entropy of the module is taken up. -/
theorem takenUp_of_entropy? {expr : Expr} (laid : scene.module.Laid)
    (held : scene.module.Holds ⟨_, expr⟩) (entropic : (entropy? expr).isSome = true) :
    TakenUp scene.clearings expr.span := by
  rcases takenUp_or_site laid held entropic with ⟨edit, member, replaces, contains⟩ |
    ⟨site, isSite, contains⟩
  · exact ⟨edit, List.mem_append_left _ member, replaces, contains⟩
  · obtain ⟨edit, member, same⟩ :=
      scene.exists_mem_replacements (countedParts scene.module) 0 isSite
    have isClearing : edit ∈ scene.clearings := List.mem_append_right _ member
    exact ⟨edit, isClearing, not_isInsertion_of_region laid (region_of_mem_clearings laid isClearing),
      by rwa [same]⟩

/-! ## What clearings say -/

variable {source : List Char} {copies : Span → Prop} {names : String → Prop}

/-- What stands for an entropy says a seeded draw for an index, or the time of the frame in the
component around it. -/
theorem worded_replacement {parts : List Counted} {drawn : Nat} {site : EntropySite}
    (seeded : names scene.seeded)
    (indexed : ∀ part ∈ parts, part.span.contains site.span = true → names part.index)
    (clocked : site.entropy = .clock ∨ site.entropy = .date → ∀ position actor,
      scene.actorAt? site.span = some position → scene.actors[position]? = some actor →
        names actor.counter) :
    Worded source copies names (scene.replacement parts drawn site) := by
  have index : Worded source copies names (indexAt parts site.span) := by
    unfold indexAt
    cases found : parts.reverse.find? fun part => part.span.contains site.span with
    | none => exact .sign (by decide : "0" ∈ signs)
    | some part =>
        have around := List.find?_some found
        exact .name (indexed part (List.mem_reverse.mp (List.mem_of_find?_eq_some found)) around)
  have time {clock : String} (timed : site.entropy = .clock ∨ site.entropy = .date)
      (found : scene.clockAt? site.span = some clock) : Worded source copies names clock := by
    obtain ⟨position, isPosition, found⟩ := Option.bind_eq_some_iff.mp found
    obtain ⟨actor, isActor, same⟩ := Option.bind_eq_some_iff.mp found
    cases same
    exact Formula.worded_text ⟨⟨trivial, trivial⟩, trivial⟩
      (clocked timed position actor isPosition isActor)
  unfold replacement
  split
  · exact worded_draw seeded index
  · rename_i isClock found
    exact .between (by decide) (time (.inl isClock) found) (by decide)
  · exact .sign (by decide)
  · rename_i isDate found
    exact .between (by decide) (time (.inr isDate) found) (by decide)
  · exact .sign (by decide)
  · exact .sign (by decide)

/-- What a clearing puts in. -/
theorem worded_of_mem_clearings {edit : Edit} (laid : scene.module.Laid)
    (member : edit ∈ scene.clearings) (seeded : names scene.seeded)
    (indexed : ∀ part ∈ countedParts scene.module, part.span.contains edit.span = true →
      names part.index)
    (clocked : ∀ site ∈ entropySites (deletions scene.module) scene.module,
      site.span = edit.span → site.entropy = .clock ∨ site.entropy = .date →
        ∀ position actor, scene.actorAt? site.span = some position →
          scene.actors[position]? = some actor → names actor.counter) :
    Worded source copies names edit.text := by
  rcases cases_of_mem_clearings member with removal | ⟨site, isSite, drawn, rfl⟩
  · rcases (clears_of_mem_deletions laid removal).2 with nothing | block
    · rw [nothing]
      exact .nothing
    · rw [block]
      exact .sign (by decide)
  · exact worded_replacement seeded indexed (clocked site isSite rfl)

end Scene

end StopMotion.Frame
