import Mathlib.Data.List.Induction
import StopMotion.Proofs.State.Callable
import StopMotion.Proofs.State.Frozen
import StopMotion.Proofs.State.Reach

/-!
# The timer that counts

A timer goes through the bodies that its callback leads to, and a call in one of them is put down
to the first timer of the component that goes through it. Where no body that calls a setter is
shared, every timer that leads to a call of it is known as one, and a setter that timers give
values to follows the last of them; a note tells of it if there is more than one.
-/

namespace StopMotion.State

open StopMotion.Syntax

namespace Search

variable {search : Search} {callable body : Callable} {start : Expr} {site : TimerSite}
  {exprs : List Expr} {bodies : List Span}

/-! ## Timers and bodies -/

/-- An expression starts a timer that goes through a body. -/
def Drives (search : Search) (start : Expr) (body : Callable) : Prop :=
  ∃ callable intervalMs, search.timer? start = some (callable, intervalMs) ∧
    search.Reaches callable body

/-- A body that some timer of the component goes through. -/
def Driven (search : Search) (body : Callable) : Prop :=
  ∃ start ∈ search.component.callable.exprs, search.Drives start body

/-- A site among some expressions: one of them starts a timer that goes through the body where the
call is made, and none before it does. -/
structure First (search : Search) (exprs : List Expr) (site : TimerSite) (start : Expr)
    (body : Callable) : Prop where
  starts : ∃ callable, search.timer? start = some (callable, site.intervalMs) ∧
    search.Reaches callable body
  isOwn : site.call ∈ search.ownCalls body
  order : site.order = start.span.start
  isFirst : ∃ before after, exprs = before ++ start :: after ∧
    ∀ earlier ∈ before, ¬ search.Drives earlier body

/-- The sites among some expressions and one behind them. -/
theorem exists_first_concat :
    (∃ start' body, search.First (exprs ++ [start]) site start' body) ↔
      (∃ start' body, search.First exprs site start' body) ∨
        ∃ callable body, search.timer? start = some (callable, site.intervalMs) ∧
          search.Reaches callable body ∧ site.call ∈ search.ownCalls body ∧
            site.order = start.span.start ∧ ∀ earlier ∈ exprs, ¬ search.Drives earlier body := by
  constructor
  · rintro ⟨start', body, ⟨callable, starts, reaches⟩, isOwn, order, before, after, parted, isFirst⟩
    rcases List.eq_nil_or_concat after with rfl | ⟨after', last, rfl⟩
    · obtain ⟨rfl, same⟩ := List.append_inj' parted rfl
      obtain rfl := List.singleton_inj.mp same
      exact .inr ⟨callable, body, starts, reaches, isOwn, order, isFirst⟩
    · rw [List.concat_eq_append, ← List.cons_append, ← List.append_assoc] at parted
      obtain ⟨rfl, -⟩ := List.append_inj' parted rfl
      exact .inl ⟨start', body, ⟨callable, starts, reaches⟩, isOwn, order, before, after', rfl,
        isFirst⟩
  · rintro (⟨start', body, starts, isOwn, order, before, after, rfl, isFirst⟩ |
      ⟨callable, body, starts, reaches, isOwn, order, isFirst⟩)
    · exact ⟨start', body, starts, isOwn, order, before, after ++ [start], by simp, isFirst⟩
    · exact ⟨start, body, ⟨callable, starts, reaches⟩, isOwn, order, exprs, [], rfl, isFirst⟩

/-- What the timer that an expression starts adds to the sites and to the bodies seen. -/
def addTimer (search : Search) (state : List TimerSite × List Span) (start : Expr) :
    List TimerSite × List Span :=
  match search.timer? start with
  | none => state
  | some (callable, intervalMs) =>
    let found := search.reached callable state.2
    (state.1 ++ found.calls.map fun call => ⟨call, intervalMs, start.span.start⟩, found.seen)

theorem timerSites_eq (search : Search) : search.timerSites =
    (search.component.callable.exprs.foldl search.addTimer ([], [])).1 := rfl

/-- What is known when the timers that some expressions start were gone through. -/
structure Gone (search : Search) (exprs : List Expr) (state : List TimerSite × List Span) :
    Prop where
  nodup : state.2.Nodup
  closed : search.Closed search.Driven state.2
  mem_seen (span : Span) :
    span ∈ state.2 ↔ ∃ start ∈ exprs, ∃ body, search.Drives start body ∧ body.span = span
  mem_sites (site : TimerSite) :
    site ∈ state.1 ↔ ∃ start body, search.First exprs site start body

variable {state : List TimerSite × List Span}

/-- The bodies that timers go through call no others. -/
theorem Driven.callee (driven : search.Driven body) {callee : Callable}
    (isCallee : callee ∈ search.callees body) : search.Driven callee := by
  obtain ⟨start, isExpr, callable, intervalMs, starts, reaches⟩ := driven
  exact ⟨start, isExpr, callable, intervalMs, starts, .tail reaches isCallee⟩

/-- A body was gone through if a timer goes through it. -/
theorem Gone.span_mem_iff (gone : search.Gone exprs state) (few : search.Few search.Driven bodies)
    (within : exprs ⊆ search.component.callable.exprs) (driven : search.Driven body) :
    body.span ∈ state.2 ↔ ∃ start ∈ exprs, search.Drives start body := by
  rw [gone.mem_seen]
  constructor
  · rintro ⟨start, isExpr, body', drives, same⟩
    rw [few.eq_of_span_eq ⟨start, within isExpr, drives⟩ driven same] at drives
    exact ⟨start, isExpr, drives⟩
  · rintro ⟨start, isExpr, drives⟩
    exact ⟨start, isExpr, body, drives, rfl⟩

theorem drives_iff {intervalMs : Float}
    (starts : search.timer? start = some (callable, intervalMs)) :
    search.Drives start body ↔ search.Reaches callable body := by
  simp [Drives, starts]

/-- A timer's search goes through the bodies that the timer goes through and no earlier one does. -/
theorem Gone.visits (gone : search.Gone exprs state) (few : search.Few search.Driven bodies)
    (within : exprs ⊆ search.component.callable.exprs)
    (isExpr : start ∈ search.component.callable.exprs) {intervalMs : Float}
    (starts : search.timer? start = some (callable, intervalMs)) :
    search.Visits state.2 (fun body => search.Drives start body ∧ body.span ∉ state.2)
        (search.reached callable state.2) ∧
      search.Closed search.Driven (search.reached callable state.2).seen := by
  have isKnown : search.Driven callable := ⟨start, isExpr, (drives_iff starts).mpr .refl⟩
  have areKnown : ∀ root ∈ [callable], search.Driven root := by simpa using isKnown
  have seenBodies : state.2 ⊆ bodies := by
    intro span isSeen
    obtain ⟨start, isExpr, body, drives, rfl⟩ := (gone.mem_seen span).mp isSeen
    have driven : search.Driven body := ⟨start, within isExpr, drives⟩
    exact few.span driven
  obtain ⟨visited, covers⟩ : ∃ visited,
      search.Covers state.2 [callable] visited (search.reached callable state.2) :=
    exists_covers few isKnown gone.nodup seenBodies (Nat.le_add_right (maxBodies + 2) _)
  have same : visited = fun body => search.Drives start body ∧ body.span ∉ state.2 := by
    funext body
    rw [covers.visited_iff few areKnown gone.closed, drives_iff starts]
    simp
  exact ⟨same ▸ covers.toVisits, covers.closed few areKnown gone.closed⟩

/-- One more expression. -/
theorem Gone.concat (gone : search.Gone exprs state) (few : search.Few search.Driven bodies)
    (within : exprs ⊆ search.component.callable.exprs)
    (isExpr : start ∈ search.component.callable.exprs) :
    search.Gone (exprs ++ [start]) (search.addTimer state start) := by
  unfold addTimer
  cases starts : search.timer? start with
  | none =>
      have idle (body : Callable) : ¬ search.Drives start body := by
        rintro ⟨callable, intervalMs, starts', -⟩
        rw [starts] at starts'
        cases starts'
      refine ⟨gone.nodup, gone.closed, fun span => ?_, fun site => ?_⟩
      · rw [gone.mem_seen]
        simp [idle]
      · rw [exists_first_concat, gone.mem_sites]
        simp [starts]
  | some timer =>
      obtain ⟨callable, intervalMs⟩ := timer
      obtain ⟨visits, closed⟩ := gone.visits few within isExpr starts
      refine ⟨visits.nodup, closed, fun span => ?_, fun site => ?_⟩
      all_goals dsimp only
      · rw [visits.mem_seen]
        constructor
        · rintro (isSeen | ⟨body, ⟨drives, -⟩, rfl⟩)
          · obtain ⟨earlier, isEarlier, driven⟩ := (gone.mem_seen span).mp isSeen
            exact ⟨earlier, List.mem_append_left _ isEarlier, driven⟩
          · exact ⟨start, by simp, body, drives, rfl⟩
        · rintro ⟨start', isStart, body, drives, rfl⟩
          rcases List.mem_append.mp isStart with isEarlier | isLast
          · exact .inl ((gone.mem_seen _).mpr ⟨start', isEarlier, body, drives, rfl⟩)
          · rw [List.mem_singleton.mp isLast] at drives
            by_cases isSeen : body.span ∈ state.2
            · exact .inl isSeen
            · exact .inr ⟨body, ⟨drives, isSeen⟩, rfl⟩
      · rw [List.mem_append, exists_first_concat, gone.mem_sites]
        refine or_congr_right ?_
        -- A body is new here if no earlier timer goes through it.
        have new_iff {body : Callable} (drives : search.Drives start body) :
            body.span ∉ state.2 ↔ ∀ earlier ∈ exprs, ¬ search.Drives earlier body := by
          rw [gone.span_mem_iff few within ⟨start, isExpr, drives⟩]
          simp
        constructor
        · intro member
          obtain ⟨call, isCall, rfl⟩ := List.mem_map.mp member
          obtain ⟨body, ⟨drives, unseen⟩, isOwn⟩ := (visits.mem_calls call).mp isCall
          exact ⟨callable, body, starts, (drives_iff starts).mp drives, isOwn, rfl,
            (new_iff drives).mp unseen⟩
        · rintro ⟨callable', body, same, reaches, isOwn, order, isFirst⟩
          cases starts.symm.trans same
          have drives := (drives_iff starts).mpr reaches
          refine List.mem_map.mpr ⟨site.call, (visits.mem_calls _).mpr
            ⟨body, ⟨drives, (new_iff drives).mpr isFirst⟩, isOwn⟩, ?_⟩
          rw [← order]

/-- A call in a body is put down to the first timer of the component that goes through the body. -/
theorem mem_timerSites_iff (few : search.Few search.Driven bodies) :
    site ∈ search.timerSites ↔
      ∃ start body, search.First search.component.callable.exprs site start body := by
  have gone (exprs : List Expr) (within : exprs ⊆ search.component.callable.exprs) :
      search.Gone exprs (exprs.foldl search.addTimer ([], [])) := by
    induction exprs using List.reverseRecOn with
    | nil =>
        refine ⟨.nil, nofun, by simp, fun site => ⟨nofun, ?_⟩⟩
        rintro ⟨start, body, _, _, _, before, after, parted, _⟩
        simp at parted
    | append_singleton exprs start inductionHypothesis =>
        obtain ⟨within, isExpr⟩ := List.append_subset.mp within
        rw [List.foldl_append]
        exact (inductionHypothesis within).concat few within (isExpr (List.mem_singleton_self _))
  rw [timerSites_eq]
  exact (gone _ (List.Subset.refl _)).mem_sites site

/-! ## Timers that share no body -/

/-- No two timers of the component go through one body that calls a setter. -/
def Parted (search : Search) (setter : String) : Prop :=
  ∀ start ∈ search.component.callable.exprs, ∀ other ∈ search.component.callable.exprs,
    ∀ body, search.Drives start body → search.Drives other body →
      (∃ call ∈ search.ownCalls body, call.setter = setter) → start = other

/-- Where no body is shared that calls a setter, every timer that leads to a call of it is known
as one. -/
theorem mem_timerSites_iff_times (few : search.Few search.Driven bodies)
    (parted : search.Parted site.call.setter) :
    site ∈ search.timerSites ↔ ∃ start callable, search.Times site start callable := by
  refine ⟨exists_times, ?_⟩
  rintro ⟨start, callable, times⟩
  obtain ⟨body, reaches, isOwn⟩ := leads_iff.mp times.leads
  obtain ⟨before, after, exprs, notBefore⟩ := List.eq_append_cons_of_mem times.isExpr
  refine (mem_timerSites_iff few).mpr ⟨start, body, ⟨callable, times.starts, reaches⟩, isOwn,
    times.order, before, after, exprs, fun earlier isEarlier drives => notBefore ?_⟩
  have isExpr : earlier ∈ search.component.callable.exprs := by
    rw [exprs]
    exact List.mem_append_left _ isEarlier
  rwa [parted start times.isExpr earlier isExpr body ⟨callable, _, times.starts, reaches⟩ drives
    ⟨site.call, isOwn, rfl⟩]

/-! ## The last timer -/

theorem order_le_of_lastDeclared?_cons {first last : TimerSite} {rest : List TimerSite}
    (found : lastDeclared? (first :: rest) = some last) :
    ∀ site ∈ first :: rest, site.order ≤ last.order := by
  induction rest generalizing first with
  | nil =>
      cases found
      exact List.forall_mem_singleton.mpr (Nat.le_refl _)
  | cons second rest inductionHypothesis =>
      rw [lastDeclared?_cons_cons] at found
      obtain ⟨ofLater, ofRest⟩ := List.forall_mem_cons.mp (inductionHypothesis found)
      refine List.forall_mem_cons.mpr ⟨?_, List.forall_mem_cons.mpr ⟨?_, ofRest⟩⟩
      · exact Nat.le_trans (by split <;> omega) ofLater
      · exact Nat.le_trans (by split <;> omega) ofLater

/-- The timer that counts was declared behind all others. -/
theorem order_le_of_lastDeclared? {timers : List TimerSite} {last : TimerSite}
    (found : lastDeclared? timers = some last) (member : site ∈ timers) :
    site.order ≤ last.order := by
  cases timers with
  | nil => cases member
  | cons first rest => exact order_le_of_lastDeclared?_cons found site member

variable {setter : String} {binding : Binding} {names : List String} {update : Expr}

/-- A timer that gives a setter a value. -/
structure Gives (search : Search) (setter : String) (site : TimerSite) (start update : Expr) :
    Prop where
  times : ∃ callable, search.Times site start callable
  mine : site.call.setter = setter
  given : site.call.argument = some update

/-- A binding follows the last of the timers that give its setter a value. A note tells of it
where there is more than one. -/
def FollowsLast (search : Search) (setter : String) (binding : Binding) : Prop :=
  ∃ last start update, search.Gives setter last start update ∧
    binding.rule = search.timerRule binding last.intervalMs update ∧
    ∀ other start' update', search.Gives setter other start' update' →
      start'.span.start ≤ start.span.start ∧
      (other ≠ last → ∃ count : Nat, 1 < count ∧
        toString count ++ " timer sites update `" ++ binding.name ++
          "`; the last declared one wins" ∈ binding.notes)

/-- The timers that count for a setter are those that give it a value. -/
theorem exists_gives_iff (few : search.Few search.Driven bodies) (parted : search.Parted setter) :
    site ∈ search.sites.timers.filter (fun site =>
        site.call.setter == setter && site.call.argument.isSome) ↔
      ∃ start update, search.Gives setter site start update := by
  rw [List.mem_filter, Bool.and_eq_true, beq_iff_eq, Option.isSome_iff_exists]
  change site ∈ search.timerSites ∧ _ ↔ _
  constructor
  · rintro ⟨isSite, rfl, update, given⟩
    obtain ⟨start, times⟩ := (mem_timerSites_iff_times few parted).mp isSite
    exact ⟨start, update, times, rfl, given⟩
  · rintro ⟨start, update, times, rfl, given⟩
    exact ⟨(mem_timerSites_iff_times few parted).mpr ⟨start, times⟩, rfl, update, given⟩

/-- A setter follows the last of the timers that give it a value. -/
theorem followsLast_settle (few : search.Few search.Driven bodies) (parted : search.Parted setter)
    (gives : search.Gives setter site start update) :
    search.FollowsLast setter (search.settle names search.sites setter binding) := by
  have isTimer := (exists_gives_iff few parted).mpr ⟨start, update, gives⟩
  obtain ⟨first, rest, filled⟩ := List.exists_cons_of_ne_nil (List.ne_nil_of_mem isTimer)
  obtain ⟨last, isLast, found⟩ := exists_lastDeclared? first rest
  rw [← filled] at isLast found
  obtain ⟨start', update', gives'⟩ := (exists_gives_iff few parted).mp isLast
  have settled : ∃ events, search.settle names search.sites setter binding =
      { binding with
        rule := search.timerRule binding last.intervalMs update'
        notes := binding.notes ++ timerNotes binding.name (search.sites.timers.filter fun site =>
          site.call.setter == setter && site.call.argument.isSome).length events } := by
    unfold settle
    simp only [found, Option.bind_some, gives'.given, Option.map_some]
    exact ⟨_, rfl⟩
  obtain ⟨events, settled⟩ := settled
  rw [settled]
  refine ⟨last, start', update', gives', rfl, fun other start'' update'' gives'' => ?_⟩
  have isOther := (exists_gives_iff few parted).mpr ⟨start'', update'', gives''⟩
  constructor
  · obtain ⟨_, times⟩ := gives'.times
    obtain ⟨_, times'⟩ := gives''.times
    rw [← times.order, ← times'.order]
    exact order_le_of_lastDeclared? found isOther
  · intro different
    have several : 1 < (search.sites.timers.filter fun site =>
        site.call.setter == setter && site.call.argument.isSome).length := by
      cases rest with
      | nil =>
          rw [filled] at isLast isOther
          exact absurd ((List.mem_singleton.mp isOther).trans (List.mem_singleton.mp isLast).symm)
            different
      | cons second rest =>
          rw [filled]
          simp
    refine ⟨_, several, List.mem_append_right _ ?_⟩
    simp [timerNotes, several]

variable {module : Module} {timing : Timing} {component : Component} {source : List Char}

/-- The bodies that timers go through stand in the module. -/
theorem Driven.standsIn (isComponent : component ∈ components module)
    (driven : (of module timing component).Driven body) : body.StandsIn module.root := by
  obtain ⟨start, isExpr, callable, intervalMs, starts, reaches⟩ := driven
  exact reaches.standsIn (standsIn_of_timer? isComponent isExpr starts)

/-- Bodies that are no more than a search goes through. -/
theorem few_driven (read : parse source = .ok module) (isComponent : component ∈ components module)
    (short : bodies.length ≤ maxBodies)
    (within : ∀ body, (of module timing component).Driven body → body.span ∈ bodies) :
    (of module timing component).Few (of module timing component).Driven bodies :=
  few_of_standsIn read (fun _ _ driven isCallee => driven.callee isCallee)
    (fun _ driven => driven.standsIn isComponent) short within

/-- A binding of a module follows the last of the timers that give its setter a value, where they
share no body that calls the setter and the timers of the component go through no more bodies than
a search does. -/
theorem followsLast_of_mem_classify (read : parse source = .ok module)
    (member : binding ∈ classify module timing) (isSetter : binding.setter = some setter) :
    ∃ component ∈ components module, binding.origin ∈ component.origins ∧
      ∀ bodies : List Span, bodies.length ≤ maxBodies →
        (∀ body, (of module timing component).Driven body → body.span ∈ bodies) →
          (of module timing component).Parted setter →
            (∃ site start update, (of module timing component).Gives setter site start update) →
              (of module timing component).FollowsLast setter binding := by
  obtain ⟨component, isComponent, isOrigin, _, names, before, _, rfl⟩ :=
    exists_settle_of_mem_classify member isSetter
  refine ⟨component, isComponent, isOrigin, ?_⟩
  rintro bodies short within parted ⟨site, start, update, gives⟩
  exact followsLast_settle (few_driven read isComponent short within) parted gives

end Search

end StopMotion.State
