import Mathlib.Data.List.Perm.Subperm
import Mathlib.Logic.Relation
import StopMotion.Proofs.State.Callable
import StopMotion.Proofs.State.Setter

/-!
# What a search goes through

The search for setter calls goes through the local functions that a callable leads to, a body at
most once. It comes to its end however the functions call each other. Where there are no more
bodies than the search goes through, it misses none of them: behind what was seen before, it has
gone through all the bodies that can be reached, and it finds the calls that these make. It does
not look at parameters, so a call in a default value is found only where it also stands in a body.
-/

namespace StopMotion.State.Search

open StopMotion.Syntax

variable {search : Search} {callable body : Callable} {call : SetterCall} {seen : List Span}
  {found : Found}

/-! ## Bodies that a callable leads to -/

/-- The local functions that a callable calls by name. -/
def callees (search : Search) (callable : Callable) : List Callable :=
  callable.exprs.filterMap search.calledFunction?

/-- The setter calls that a callable makes itself. -/
def ownCalls (search : Search) (callable : Callable) : List SetterCall :=
  callable.exprs.filterMap search.setterCall?

/-- A callable leads to a body: to its own, or by way of the local functions that it calls. -/
def Reaches (search : Search) : Callable → Callable → Prop :=
  Relation.ReflTransGen fun caller callee => callee ∈ search.callees caller

/-- A callable leads to the calls that are made in the bodies that it leads to. -/
theorem leads_iff :
    search.Leads callable call ↔
      ∃ body, search.Reaches callable body ∧ call ∈ search.ownCalls body := by
  constructor
  · intro leads
    induction leads with
    | here isExpr isCall => exact ⟨_, .refl, List.mem_filterMap.mpr ⟨_, isExpr, isCall⟩⟩
    | through isExpr called _ inductionHypothesis =>
        obtain ⟨body, reaches, isOwn⟩ := inductionHypothesis
        exact ⟨body, .head (List.mem_filterMap.mpr ⟨_, isExpr, called⟩) reaches, isOwn⟩
  · rintro ⟨body, reaches, isOwn⟩
    induction reaches using Relation.ReflTransGen.head_induction_on with
    | refl =>
        obtain ⟨expr, isExpr, isCall⟩ := List.mem_filterMap.mp isOwn
        exact .here isExpr isCall
    | head isCallee _ leads =>
        obtain ⟨expr, isExpr, called⟩ := List.mem_filterMap.mp isCallee
        exact .through isExpr called leads

/-! ## One search -/

/-- Callables among which a search comes to its end: they call no others, a span tells which one
is meant, and they have no more bodies than a search goes through. -/
structure Few (search : Search) (known : Callable → Prop) (bodies : List Span) : Prop where
  callee {caller callee : Callable} (isKnown : known caller)
    (isCallee : callee ∈ search.callees caller) : known callee
  span {body : Callable} (isKnown : known body) : body.span ∈ bodies
  length_le : bodies.length ≤ maxBodies
  eq_of_span_eq {body body' : Callable} (isKnown : known body) (isKnown' : known body')
    (same : body.span = body'.span) : body = body'

/-- Bodies that a search goes through behind those seen before, and what it finds in them. -/
structure Visits (search : Search) (seen : List Span) (visited : Callable → Prop)
    (found : Found) : Prop where
  nodup : found.seen.Nodup
  mem_seen (span : Span) :
    span ∈ found.seen ↔ span ∈ seen ∨ ∃ body, visited body ∧ body.span = span
  mem_calls (call : SetterCall) :
    call ∈ found.calls ↔ ∃ body, visited body ∧ call ∈ search.ownCalls body
  fresh {body : Callable} (isVisited : visited body) : body.span ∉ seen

/-- A search goes through some callables and through everything behind them that was not seen
before. -/
structure Covers (search : Search) (seen : List Span) (roots : List Callable)
    (visited : Callable → Prop) (found : Found) : Prop
    extends search.Visits seen visited found where
  reaches {body : Callable} (isVisited : visited body) : ∃ root ∈ roots, search.Reaches root body
  root {root : Callable} (isRoot : root ∈ roots) : root.span ∈ found.seen
  callee {body callee : Callable} (isVisited : visited body)
    (isCallee : callee ∈ search.callees body) : callee.span ∈ found.seen

variable {known visited visited' : Callable → Prop} {bodies : List Span} {more : Found}
  {roots roots' : List Callable} {depth : Nat}

/-- What a known callable leads to is known. -/
theorem Few.of_reaches (few : search.Few known bodies) (isKnown : known callable)
    (reaches : search.Reaches callable body) : known body := by
  induction reaches with
  | refl => exact isKnown
  | tail _ isCallee inductionHypothesis => exact few.callee inductionHypothesis isCallee

/-- What was seen before is still seen. -/
theorem Visits.subset (visits : search.Visits seen visited found) : seen ⊆ found.seen :=
  fun span isSeen => (visits.mem_seen span).mpr (.inl isSeen)

/-- A search and another one behind it. -/
theorem Visits.append (first : search.Visits seen visited found)
    (second : search.Visits found.seen visited' more) :
    search.Visits seen (fun body => visited body ∨ visited' body)
      ⟨found.calls ++ more.calls, more.seen⟩ where
  nodup := second.nodup
  mem_seen span := by
    rw [second.mem_seen, first.mem_seen]
    grind
  mem_calls call := by
    rw [List.mem_append, first.mem_calls, second.mem_calls]
    grind
  fresh isVisited := isVisited.elim first.fresh fun isVisited isSeen =>
    second.fresh isVisited (first.subset isSeen)

/-- What a search has seen are bodies of known callables. -/
theorem Covers.subset_bodies (covers : search.Covers seen roots visited found)
    (few : search.Few known bodies) (areKnown : ∀ root ∈ roots, known root)
    (within : seen ⊆ bodies) : found.seen ⊆ bodies := by
  intro span isSeen
  rcases (covers.mem_seen span).mp isSeen with before | ⟨body, isVisited, rfl⟩
  · exact within before
  · obtain ⟨root, isRoot, reaches⟩ := covers.reaches isVisited
    exact few.span (few.of_reaches (areKnown root isRoot) reaches)

theorem Covers.nil (nodup : seen.Nodup) : search.Covers seen [] (fun _ => False) ⟨[], seen⟩ where
  nodup := nodup
  mem_seen span := by simp
  mem_calls call := by simp
  fresh := False.elim
  reaches := False.elim
  root isRoot := by cases isRoot
  callee := False.elim

theorem Covers.append (first : search.Covers seen roots visited found)
    (second : search.Covers found.seen roots' visited' more) :
    search.Covers seen (roots ++ roots') (fun body => visited body ∨ visited' body)
      ⟨found.calls ++ more.calls, more.seen⟩ where
  toVisits := first.toVisits.append second.toVisits
  reaches isVisited := by
    rcases isVisited with isVisited | isVisited
    · obtain ⟨root, isRoot, reaches⟩ := first.reaches isVisited
      exact ⟨root, List.mem_append_left _ isRoot, reaches⟩
    · obtain ⟨root, isRoot, reaches⟩ := second.reaches isVisited
      exact ⟨root, List.mem_append_right _ isRoot, reaches⟩
  root isRoot := by
    rcases List.mem_append.mp isRoot with isRoot | isRoot
    · exact second.subset (first.root isRoot)
    · exact second.root isRoot
  callee isVisited isCallee := by
    rcases isVisited with isVisited | isVisited
    · exact second.subset (first.callee isVisited isCallee)
    · exact second.callee isVisited isCallee

/-- The searches from some callables, one behind the other. -/
def searchAll (search : Search) (depth : Nat) : List Callable → List Span → Found
  | [], seen => ⟨[], seen⟩
  | root :: rest, seen =>
    let found := search.setterCalls depth root seen
    let more := searchAll search depth rest found.seen
    ⟨found.calls ++ more.calls, more.seen⟩

/-- A search goes through a body and then through those of the functions that are called. -/
theorem setterCalls_succ (search : Search) (depth : Nat) (callable : Callable)
    (seen : List Span) : search.setterCalls (depth + 1) callable seen =
      if callable.span ∈ seen then ⟨[], seen⟩
      else if maxBodies < seen.length + 1 then ⟨[], callable.span :: seen⟩
      else
        let more := search.searchAll depth (search.callees callable) (callable.span :: seen)
        ⟨search.ownCalls callable ++ more.calls, more.seen⟩ := by
  have foldl (roots : List Callable) (found : Found) :
      roots.foldl (fun found inner =>
        let more := search.setterCalls depth inner found.seen
        ⟨found.calls ++ more.calls, more.seen⟩) found =
      ⟨found.calls ++ (search.searchAll depth roots found.seen).calls,
        (search.searchAll depth roots found.seen).seen⟩ := by
    induction roots generalizing found with
    | nil => simp [searchAll]
    | cons root rest inductionHypothesis =>
        rw [List.foldl_cons, inductionHypothesis]
        simp [searchAll]
  rw [setterCalls]
  simp only [List.contains_iff_mem, List.length_cons]
  split
  · rfl
  · split
    · rfl
    · exact foldl _ _

/-- A search that has depth enough left for what it has not seen covers a known callable. -/
theorem exists_covers (few : search.Few known bodies) (isKnown : known callable)
    (nodup : seen.Nodup) (within : seen ⊆ bodies) (deep : maxBodies + 2 ≤ depth + seen.length) :
    ∃ visited, search.Covers seen [callable] visited (search.setterCalls depth callable seen) := by
  have short {seen : List Span} (nodup : seen.Nodup) (within : seen ⊆ bodies) :
      seen.length ≤ maxBodies :=
    Nat.le_trans (List.subperm_of_subset nodup within).length_le few.length_le
  induction depth generalizing callable seen with
  | zero =>
      have := short nodup within
      omega
  | succ depth inductionHypothesis =>
      rw [setterCalls_succ]
      split
      · rename_i isSeen
        refine ⟨fun _ => False, ⟨⟨nodup, by simp, by simp, False.elim⟩, False.elim, ?_, False.elim⟩⟩
        intro root isRoot
        rwa [List.mem_singleton.mp isRoot]
      · rename_i unseen
        have nodup' : (callable.span :: seen).Nodup := List.nodup_cons.mpr ⟨unseen, nodup⟩
        have within' : callable.span :: seen ⊆ bodies :=
          List.cons_subset.mpr ⟨few.span isKnown, within⟩
        have fits := short nodup' within'
        rw [List.length_cons] at fits
        rw [if_neg (by omega)]
        -- The callees are gone through one by one, each behind what the others have seen.
        have all (roots : List Callable) (areKnown : ∀ root ∈ roots, known root)
            {seen : List Span} (nodup : seen.Nodup) (within : seen ⊆ bodies)
            (deep : maxBodies + 2 ≤ depth + seen.length) :
            ∃ visited, search.Covers seen roots visited (search.searchAll depth roots seen) := by
          induction roots generalizing seen with
          | nil => exact ⟨_, .nil nodup⟩
          | cons root rest restHypothesis =>
              obtain ⟨isKnown, areKnown⟩ := List.forall_mem_cons.mp areKnown
              obtain ⟨visited, covers⟩ := inductionHypothesis isKnown nodup within deep
              have more := (List.subperm_of_subset nodup covers.subset).length_le
              obtain ⟨visited', covers'⟩ := restHypothesis areKnown covers.nodup
                (covers.subset_bodies few (by simpa using isKnown) within) (by omega)
              exact ⟨_, covers.append covers'⟩
        obtain ⟨visited, covers⟩ := all (search.callees callable)
          (fun root isCallee => few.callee isKnown isCallee) nodup' within'
          (by rw [List.length_cons]; omega)
        have own : search.Visits seen (· = callable)
            ⟨search.ownCalls callable, callable.span :: seen⟩ :=
          ⟨nodup', by simp [or_comm, eq_comm], by simp, fun isOwn => isOwn ▸ unseen⟩
        refine ⟨_, own.append covers.toVisits, ?_, ?_, ?_⟩
        · rintro body (rfl | isVisited)
          · exact ⟨body, List.mem_singleton_self _, .refl⟩
          · obtain ⟨root, isCallee, reaches⟩ := covers.reaches isVisited
            exact ⟨callable, List.mem_singleton_self _, .head isCallee reaches⟩
        · intro root isRoot
          rw [List.mem_singleton.mp isRoot]
          exact covers.subset List.mem_cons_self
        · rintro body callee (rfl | isVisited) isCallee
          · exact covers.root isCallee
          · exact covers.callee isVisited isCallee

/-! ## The end of a search -/

/-- The searches from some callables without any bound on how deep they are nested, and what they
find. A derivation is a run that comes to its end. -/
inductive Ends (search : Search) : List Callable → List Span → Found → Prop where
  | nil {seen : List Span} : Ends search [] seen ⟨[], seen⟩
  | seen {root : Callable} {rest : List Callable} {seen : List Span} {found : Found}
      (isSeen : root.span ∈ seen) (behind : Ends search rest seen found) :
      Ends search (root :: rest) seen found
  | full {root : Callable} {rest : List Callable} {seen : List Span} {found : Found}
      (unseen : root.span ∉ seen) (isFull : maxBodies < seen.length + 1)
      (behind : Ends search rest (root.span :: seen) found) : Ends search (root :: rest) seen found
  | enters {root : Callable} {rest : List Callable} {seen : List Span} {found more : Found}
      (unseen : root.span ∉ seen) (fits : seen.length + 1 ≤ maxBodies)
      (inside : Ends search (search.callees root) (root.span :: seen) found)
      (behind : Ends search rest found.seen more) :
      Ends search (root :: rest) seen
        ⟨search.ownCalls root ++ found.calls ++ more.calls, more.seen⟩

/-- Searches that have depth enough left for the bodies that may still be entered come to their
end, and what was seen does not get less. -/
theorem ends_searchAll (roots : List Callable) (positive : 0 < depth)
    (deep : maxBodies + 2 ≤ depth + seen.length) :
    search.Ends roots seen (search.searchAll depth roots seen) ∧
      seen.length ≤ (search.searchAll depth roots seen).seen.length := by
  induction depth generalizing roots seen with
  | zero => exact absurd positive (Nat.lt_irrefl 0)
  | succ depth inductionHypothesis =>
      induction roots generalizing seen with
      | nil => exact ⟨.nil, Nat.le_refl _⟩
      | cons root rest restHypothesis =>
          rw [searchAll, setterCalls_succ]
          split
          · rename_i isSeen
            obtain ⟨behind, longer⟩ := restHypothesis deep
            exact ⟨.seen isSeen behind, longer⟩
          · rename_i unseen
            split
            · rename_i isFull
              have deep : maxBodies + 2 ≤ depth + 1 + (root.span :: seen).length := by
                rw [List.length_cons]
                omega
              obtain ⟨behind, longer⟩ := restHypothesis deep
              rw [List.length_cons] at longer
              exact ⟨.full unseen isFull behind, by dsimp only; omega⟩
            · rename_i notFull
              -- Fewer bodies were seen than may be, so more than one level is left for the callees.
              obtain ⟨inside, longer⟩ := @inductionHypothesis (root.span :: seen)
                (search.callees root) (by omega) (by rw [List.length_cons]; omega)
              rw [List.length_cons] at longer
              obtain ⟨behind, longer'⟩ := @restHypothesis
                (search.searchAll depth (search.callees root) (root.span :: seen)).seen (by omega)
              exact ⟨.enters unseen (by omega) inside behind, by dsimp only; omega⟩

/-- The search from a callable comes to its end, whatever the module is and whatever was seen
before. -/
theorem ends_reached (search : Search) (callable : Callable) (seen : List Span) :
    search.Ends [callable] seen (search.reached callable seen) := by
  have deep : maxBodies + 2 ≤ maxBodies + 2 + seen.length := Nat.le_add_right _ _
  have ends : search.Ends [callable] seen _ :=
    (ends_searchAll [callable] (Nat.succ_pos _) deep).1
  rwa [searchAll, searchAll, List.append_nil] at ends

/-! ## What is seen behind a search -/

/-- With a body, the bodies of the functions that it calls were seen. -/
def Closed (search : Search) (known : Callable → Prop) (seen : List Span) : Prop :=
  ∀ body, known body → body.span ∈ seen → ∀ callee ∈ search.callees body, callee.span ∈ seen

/-- Whatever is reached from a body that was seen was seen too. -/
theorem Closed.of_reaches (closed : search.Closed known seen) (few : search.Few known bodies)
    (isKnown : known callable) (isSeen : callable.span ∈ seen)
    (reaches : search.Reaches callable body) : body.span ∈ seen := by
  induction reaches with
  | refl => exact isSeen
  | tail reaches isCallee inductionHypothesis =>
      exact closed _ (few.of_reaches isKnown reaches) inductionHypothesis _ isCallee

/-- Behind a search the bodies that were seen are again closed. -/
theorem Covers.closed (covers : search.Covers seen roots visited found)
    (few : search.Few known bodies) (areKnown : ∀ root ∈ roots, known root)
    (closed : search.Closed known seen) : search.Closed known found.seen := by
  intro body isKnown isSeen callee isCallee
  rcases (covers.mem_seen _).mp isSeen with before | ⟨body', isVisited, same⟩
  · exact covers.subset (closed body isKnown before callee isCallee)
  · obtain ⟨root, isRoot, reaches⟩ := covers.reaches isVisited
    have isKnown' := few.of_reaches (areKnown root isRoot) reaches
    rw [few.eq_of_span_eq isKnown' isKnown same] at isVisited
    exact covers.callee isVisited isCallee

/-- A search goes through the bodies that are reached and were not seen before. -/
theorem Covers.visited_iff (covers : search.Covers seen roots visited found)
    (few : search.Few known bodies) (areKnown : ∀ root ∈ roots, known root)
    (closed : search.Closed known seen) :
    visited body ↔ (∃ root ∈ roots, search.Reaches root body) ∧ body.span ∉ seen := by
  refine ⟨fun isVisited => ⟨covers.reaches isVisited, covers.fresh isVisited⟩, ?_⟩
  rintro ⟨⟨root, isRoot, reaches⟩, unseen⟩
  have isSeen := (covers.closed few areKnown closed).of_reaches few (areKnown root isRoot)
    (covers.root isRoot) reaches
  rcases (covers.mem_seen _).mp isSeen with before | ⟨body', isVisited, same⟩
  · exact absurd before unseen
  · obtain ⟨root', isRoot', reaches'⟩ := covers.reaches isVisited
    rwa [few.eq_of_span_eq (few.of_reaches (areKnown root' isRoot') reaches')
      (few.of_reaches (areKnown root isRoot) reaches) same] at isVisited

/-! ## All that is reached -/

/-- A search from the start finds the calls in the bodies that are reached, and no others. -/
theorem mem_reached_iff (few : search.Few (search.Reaches callable) bodies) :
    call ∈ (search.reached callable []).calls ↔
      ∃ body, search.Reaches callable body ∧ call ∈ search.ownCalls body := by
  obtain ⟨visited, covers⟩ : ∃ visited,
      search.Covers [] [callable] visited (search.reached callable []) :=
    exists_covers few .refl .nil (List.nil_subset _) (Nat.le_refl _)
  have areKnown : ∀ root ∈ [callable], search.Reaches callable root :=
    List.forall_mem_singleton.mpr .refl
  rw [covers.mem_calls]
  simp only [covers.visited_iff few areKnown nofun, List.mem_singleton, exists_eq_left,
    List.not_mem_nil, not_false_eq_true, and_true]

variable {module : Module} {timing : Timing} {component : Component} {source : List Char}

/-- Callables of a module that is read are told apart by their spans. -/
theorem few_of_standsIn (read : parse source = .ok module)
    (callee : ∀ caller callee, known caller → callee ∈ search.callees caller → known callee)
    (stands : ∀ body, known body → body.StandsIn module.root)
    (short : bodies.length ≤ maxBodies) (within : ∀ body, known body → body.span ∈ bodies) :
    search.Few known bodies where
  callee := callee _ _
  span := within _
  length_le := short
  eq_of_span_eq isKnown isKnown' same := by
    obtain ⟨rfl, lies⟩ := plan_laid_parse read
    have liesRoot : module.root.2.plan.LiesAt module.source
      (.of ⟨0, Text.size module.source⟩) := lies
    exact (stands _ isKnown).eq_of_span_eq (stands _ isKnown') liesRoot same

/-- What a callable of the module leads to stands in the module. -/
theorem Reaches.standsIn (reaches : (of module timing component).Reaches callable body)
    (stands : callable.StandsIn module.root) : body.StandsIn module.root := by
  induction reaches with
  | refl => exact stands
  | tail _ isCallee _ =>
      obtain ⟨expr, _, called⟩ := List.mem_filterMap.mp isCallee
      exact standsIn_of_calledFunction? called

/-! ## Parameters -/

/-- The expressions in the parameters of a callable: default values and computed keys. -/
def paramExprs (callable : Callable) : List Expr :=
  callable.params.flatMap Node.exprs

/-- The local functions that a callable calls by name, in its parameters or in its body. -/
def calleesAnywhere (search : Search) (callable : Callable) : List Callable :=
  (paramExprs callable).filterMap search.calledFunction? ++ search.callees callable

/-- The setter calls that a callable makes itself, in its parameters or in its body. -/
def callsAnywhere (search : Search) (callable : Callable) : List SetterCall :=
  (paramExprs callable).filterMap search.setterCall? ++ search.ownCalls callable

/-- A callable leads to a function: to itself, or by way of the local functions that it calls
anywhere. -/
def ReachesAnywhere (search : Search) : Callable → Callable → Prop :=
  Relation.ReflTransGen fun caller callee => callee ∈ search.calleesAnywhere caller

/-- The parameters of a callable call no setter and no local function. -/
structure Silent (search : Search) (callable : Callable) : Prop where
  callees : (paramExprs callable).filterMap search.calledFunction? = []
  calls : (paramExprs callable).filterMap search.setterCall? = []

/-- Where the parameters are silent, a callable leads to what its body leads to. -/
theorem reachesAnywhere_iff (silent : ∀ body, search.Reaches callable body → search.Silent body) :
    search.ReachesAnywhere callable body ↔ search.Reaches callable body := by
  constructor
  · intro reaches
    induction reaches with
    | refl => exact .refl
    | tail _ isCallee reaches =>
        rw [calleesAnywhere, (silent _ reaches).callees, List.nil_append] at isCallee
        exact .tail reaches isCallee
  · exact Relation.ReflTransGen.mono (fun _ _ isCallee => List.mem_append_right _ isCallee) _ _

/-- What stands in the parameters of a callable is not looked at. -/
theorem reached_params (search : Search) (callable : Callable) (params : List Pattern)
    (seen : List Span) :
    search.reached { callable with params } seen = search.reached callable seen := rfl

/-- A function whose parameter is the value of a setter call by default, and which makes no call in
its body. -/
def callingByDefault : Callable :=
  ⟨[.bindDefault ⟨1, 11⟩ (.bindName ⟨1, 2⟩ ⟨"v", ⟨1, 2⟩⟩)
      (.call ⟨5, 11⟩ (.name ⟨5, 9⟩ ⟨"setN", ⟨5, 9⟩⟩) .nil false)],
    .expr (.name ⟨16, 17⟩ ⟨"v", ⟨16, 17⟩⟩), ⟨0, 17⟩⟩

/-- A call in the default value of a parameter is missed. -/
theorem missed_in_parameter (module : Module) (timing : Timing) (component : Component) :
    let search : Search := ⟨module, {}, timing, component, ["setN"]⟩
    search.callsAnywhere callingByDefault = [⟨"setN", none, ⟨5, 11⟩⟩] ∧
      (search.reached callingByDefault []).calls = [] := by
  constructor <;> rfl

/-- The search from a callable of a module that is read finds the setter calls in the functions
that the callable leads to, and no others, where there are no more of these than a search goes
through and their parameters are silent. -/
theorem mem_reached_iff_anywhere (read : parse source = .ok module)
    (stands : callable.StandsIn module.root) (short : bodies.length ≤ maxBodies)
    (within : ∀ body, (of module timing component).Reaches callable body → body.span ∈ bodies)
    (silent : ∀ body, (of module timing component).Reaches callable body →
      (of module timing component).Silent body) :
    call ∈ ((of module timing component).reached callable []).calls ↔
      ∃ body, (of module timing component).ReachesAnywhere callable body ∧
        call ∈ (of module timing component).callsAnywhere body := by
  have few := few_of_standsIn read (fun _ _ reaches isCallee => .tail reaches isCallee)
    (fun _ reaches => Reaches.standsIn reaches stands) short within
  rw [mem_reached_iff few]
  refine exists_congr fun body => ?_
  rw [reachesAnywhere_iff silent]
  refine and_congr_right fun reaches => ?_
  rw [callsAnywhere, (silent body reaches).calls, List.nil_append]

end StopMotion.State.Search
