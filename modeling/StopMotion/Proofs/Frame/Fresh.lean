import Mathlib.Data.List.Nodup
import Mathlib.Data.List.Perm.Subperm
import StopMotion.Frame.Fresh
import StopMotion.Proofs.Syntax.Region
import StopMotion.Proofs.Validation.Scope

/-!
# Names that are chosen anew

A name that is chosen is none of the names that a module binds or mentions. Whatever a scope of the
module declares is among those.
-/

namespace StopMotion.Frame

/-! ## Choosing a name -/

theorem toString_injective : Function.Injective fun count : Nat => toString count := by
  intro first second same
  have digits : Nat.toDigits 10 first = Nat.toDigits 10 second := by
    rw [← Nat.toList_repr, ← Nat.toList_repr]
    exact congrArg String.toList same
  rw [← Nat.ofDigitChars_ten_toDigits (n := first), digits, Nat.ofDigitChars_ten_toDigits]

/-- The numbered names are more than those that are taken, so one of them is free. -/
theorem exists_free (taken : List String) (name : String) :
    ∃ candidate ∈ (List.range (taken.length + 1)).map fun count => name ++ toString (count + 2),
      candidate ∉ taken := by
  by_contra none
  push Not at none
  have injective : Function.Injective fun count : Nat => name ++ toString (count + 2) := by
    intro first second same
    have := toString_injective ((String.append_right_inj name).mp same)
    omega
  have distinct := (List.nodup_range (n := taken.length + 1)).map injective
  have short := (List.subperm_of_subset distinct none).length_le
  rw [List.length_map, List.length_range] at short
  omega

/-- The name that is chosen is one of the candidates and is not taken. -/
theorem fresh_chosen (taken : List String) (name : String) (others : List String) :
    fresh taken name others ∉ taken ∧
      (fresh taken name others ∈ name :: others ∨
        ∃ count, fresh taken name others = name ++ toString (count + 2)) := by
  let numbered := (List.range (taken.length + 1)).map fun count => name ++ toString (count + 2)
  have isFresh : fresh taken name others = ((name :: others ++ numbered).find?
      fun candidate => !taken.contains candidate).getD (name ++ "_") := rfl
  cases found : (name :: others ++ numbered).find? fun candidate => !taken.contains candidate with
  | none =>
      obtain ⟨candidate, isCandidate, free⟩ := exists_free taken name
      have notFree := List.find?_eq_none.mp found candidate (List.mem_append_right _ isCandidate)
      simp [free] at notFree
  | some chosen =>
      rw [isFresh, found, Option.getD_some]
      constructor
      · simpa using List.find?_some found
      · apply (List.mem_append.mp (List.mem_of_find?_eq_some found)).imp_right
        intro isChosen
        obtain ⟨count, -, same⟩ := List.mem_map.mp isChosen
        exact ⟨count, same.symm⟩

theorem fresh_not_mem (taken : List String) (name : String) (others : List String) :
    fresh taken name others ∉ taken :=
  (fresh_chosen taken name others).1

/-- A name that is chosen begins like one of those it is chosen from. -/
theorem head?_fresh (taken : List String) (name : String) (others : List String)
    (speaks : name.toList ≠ []) :
    (fresh taken name others).toList.head? ∈
      (name :: others).map fun candidate => candidate.toList.head? := by
  rcases (fresh_chosen taken name others).2 with isChosen | ⟨count, numbered⟩
  · exact List.mem_map_of_mem isChosen
  · rw [numbered, String.toList_append, List.head?_append_of_ne_nil _ speaks]
    exact List.mem_cons_self

/-! ## Names that stand somewhere in a node -/

open Syntax (AnyNode Category Node Module)

/-- A name that is bound or mentioned at some place in a node. -/
def Named (name : String) (outer : AnyNode) : Prop :=
  ∃ inner : AnyNode, Node.Inside inner outer ∧ name ∈ ownNames inner.2

namespace Named

variable {name : String} {outer inner : AnyNode}

theorem here (isOwn : name ∈ ownNames outer.2) : Named name outer :=
  ⟨outer, .self, isOwn⟩

theorem inside (named : Named name inner) (inside : Node.Inside inner outer) :
    Named name outer := by
  obtain ⟨place, deeper, isOwn⟩ := named
  exact ⟨place, deeper.trans inside, isOwn⟩

theorem part (isPart : inner ∈ outer.2.parts) (named : Named name inner) : Named name outer :=
  named.inside (.part isPart .self)

/-- What is reached by going on to some of the parts stands inside. -/
theorem reached {next : AnyNode → List AnyNode}
    (parts : ∀ node, ∀ part ∈ next node, part ∈ node.2.parts)
    (reaches : Validation.Reaches next inner outer) (named : Named name inner) :
    Named name outer := by
  induction reaches with
  | self => exact named
  | part isPart _ inductionHypothesis => exact inductionHypothesis.part (parts _ _ isPart)

end Named

/-- The names of a module are those that stand somewhere in it. -/
theorem mem_namesOf_iff {module : Module} {name : String} :
    name ∈ namesOf module ↔ Named name module.root := by
  constructor
  · intro isName
    obtain ⟨node, held, -, isOwn⟩ := Module.exists_of_mem_visit isName
    exact ⟨node, held, isOwn⟩
  · rintro ⟨node, held, isOwn⟩
    have single : Node.isSequence node.1 = false := by
      obtain ⟨c, node⟩ := node
      cases c with
      | list | option => cases node <;> cases isOwn
      | _ => rfl
    obtain ⟨middle, -, -, -, found, rfl | stops⟩ :=
      Module.Holds.exists_visited held (fun node => { found := ownNames node }) single
    · exact found name isOwn
    · cases stops

end StopMotion.Frame

namespace StopMotion.Validation

open Syntax (AnyNode Category Node)
open StopMotion.Frame (Named)

variable {c : Category} {node : Node c} {name : String}

theorem named_of_mem_bound (isBound : name ∈ bound node) : Named name ⟨c, node⟩ := by
  induction node with
  | cons head tail inHead inTail =>
      rcases List.mem_append.mp isBound with isBound | isBound
      · exact (inHead isBound).part (.head _)
      · exact (inTail isBound).part (.tail _ (.head _))
  | bindName => exact .here isBound
  | boundKey key value _ inValue => exact (inValue isBound).part (.tail _ (.head _))
  | bindDefault span target value inTarget | declares span target init inTarget =>
      exact (inTarget isBound).part (.head _)
  | present | bindArray | bindObject | bindRest | boundRest | headVar =>
      rename_i inside
      exact (inside isBound).part (.head _)
  | _ => cases isBound

theorem named_of_mem_givenName (isGiven : name ∈ givenName node) : Named name ⟨c, node⟩ := by
  unfold givenName at isGiven
  split at isGiven
  · exact .here isGiven
  · exact .here isGiven
  · cases isGiven

theorem named_of_mem_declared (isDeclared : name ∈ declared node) : Named name ⟨c, node⟩ := by
  induction node with
  | cons head tail inHead inTail =>
      rcases List.mem_append.mp isDeclared with isDeclared | isDeclared
      · exact (inHead isDeclared).part (.head _)
      · exact (inTail isDeclared).part (.tail _ (.head _))
  | varStmt => exact (named_of_mem_bound isDeclared).part (.head _)
  | functionStmt | exportFunction | classStmt | exportClass =>
      exact (named_of_mem_givenName isDeclared).part (.head _)
  | enumStmt | typeOnly | importStmt => exact .here isDeclared
  | exportDecl span declaration inside => exact (inside isDeclared).part (.head _)
  | _ => cases isDeclared

theorem named_of_mem_varsHere (isVar : name ∈ varsHere node) : Named name ⟨c, node⟩ := by
  unfold varsHere at isVar
  split at isVar
  · exact (named_of_mem_bound isVar).part (.head _)
  · exact (named_of_mem_bound isVar).part (.head _)
  · cases isVar

theorem named_of_mem_hoisted (isNested : isStatement c) (isHoisted : name ∈ hoisted node) :
    Named name ⟨c, node⟩ := by
  obtain ⟨inner, reaches, isVar⟩ := (mem_hoisted_iff isNested).mp isHoisted
  apply Named.reached _ reaches (named_of_mem_varsHere isVar)
  intro outer part isPart
  unfold nestedParts at isPart
  split at isPart
  · cases isPart
  · exact (List.mem_filter.mp isPart).1

theorem named_of_mem_declaredInBody {body : Node (.list .stmt)}
    (isDeclared : name ∈ declaredInBody body) : Named name ⟨_, body⟩ := by
  rcases List.mem_append.mp isDeclared with isDeclared | isHoisted
  · exact named_of_mem_declared isDeclared
  · exact named_of_mem_hoisted rfl isHoisted

theorem named_of_mem_declaredInArms (isDeclared : name ∈ declaredInArms node) :
    Named name ⟨c, node⟩ := by
  induction node with
  | cons head tail inHead inTail =>
      rcases List.mem_append.mp isDeclared with isDeclared | isDeclared
      · exact (inHead isDeclared).part (.head _)
      · exact (inTail isDeclared).part (.tail _ (.head _))
  | switchArm => exact (named_of_mem_declared isDeclared).part (.tail _ (.head _))
  | _ => cases isDeclared

theorem named_of_mem_declaredInArrow {body : Node .arrowBody}
    (isDeclared : name ∈ declaredInArrow body) : Named name ⟨_, body⟩ := by
  cases body with
  | bodyExpr => cases isDeclared
  | bodyBlock => exact (named_of_mem_declaredInBody isDeclared).part (.head _)

theorem named_of_mem_declaredThere {body : Node (.option (.list .stmt))}
    (isDeclared : name ∈ declaredThere body) : Named name ⟨_, body⟩ := by
  cases body with
  | absent => cases isDeclared
  | present => exact (named_of_mem_declared isDeclared).part (.head _)

/-- The names that are declared for a branch stand in a node, but for the arguments of a
function. -/
def Branch.NamedIn (branch : Branch) (node : AnyNode) : Prop :=
  ∀ name ∈ branch.names, name = "arguments" ∨ Named name node

/-- What a node declares for its branches stands in it. -/
theorem namedIn_of_mem_branches (role : Role) {c : Category} (node : Node c) :
    ∀ branch ∈ branches role node, branch.NamedIn ⟨c, node⟩ := by
  have one {outer : AnyNode} {first : Branch} (inFirst : first.NamedIn outer) :
      ∀ branch ∈ [first], branch.NamedIn outer :=
    List.forall_mem_singleton.mpr inFirst
  have more {outer : AnyNode} {first : Branch} {rest : List Branch}
      (inFirst : first.NamedIn outer) (inRest : ∀ branch ∈ rest, branch.NamedIn outer) :
      ∀ branch ∈ first :: rest, branch.NamedIn outer :=
    List.forall_mem_cons.mpr ⟨inFirst, inRest⟩
  have all {outer : AnyNode} {names : List String} {parts : List AnyNode}
      (each : ∀ name ∈ names, name = "arguments" ∨ Named name outer) :
      ∀ branch ∈ parts.map fun part => ({ part, names } : Branch), branch.NamedIn outer :=
    List.forall_mem_map.mpr fun _ _ => each
  have silent {outer part : AnyNode} {role : Role} : (⟨part, role, []⟩ : Branch).NamedIn outer :=
    fun _ => nofun
  have allSilent {outer : AnyNode} {parts : List AnyNode} :
      ∀ branch ∈ parts.map fun part => ({ part } : Branch), branch.NamedIn outer :=
    all fun _ => nofun
  cases node with
  | present | headVar | headPattern | bindArray | bindObject | bindRest | boundRest =>
      exact one silent
  | bindDefault | boundKey | assign => exact more silent (one silent)
  | unary _ op operand =>
      cases op with
      | typeOf =>
          cases operand with
          | name => exact List.forall_mem_nil _
          | _ => exact allSilent
      | _ => exact allSilent
  | cons head tail =>
      have inHead : ∀ name ∈ declaredInHead role head,
          name = "arguments" ∨ Named name ⟨_, .cons head tail⟩ := by
        intro name isDeclared
        cases role with
        | head => exact .inr ((named_of_mem_bound isDeclared).part (.head _))
        | _ => cases isDeclared
      exact more inHead (one inHead)
  | block =>
      exact one fun _ isDeclared => .inr ((named_of_mem_declared isDeclared).part (.head _))
  | forStmt =>
      exact more silent
        (all fun _ isBound => .inr ((named_of_mem_bound isBound).part (.head _)))
  | forEach =>
      exact more silent (more silent
        (one fun _ isBound => .inr ((named_of_mem_bound isBound).part (.head _))))
  | tryStmt span body param handler finalizer =>
      have inBody {name : String} (isDeclared : name ∈ declared body) :
          Named name ⟨_, .tryStmt span body param handler finalizer⟩ :=
        (named_of_mem_declared isDeclared).part (.head _)
      have inParam {name : String} (isBound : name ∈ bound param) :
          Named name ⟨_, .tryStmt span body param handler finalizer⟩ :=
        (named_of_mem_bound isBound).part (.tail _ (.head _))
      have inFinalizer {name : String} (isDeclared : name ∈ declaredThere finalizer) :
          Named name ⟨_, .tryStmt span body param handler finalizer⟩ :=
        (named_of_mem_declaredThere isDeclared).part (.tail _ (.tail _ (.tail _ (.head _))))
      cases handler with
      | absent =>
          exact more (fun _ isDeclared => .inr (inBody isDeclared))
            (one fun _ isDeclared => .inr (inFinalizer isDeclared))
      | present handler =>
          apply more fun _ isDeclared => .inr (inBody isDeclared)
          apply more fun _ isBound => .inr (inParam isBound)
          apply more _ (one fun _ isDeclared => .inr (inFinalizer isDeclared))
          intro name isDeclared
          right
          rcases List.mem_append.mp isDeclared with isDeclared | isBound
          · have inHandler : Named name ⟨_, .present handler⟩ :=
              (named_of_mem_declared isDeclared).part (.head _)
            exact inHandler.part (.tail _ (.tail _ (.head _)))
          · exact inParam isBound
  | switchStmt =>
      exact more silent (one fun _ isDeclared =>
        .inr ((named_of_mem_declaredInArms isDeclared).part (.tail _ (.head _))))
  | func _ given params body =>
      apply all
      intro name isDeclared
      rcases List.mem_cons.mp isDeclared with isArguments | isDeclared
      · exact .inl isArguments
      · right
        rcases List.mem_append.mp isDeclared with isDeclared | isDeclared
        · rcases List.mem_append.mp isDeclared with isGiven | isBound
          · exact .here isGiven
          · exact (named_of_mem_bound isBound).part (.head _)
        · exact (named_of_mem_declaredInBody isDeclared).part (.tail _ (.head _))
  | klass => exact all fun _ isGiven => .inr (.here isGiven)
  | arrow =>
      apply all
      intro name isDeclared
      right
      rcases List.mem_append.mp isDeclared with isBound | isDeclared
      · exact (named_of_mem_bound isBound).part (.head _)
      · exact (named_of_mem_declaredInArrow isDeclared).part (.tail _ (.head _))
  | _ => exact allSilent

end StopMotion.Validation
