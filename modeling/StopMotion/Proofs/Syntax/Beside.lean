import StopMotion.Proofs.Syntax.Spans

/-!
# Parts beside each other

The parts of a node lie in sites that do not overlap, wherever the node lies. The exception is the
key of a method, which stands at the front of its function.
-/

namespace StopMotion.Syntax

namespace Plan

/-- Wherever the whole lies, two plans lie in it at sites one behind the other. -/
def Beside (first second whole : Plan) : Prop :=
  ∀ (source : List Char) (site : Site), whole.LiesAt source site →
    ∃ left right : Site, (left.high ≤ right.low ∨ right.high ≤ left.low) ∧
      first.LiesAt source left ∧ second.LiesAt source right

variable {first second whole : Plan}

theorem beside_append (first second : Plan) : Beside first second (first ++ second) := by
  intro source site lies
  obtain ⟨left, right, _, _, ordered, liesFirst, liesSecond⟩ := lies.of_append
  exact ⟨left, right, .inl ordered, liesFirst, liesSecond⟩

theorem Beside.symm (beside : Beside first second whole) : Beside second first whole := by
  intro source site lies
  obtain ⟨left, right, ordered, liesFirst, liesSecond⟩ := beside source site lies
  exact ⟨right, left, ordered.symm, liesSecond, liesFirst⟩

/-- Beside each other in a part is beside each other in the whole. -/
theorem Beside.mono {big : Plan} (beside : Beside first second whole) (part : Part whole big) :
    Beside first second big := by
  intro source site lies
  obtain ⟨inner, _, liesInner⟩ := part lies
  exact beside source inner liesInner

/-- Parts of plans beside each other are beside each other. -/
theorem Beside.of_part {first' second' : Plan} (beside : Beside first second whole)
    (part : Part first' first) (part' : Part second' second) : Beside first' second' whole := by
  intro source site lies
  obtain ⟨left, right, ordered, liesFirst, liesSecond⟩ := beside source site lies
  obtain ⟨left', within, liesFirst'⟩ := part liesFirst
  obtain ⟨right', within', liesSecond'⟩ := part' liesSecond
  have := within.low
  have := within.high
  have := within'.low
  have := within'.high
  exact ⟨left', right', by omega, liesFirst', liesSecond'⟩

end Plan

open Plan

/-- The parts of a node lie beside each other, or it is a method. -/
theorem Node.pairwise_beside (node : AnyNode) :
    (node.2.parts.Pairwise fun first second =>
      first.2.plan.Beside second.2.plan node.2.plan) ∨
    ∃ (key : Key) (value : Function), node.2.parts = [⟨_, key⟩, ⟨_, value⟩] ∧
      Part (value.plan.around key.plan) node.2.plan := by
  have left {first second whole : Plan} (part : Part (first ++ second) whole) :
      Part first whole := parthood.trans (parthood.left _ _) part
  have right {first second whole : Plan} (part : Part (first ++ second) whole) :
      Part second whole := parthood.trans (parthood.right _ _) part
  have both {first second whole : Plan} (part : Part (first ++ second) whole) :
      Beside first second whole := (beside_append _ _).mono part
  have two {c c' : Category} {first : Node c} {second : Node c'} {whole : Plan}
      (beside : Beside first.plan second.plan whole) :
      [(⟨c, first⟩ : AnyNode), ⟨c', second⟩].Pairwise fun first second =>
        first.2.plan.Beside second.2.plan whole :=
    List.pairwise_pair.mpr beside
  have three {c c' d : Category} {first : Node c} {second : Node c'} {third : Node d}
      {whole : Plan} (part : Part (first.plan ++ second.plan ++ third.plan) whole) :
      [(⟨c, first⟩ : AnyNode), ⟨c', second⟩, ⟨d, third⟩].Pairwise fun first second =>
        first.2.plan.Beside second.2.plan whole := by
    have last := both part
    refine List.pairwise_cons.mpr ⟨List.forall_mem_cons.mpr ⟨both (left part),
      List.forall_mem_singleton.mpr (last.of_part (parthood.left _ _) (parthood.refl _))⟩,
      two (last.of_part (parthood.right _ _) (parthood.refl _))⟩
  have four {c c' d d' : Category} {first : Node c} {second : Node c'} {third : Node d}
      {fourth : Node d'} {whole : Plan}
      (part : Part (first.plan ++ second.plan ++ third.plan ++ fourth.plan) whole) :
      [(⟨c, first⟩ : AnyNode), ⟨c', second⟩, ⟨d, third⟩, ⟨d', fourth⟩].Pairwise
        fun first second => first.2.plan.Beside second.2.plan whole := by
    have last := both part
    have firstTwo : Part (first.plan ++ second.plan) (first.plan ++ second.plan ++ third.plan) :=
      parthood.left _ _
    refine List.pairwise_cons.mpr ⟨List.forall_mem_cons.mpr ⟨both (left (left part)),
      List.forall_mem_cons.mpr ⟨?_, List.forall_mem_singleton.mpr ?_⟩⟩,
      List.pairwise_cons.mpr ⟨List.forall_mem_cons.mpr ⟨?_, List.forall_mem_singleton.mpr ?_⟩,
        two (last.of_part (parthood.right _ _) (parthood.refl _))⟩⟩
    · exact (both (left part)).of_part (parthood.left _ _) (parthood.refl _)
    · exact last.of_part (left firstTwo) (parthood.refl _)
    · exact (both (left part)).of_part (parthood.right _ _) (parthood.refl _)
    · exact last.of_part (right firstTwo) (parthood.refl _)
  have inside {role : Role} {span : Span} {plan : Plan} : Part plan (one role span plan) :=
    parthood.inside _ _ _
  obtain ⟨c, node⟩ := node
  cases node with
  | cons | switchArm | boundKey => exact .inl (two (both (parthood.refl _)))
  | ifStmt | forEach | conditional => exact .inl (three inside)
  | forStmt | tryStmt => exact .inl (four inside)
  | doWhile => exact .inl (two (both inside).symm)
  | func | staticBlock => exact .inl (two ((both inside).of_part (parthood.refl _) inside))
  | methodMember _ key _ value | methodEntry _ key value => exact .inr ⟨key, value, rfl, inside⟩
  | whileStmt | switchStmt | declares | klass | fieldMember | bindDefault | tagged | arrow
  | binary | assign | call | newCall | index | keyed | tag => exact .inl (two (both inside))
  | nil | absent | importStmt | exportNamed | exportAll | typeOnly | enumStmt | breakStmt
  | continueStmt | emptyStmt | debugger | bindName | keyName | keyPrivate | keyString | keyNumber
  | name | number | string | boolean | null | regex | this | super | metaProperty | shorthand
  | attrFlag | attrString | childText => exact .inl .nil
  | _ => exact .inl (List.pairwise_singleton _ _)

end StopMotion.Syntax
