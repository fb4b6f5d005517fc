import StopMotion.Proofs.Syntax.Visit
import StopMotion.Proofs.Text.Edit
import StopMotion.Proofs.Text.Indent

/-!
# Regions of a module

A region is a part of the source that an edit may take up: a stretch of the tree, the lines
of a simple statement, or an attribute with the blanks before it. Any two regions lie beside
each other or one inside the other, so no edit cuts another one in two.
-/

namespace StopMotion.Syntax

open Forest (Spot Related)

/-- What may be taken up for a stretch: the stretch, its lines when it is a simple statement,
and the blanks before it too when it is an attribute. -/
inductive Forest.Spot.Covered (source : List Char) (spot : Spot) : Span → Prop where
  | exact : spot.Covered source spot.span
  | lines (isSimple : spot.role = .simple) :
      spot.Covered source (Text.wholeLines source spot.span)
  | blanks {start : Nat} (isAttribute : spot.role = .attribute)
      (blank : Text.Run Text.isBlank source start spot.span.start) :
      spot.Covered source ⟨start, spot.span.stop⟩

namespace Forest.Spot

variable {source : List Char} {spot first second : Spot} {region firstRegion secondRegion : Span}

/-- A stretch is parted from the start of its region by blanks. -/
theorem Covered.blank_before (covered : spot.Covered source region)
    (snug : spot.span.Snug source) :
    Text.Run Text.isBlank source region.start spot.span.start := by
  cases covered with
  | exact =>
      obtain ⟨before, c, behind, joined, starts, _⟩ := snug.opens
      rw [joined, ← starts]
      exact .none rfl
  | lines _ =>
      exact (Text.widened_wholeLines snug.opens snug.closes).indented.mono Text.isBlank_of_isIndent
  | blanks _ blank => exact blank

/-- A stretch lies in its region. -/
theorem Covered.contains (covered : spot.Covered source region) (snug : spot.span.Snug source) :
    region.contains spot.span = true := by
  refine Span.contains_iff.mpr ⟨(covered.blank_before snug).le, ?_⟩
  cases covered with
  | exact => exact Nat.le_refl _
  | lines _ => exact (Text.widened_wholeLines snug.opens snug.closes).blank.le
  | blanks _ _ => exact Nat.le_refl _

/-- Of two stretches beside each other the region of the first one ends before that of the
second one. -/
theorem Covered.stop_le_start (firstCovered : first.Covered source firstRegion)
    (secondCovered : second.Covered source secondRegion) (firstSnug : first.span.Snug source)
    (secondSnug : second.span.Snug source) (ordered : first.span.stop ≤ second.span.start)
    (parted : first.role = .simple → second.role = .attribute →
      ∃ edge, first.span.stop < edge ∧ edge ≤ second.span.start ∧ Text.ClosesAt source edge) :
    firstRegion.stop ≤ secondRegion.start := by
  have behind : first.span.stop ≤ secondRegion.start :=
    (secondCovered.blank_before secondSnug).not_closesAt firstSnug.closes ordered
  cases firstCovered with
  | exact => exact behind
  | blanks _ _ => exact behind
  | lines isSimple =>
      have widened := Text.widened_wholeLines firstSnug.opens firstSnug.closes
      cases secondCovered with
      | exact => exact widened.blank.not_opensAt secondSnug.opens ordered
      | lines _ =>
          exact widened.le_of_le (Text.widened_wholeLines secondSnug.opens secondSnug.closes)
            secondSnug.opens firstSnug.closes ordered
      | blanks isAttribute blank =>
          obtain ⟨edge, above, upper, closes⟩ := parted isSimple isAttribute
          have before := blank.not_closesAt closes upper
          have upTo : (Text.wholeLines source first.span).stop ≤ edge :=
            Nat.le_of_not_lt fun beyond => by
              have := widened.blank.not_closesAt closes (Nat.le_of_lt beyond)
              omega
          exact Nat.le_trans upTo before

/-- Of a stretch and one inside of it, the region of the first one holds that of the second
one. -/
theorem Covered.contains_of_inside (firstCovered : first.Covered source firstRegion)
    (secondCovered : second.Covered source secondRegion) (firstSnug : first.span.Snug source)
    (secondSnug : second.span.Snug source) (starts : first.span.start ≤ second.span.start)
    (stops : second.span.stop ≤ first.span.stop)
    (forStmt : second.role.isStmt = true →
      first.span.start < second.span.start ∧ second.span.stop < first.span.stop)
    (forAttribute : second.role = .attribute → first.span.start < second.span.start) :
    firstRegion.contains secondRegion = true := by
  apply Span.contains_trans (firstCovered.contains firstSnug)
  have before (strict : first.span.start < second.span.start) :
      first.span.start ≤ secondRegion.start := by
    obtain ⟨edge, above, upper, closes⟩ :=
      firstSnug.opens.exists_closesAt secondSnug.opens strict
    have := (secondCovered.blank_before secondSnug).not_closesAt closes upper
    omega
  cases secondCovered with
  | exact => exact Span.contains_iff.mpr ⟨starts, stops⟩
  | blanks isAttribute _ => exact Span.contains_iff.mpr ⟨before (forAttribute isAttribute), stops⟩
  | lines isSimple =>
      obtain ⟨strictStart, strictStop⟩ := forStmt (by rw [isSimple]; rfl)
      refine Span.contains_iff.mpr ⟨before strictStart, Nat.le_of_not_lt fun beyond => ?_⟩
      have widened := Text.widened_wholeLines secondSnug.opens secondSnug.closes
      have := widened.blank.not_closesAt firstSnug.closes (Nat.le_of_lt beyond)
      omega

/-- The regions of two stretches of a tree. -/
theorem Covered.nests (firstCovered : first.Covered source firstRegion)
    (secondCovered : second.Covered source secondRegion) (firstSnug : first.span.Snug source)
    (secondSnug : second.span.Snug source) (notCompound : first.role ≠ .compound)
    (related : Related source first second) : firstRegion.Nests secondRegion := by
  rcases related with ⟨ordered, parted⟩ | ⟨starts, stops, forStmt, forAttribute⟩
  · exact .inl (.inl (firstCovered.stop_le_start secondCovered firstSnug secondSnug ordered parted))
  · exact .inr (.inl (firstCovered.contains_of_inside secondCovered firstSnug secondSnug starts
      stops (fun isStmt => forStmt isStmt notCompound) forAttribute))

/-- Two regions of the same stretch. -/
theorem Covered.nests_self (firstCovered : spot.Covered source firstRegion)
    (secondCovered : spot.Covered source secondRegion) (snug : spot.span.Snug source) :
    firstRegion.Nests secondRegion := by
  cases firstCovered with
  | exact => exact .inr (.inr (secondCovered.contains snug))
  | lines isSimple =>
      cases secondCovered with
      | exact => exact .inr (.inl ((Covered.lines isSimple).contains snug))
      | lines _ => exact .inr (.inl (Span.contains_refl _))
      | blanks isAttribute _ =>
          rw [isSimple] at isAttribute
          cases isAttribute
  | @blanks start isAttribute blank =>
      cases secondCovered with
      | exact => exact .inr (.inl ((Covered.blanks isAttribute blank).contains snug))
      | lines isSimple =>
          rw [isSimple] at isAttribute
          cases isAttribute
      | @blanks start' _ _ =>
          rcases Nat.le_total start start' with longer | shorter
          · exact .inr (.inl (Span.contains_iff.mpr ⟨longer, Nat.le_refl _⟩))
          · exact .inr (.inr (Span.contains_iff.mpr ⟨shorter, Nat.le_refl _⟩))

end Forest.Spot

/-- The spans of nested nodes, where both have a stretch. -/
theorem Node.Inside.contains {outer inner : AnyNode} {role role' : Role} {span span' : Span}
    {forest forest' : Forest} {source : List Char} {low high : Nat}
    (inside : Node.Inside inner outer) (laid : outer.2.outline.Laid source low high)
    (shape : outer.2.outline = .one role span forest)
    (shape' : inner.2.outline = .one role' span' forest') : span.contains span' = true := by
  have member := inside.outline_part.2 ⟨role', span'⟩ (by
    rw [shape']
    exact List.mem_cons_self)
  rw [shape] at laid member
  rcases List.mem_cons.mp member with same | deeper
  · cases same
    exact Span.contains_refl _
  · obtain ⟨_, _, _, within, _⟩ := laid
    obtain ⟨starts, stops, _⟩ := within.of_mem (by simpa [Forest.spots] using deeper)
    have inner := Role.inner_le role span
    exact Span.contains_iff.mpr ⟨Nat.le_trans inner.1 starts, Nat.le_trans stops inner.2⟩

/-! ## Modules -/

namespace Module

/-- The statements of a module as one node. -/
def root (module : Module) : AnyNode := ⟨_, Node.ofList module.body⟩

/-- A module whose statements are laid in its source. -/
def Laid (module : Module) : Prop :=
  module.root.2.outline.Laid module.source 0 (Text.size module.source)

/-- What an edit of the module may take up. -/
def Region (module : Module) (span : Span) : Prop :=
  ∃ spot ∈ module.root.2.outline.spots,
    spot.role ≠ .compound ∧ spot.Covered module.source span

/-- A node of the module. -/
def Holds (module : Module) (node : AnyNode) : Prop := Node.Inside node module.root

variable {module : Module}

/-- A statement of the module is a node of it. -/
theorem holds_of_mem {stmt : Stmt} (member : stmt ∈ module.body) : module.Holds ⟨_, stmt⟩ :=
  Node.inside_of_mem_toList (by rwa [Node.toList_ofList])

/-- What stands inside of a node of the module is a node of it. -/
theorem Holds.inside {outer inner : AnyNode} (held : module.Holds outer)
    (inside : Node.Inside inner outer) : module.Holds inner := inside.trans held

section
variable {α : Type} {pick : {c : Category} → Node c → Pick α}

/-- What a visit of all statements gathers it found at a node of the module. -/
theorem exists_of_mem_visit {x : α}
    (member : x ∈ module.body.flatMap fun stmt => stmt.collect pick) :
    ∃ node : AnyNode, module.Holds node ∧ Node.isSequence node.1 = false ∧
      x ∈ (pick node.2).found := by
  rw [← Node.collect_ofList] at member
  exact Node.exists_of_mem_collect _ member

/-- A visit of all statements comes to every node of the module, or it finds something around
the node where it does not go inside. -/
theorem Holds.exists_visited {node : AnyNode} (held : module.Holds node)
    (pick : {c : Category} → Node c → Pick α) (single : Node.isSequence node.1 = false) :
    ∃ middle : AnyNode, Node.Inside node middle ∧ module.Holds middle ∧
      Node.isSequence middle.1 = false ∧
      (∀ x ∈ (pick middle.2).found, x ∈ module.body.flatMap fun stmt => stmt.collect pick) ∧
        (middle = node ∨ (pick middle.2).goesInside = false) := by
  rw [← Node.collect_ofList]
  exact Node.exists_collected held single

end

/-- The expressions that a visit gathers are the nodes of the module that are expressions. -/
theorem mem_exprs_iff {expr : Expr} :
    expr ∈ module.body.flatMap Node.exprs ↔ module.Holds ⟨_, expr⟩ := by
  constructor
  · intro member
    obtain ⟨node, held, _, found⟩ := exists_of_mem_visit member
    rwa [Node.eq_of_asExpr? (Option.mem_toList.mp found)] at held
  · intro held
    obtain ⟨middle, _, _, _, found, rfl | stops⟩ :=
      held.exists_visited (fun inner => { found := inner.asExpr?.toList }) rfl
    · exact found expr (by simp [Node.asExpr?])
    · cases stops

/-- The stretches of a module lie beside or inside one another. -/
theorem Laid.related (laid : module.Laid) :
    module.root.2.outline.spots.Pairwise (Related module.source) := by
  refine Forest.Laid.pairwise_related laid (Node.sorted _) (.inr fun isTop => ?_)
  have given := List.all_eq_true.mp (Node.gives_of_tops module.root.2) _ isTop
  cases given

/-- A stretch of a node of the module is one of the module. -/
theorem Holds.spot_mem {node : AnyNode} {role : Role} {span : Span} {inside : Forest}
    (held : module.Holds node) (shape : node.2.outline = .one role span inside) :
    ⟨role, span⟩ ∈ module.root.2.outline.spots := by
  apply (Node.Inside.outline_part held).2 _
  rw [shape]
  exact List.mem_cons_self

/-- An expression of the module is a region. -/
theorem Holds.region_expr {expr : Expr} (held : module.Holds ⟨_, expr⟩) :
    module.Region expr.span := by
  obtain ⟨_, shape⟩ := expr.outline_expr
  exact ⟨_, held.spot_mem shape, by simp, .exact⟩

/-- A declarator of the module is a region. -/
theorem Holds.region_declarator {declarator : Node .declarator}
    (held : module.Holds ⟨_, declarator⟩) : module.Region declarator.span := by
  obtain ⟨_, shape⟩ := declarator.outline_declarator
  exact ⟨_, held.spot_mem shape, by simp, .exact⟩

/-- The spans of nested nodes of the module, where both have a stretch. -/
theorem Laid.contains_of_inside {outer inner : AnyNode} {role role' : Role} {span span' : Span}
    {forest forest' : Forest} (laid : module.Laid) (held : module.Holds outer)
    (shape : outer.2.outline = .one role span forest)
    (shape' : inner.2.outline = .one role' span' forest') (inside : Node.Inside inner outer) :
    span.contains span' = true := by
  obtain ⟨low, high, outerLaid⟩ := (Node.Inside.outline_part held).1 laid
  exact inside.contains outerLaid shape shape'

/-- A region holds something. -/
theorem Region.filled {span : Span} (laid : module.Laid) (region : module.Region span) :
    span.start < span.stop := by
  obtain ⟨spot, member, _, covered⟩ := region
  have snug := (Forest.Laid.of_mem laid member).2.2
  have := Span.contains_iff.mp (covered.contains snug)
  have := snug.filled
  omega

/-- Any two regions lie beside each other or one inside the other. -/
theorem Region.nests {first second : Span} (laid : module.Laid) (isFirst : module.Region first)
    (isSecond : module.Region second) : first.Nests second := by
  obtain ⟨spot, member, notCompound, covered⟩ := isFirst
  obtain ⟨spot', member', notCompound', covered'⟩ := isSecond
  have snug {spot : Spot} (member : spot ∈ module.root.2.outline.spots) :
      spot.span.Snug module.source := (Forest.Laid.of_mem laid member).2.2
  let Agree (left right : Spot) : Prop :=
    ∀ leftRegion rightRegion, left ∈ module.root.2.outline.spots →
      right ∈ module.root.2.outline.spots → left.role ≠ .compound → right.role ≠ .compound →
      left.Covered module.source leftRegion → right.Covered module.source rightRegion →
      leftRegion.Nests rightRegion
  have forward : module.root.2.outline.spots.Pairwise Agree :=
    laid.related.imp fun related leftRegion rightRegion isLeft isRight notLeft _ left right =>
      left.nests right (snug isLeft) (snug isRight) notLeft related
  have agree := List.Pairwise.forall_of_forall_of_flip (R := Agree)
    (fun spot _ leftRegion rightRegion isSpot _ _ _ left right =>
      left.nests_self right (snug isSpot)) forward
    (forward.imp fun agree leftRegion rightRegion isLeft isRight notLeft notRight left right =>
      (agree rightRegion leftRegion isRight isLeft notRight notLeft right left).symm)
  exact agree member member' first second member member' notCompound notCompound' covered covered'

end Module

end StopMotion.Syntax
