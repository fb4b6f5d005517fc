import StopMotion.Proofs.Text.Edge
import StopMotion.Syntax.Visit

/-!
# The layout of a tree in its source

A node takes up a stretch of the source, and its parts take up stretches inside that one,
in order. `Forest` is what is left of a tree when only the stretches are kept, and
`Forest.Laid` says that they are nested and ordered, that each begins and ends with a
character that is not blank, and that brackets lie around what they enclose.
-/

namespace StopMotion

/-- A stretch that begins and ends with characters that are not blank. -/
structure Span.Snug (source : List Char) (span : Span) : Prop where
  opens : Text.OpensAt source span.start
  closes : Text.ClosesAt source span.stop
  filled : span.start < span.stop

namespace Syntax

/-- What a stretch of the source is, as far as its layout depends on it. A simple statement
is an expression or a declaration of variables; a block is the body of a function or of a
static block, and a container an expression in braces between tags. -/
inductive Role where
  | simple | compound | declarator | function | classDef | member | pattern
  | expr | block | entry | element | attribute | container
  deriving DecidableEq, Repr

namespace Role

/-- All roles. -/
def all : List Role :=
  [.simple, .compound, .declarator, .function, .classDef, .member, .pattern, .expr, .block,
    .entry, .element, .attribute, .container]

theorem mem_all (role : Role) : role ∈ all := by
  cases role <;> decide

instance (holds : Role → Prop) [DecidablePred holds] : Decidable (∀ role, holds role) :=
  decidable_of_iff (∀ role ∈ all, holds role)
    ⟨fun each role => each role (mem_all role), fun each role _ => each role⟩

/-- Whether brackets enclose what is inside. -/
def isBracketed : Role → Bool
  | block | element => true
  | _ => false

/-- Whether it is a statement. -/
def isStmt : Role → Bool
  | simple | compound => true
  | _ => false

/-- The part of a stretch that is left for what is inside. -/
def inner (role : Role) (span : Span) : Span :=
  if role.isBracketed then ⟨span.start + 1, span.stop - 1⟩ else span

/-- Whether a stretch of another role may stand right inside: statements stand in blocks and
in compound statements only, and attributes in elements. -/
def encloses (role top : Role) : Bool :=
  (!top.isStmt || role == compound || role == block) && (top != .attribute || role == element)

/-- A stretch that encloses others lies around what it leaves for them. -/
theorem inner_le (role : Role) (span : Span) :
    span.start ≤ (role.inner span).start ∧ (role.inner span).stop ≤ span.stop := by
  unfold inner
  split
  · exact ⟨Nat.le_succ _, Nat.sub_le _ _⟩
  · exact ⟨Nat.le_refl _, Nat.le_refl _⟩

theorem isStmt_false_of_encloses {role top : Role} (encloses : role.encloses top = true)
    (notCompound : role ≠ compound) (notBlock : role ≠ block) : top.isStmt = false := by
  revert role top
  decide

theorem eq_element_of_encloses {role : Role} (encloses : role.encloses .attribute = true) :
    role = element := by
  revert role
  decide

end Role

/-- Stretches of a source, each with those inside it, in order. -/
inductive Forest where
  | nil
  | plot (role : Role) (span : Span) (inside rest : Forest)

namespace Forest

/-- A single stretch. -/
def one (role : Role) (span : Span) (inside : Forest) : Forest := plot role span inside nil

/-- Stretches and others behind them. -/
def append : Forest → Forest → Forest
  | nil, behind => behind
  | plot role span inside rest, behind => plot role span inside (append rest behind)

instance : Append Forest := ⟨append⟩

/-- Stretches with some more at the front of the first one's inside. -/
def around : Forest → Forest → Forest
  | nil, inner => inner
  | plot role span inside rest, inner => plot role span (inner ++ inside) rest

@[simp] theorem nil_append (forest : Forest) : nil ++ forest = forest := rfl

@[simp] theorem plot_append (role : Role) (span : Span) (inside rest behind : Forest) :
    plot role span inside rest ++ behind = plot role span inside (rest ++ behind) := rfl

@[simp] theorem one_append (role : Role) (span : Span) (inside behind : Forest) :
    one role span inside ++ behind = plot role span inside behind := rfl

@[simp] theorem append_nil (forest : Forest) : forest ++ nil = forest := by
  induction forest with
  | nil => rfl
  | plot role span inside rest _ inductionHypothesis => simp [inductionHypothesis]

theorem append_assoc (first second third : Forest) :
    first ++ second ++ third = first ++ (second ++ third) := by
  induction first with
  | nil => rfl
  | plot role span inside rest _ inductionHypothesis => simp [inductionHypothesis]

/-- A stretch with its role. -/
structure Spot where
  role : Role
  span : Span
  deriving DecidableEq, Repr

/-- All stretches, an outer one before those inside it. -/
def spots : Forest → List Spot
  | nil => []
  | plot role span inside rest => ⟨role, span⟩ :: (inside.spots ++ rest.spots)

@[simp] theorem spots_append (first second : Forest) :
    (first ++ second).spots = first.spots ++ second.spots := by
  induction first with
  | nil => rfl
  | plot role span inside rest _ inductionHypothesis => simp [spots, inductionHypothesis]

/-- The stretches lie between two offsets of the source: snug and in order, those inside a
stretch within what it leaves for them. -/
def Laid (source : List Char) : (low high : Nat) → Forest → Prop
  | _, _, nil => True
  | low, high, plot role span inside rest =>
    low ≤ span.start ∧ span.stop ≤ high ∧ span.Snug source ∧
      inside.Laid source (role.inner span).start (role.inner span).stop ∧
      rest.Laid source span.stop high

variable {source : List Char} {low high : Nat}

@[simp] theorem laid_nil : nil.Laid source low high := trivial

/-- A single stretch is laid when it is snug and what is inside it is laid. -/
@[simp] theorem laid_one {role : Role} {span : Span} {inside : Forest} :
    (one role span inside).Laid source low high ↔
      low ≤ span.start ∧ span.stop ≤ high ∧ span.Snug source ∧
        inside.Laid source (role.inner span).start (role.inner span).stop := by
  simp [one, Laid]

/-- The offsets may be moved apart. -/
theorem Laid.mono {forest : Forest} {low' high' : Nat} (laid : forest.Laid source low high)
    (lower : low' ≤ low) (higher : high ≤ high') : forest.Laid source low' high' := by
  induction forest generalizing low low' with
  | nil => trivial
  | plot role span inside rest _ inductionHypothesis =>
      obtain ⟨begins, ends, snug, within, behind⟩ := laid
      exact ⟨Nat.le_trans lower begins, Nat.le_trans ends higher, snug, within,
        inductionHypothesis behind (Nat.le_refl _)⟩

/-- Stretches laid one behind the other. -/
theorem Laid.append {first second : Forest} {middle next : Nat}
    (before : first.Laid source low middle) (behind : second.Laid source next high)
    (ordered : middle ≤ next) (begins : low ≤ next) (ends : middle ≤ high) :
    (first ++ second).Laid source low high := by
  induction first generalizing low with
  | nil => exact behind.mono begins (Nat.le_refl _)
  | plot role span inside rest _ inductionHypothesis =>
      obtain ⟨starts, stops, snug, within, more⟩ := before
      exact ⟨starts, Nat.le_trans stops ends, snug, within,
        inductionHypothesis more (by omega)⟩

/-- Stretches that are laid as a whole are laid one behind the other. -/
theorem Laid.of_append {first second : Forest}
    (laid : (first ++ second).Laid source low high) :
    ∃ middle next, first.Laid source low middle ∧ second.Laid source next high ∧
      middle ≤ next ∧ low ≤ next ∧ middle ≤ high := by
  induction first generalizing low with
  | nil => exact ⟨0, low, trivial, laid, Nat.zero_le _, Nat.le_refl _, Nat.zero_le _⟩
  | plot role span inside rest _ inductionHypothesis =>
      obtain ⟨starts, stops, snug, within, more⟩ := laid
      have filled := snug.filled
      obtain ⟨middle, next, before, behind, ordered, begins, ends⟩ := inductionHypothesis more
      refine ⟨max span.stop middle, next, ⟨starts, Nat.le_max_left .., snug, within,
        before.mono (Nat.le_refl _) (Nat.le_max_right ..)⟩, behind, ?_, ?_, ?_⟩ <;> omega

/-- The front of stretches that are laid. -/
theorem Laid.of_append_left {first second : Forest}
    (laid : (first ++ second).Laid source low high) : first.Laid source low high := by
  obtain ⟨middle, next, before, _, _, _, ends⟩ := laid.of_append
  exact before.mono (Nat.le_refl _) ends

/-- The back of stretches that are laid. -/
theorem Laid.of_append_right {first second : Forest}
    (laid : (first ++ second).Laid source low high) : second.Laid source low high := by
  obtain ⟨middle, next, _, behind, _, begins, _⟩ := laid.of_append
  exact behind.mono begins (Nat.le_refl _)

/-- Each of two stretches laid one behind the other may be read again. -/
theorem Laid.append_congr {first second first' second' : Forest}
    (laid : (first ++ second).Laid source low high)
    (left : ∀ {low high : Nat}, first.Laid source low high → first'.Laid source low high)
    (right : ∀ {low high : Nat}, second.Laid source low high → second'.Laid source low high) :
    (first' ++ second').Laid source low high := by
  obtain ⟨middle, next, before, behind, ordered, begins, ends⟩ := laid.of_append
  exact (left before).append (right behind) ordered begins ends

/-- Every stretch of those that are laid is snug and lies between the offsets. -/
theorem Laid.of_mem {forest : Forest} {spot : Spot} (laid : forest.Laid source low high)
    (member : spot ∈ forest.spots) :
    low ≤ spot.span.start ∧ spot.span.stop ≤ high ∧ spot.span.Snug source := by
  induction forest generalizing low high with
  | nil => cases member
  | plot role span inside rest insideHypothesis restHypothesis =>
      obtain ⟨starts, stops, snug, within, more⟩ := laid
      have filled := snug.filled
      have inner := Role.inner_le role span
      rcases List.mem_cons.mp member with rfl | deeper
      · exact ⟨starts, stops, snug⟩
      · rcases List.mem_append.mp deeper with isInside | isBehind
        · obtain ⟨begins, ends, spotSnug⟩ := insideHypothesis within isInside
          exact ⟨by omega, by omega, spotSnug⟩
        · obtain ⟨begins, ends, spotSnug⟩ := restHypothesis more isBehind
          exact ⟨by omega, ends, spotSnug⟩

/-! ## Neighbours -/

/-- The roles at the top. -/
def tops : Forest → List Role
  | nil => []
  | plot role _ _ rest => role :: rest.tops

@[simp] theorem tops_append (first second : Forest) :
    (first ++ second).tops = first.tops ++ second.tops := by
  induction first with
  | nil => rfl
  | plot role span inside rest _ inductionHypothesis => simp [tops, inductionHypothesis]

/-- Every stretch encloses only what may stand right inside of it. -/
def Sorted : Forest → Prop
  | nil => True
  | plot role _ inside rest =>
    inside.tops.all role.encloses = true ∧ inside.Sorted ∧ rest.Sorted

@[simp] theorem sorted_append (first second : Forest) :
    (first ++ second).Sorted ↔ first.Sorted ∧ second.Sorted := by
  induction first with
  | nil => simp [Sorted]
  | plot role span inside rest _ inductionHypothesis =>
      simp [Sorted, inductionHypothesis, and_assoc]

/-- No statement stands right inside of a stretch that holds none. -/
theorem bare_of_encloses {role : Role} {inside : Forest}
    (homes : inside.tops.all role.encloses = true) (notCompound : role ≠ .compound)
    (notBlock : role ≠ .block) : ∀ top ∈ inside.tops, top.isStmt = false :=
  fun top isTop =>
    Role.isStmt_false_of_encloses (List.all_eq_true.mp homes top isTop) notCompound notBlock

/-- A statement among stretches none of which is a statement stands in brackets. -/
theorem Laid.strict_of_stmt {forest : Forest} {spot : Spot} (laid : forest.Laid source low high)
    (sorted : forest.Sorted) (bare : ∀ top ∈ forest.tops, top.isStmt = false)
    (member : spot ∈ forest.spots) (isStmt : spot.role.isStmt = true) :
    low < spot.span.start ∧ spot.span.stop < high := by
  induction forest generalizing low high with
  | nil => cases member
  | plot role span inside rest insideHypothesis restHypothesis =>
      obtain ⟨starts, stops, snug, within, more⟩ := laid
      obtain ⟨homes, sortedInside, sortedRest⟩ := sorted
      have filled := snug.filled
      have inner := Role.inner_le role span
      have plain : role.isStmt = false := bare role (by simp [tops])
      rcases List.mem_cons.mp member with rfl | deeper
      · rw [plain] at isStmt
        cases isStmt
      · rcases List.mem_append.mp deeper with isInside | isBehind
        · by_cases isBlock : role = .block
          · subst isBlock
            obtain ⟨begins, ends, _⟩ := within.of_mem isInside
            simp only [Role.inner, Role.isBracketed, if_true] at begins ends
            omega
          · have notCompound : role ≠ .compound := by
              rintro rfl
              cases plain
            have := insideHypothesis within sortedInside
              (bare_of_encloses homes notCompound isBlock) isInside
            omega
        · have := restHypothesis more sortedRest
            (fun top isTop => bare top (by simp [tops, isTop])) isBehind
          omega

/-- An attribute that does not stand at the top stands behind the opening of its element. -/
theorem Laid.opens_before_attribute {forest : Forest} {spot : Spot}
    (laid : forest.Laid source low high) (sorted : forest.Sorted)
    (bare : Role.attribute ∉ forest.tops) (member : spot ∈ forest.spots)
    (isAttribute : spot.role = .attribute) :
    ∃ offset, low ≤ offset ∧ offset < spot.span.start ∧ Text.OpensAt source offset := by
  induction forest generalizing low high with
  | nil => cases member
  | plot role span inside rest insideHypothesis restHypothesis =>
      obtain ⟨starts, stops, snug, within, more⟩ := laid
      obtain ⟨homes, sortedInside, sortedRest⟩ := sorted
      have filled := snug.filled
      have inner := Role.inner_le role span
      simp only [tops, List.mem_cons, not_or] at bare
      rcases List.mem_cons.mp member with rfl | deeper
      · exact absurd isAttribute.symm bare.1
      · rcases List.mem_append.mp deeper with isInside | isBehind
        · by_cases isElement : role = .element
          · subst isElement
            obtain ⟨begins, _, _⟩ := within.of_mem isInside
            simp only [Role.inner, Role.isBracketed, if_true] at begins
            exact ⟨span.start, starts, by omega, snug.opens⟩
          · obtain ⟨offset, lower, below, opens⟩ := insideHypothesis within sortedInside
              (fun top => isElement (Role.eq_element_of_encloses (List.all_eq_true.mp homes _ top)))
              isInside
            exact ⟨offset, by omega, below, opens⟩
        · obtain ⟨offset, lower, below, opens⟩ :=
            restHypothesis more sortedRest bare.2 isBehind
          exact ⟨offset, by omega, below, opens⟩

/-- How a stretch lies to one before it: behind it, or inside it. Something stands between
a simple statement and an attribute behind it. A statement touches no edge of what it lies
in, compound statements apart, and an attribute does not touch the first edge of it. -/
def Related (source : List Char) (first second : Spot) : Prop :=
  (first.span.stop ≤ second.span.start ∧
    (first.role = .simple → second.role = .attribute →
      ∃ edge, first.span.stop < edge ∧ edge ≤ second.span.start ∧ Text.ClosesAt source edge)) ∨
  (first.span.start ≤ second.span.start ∧ second.span.stop ≤ first.span.stop ∧
    (second.role.isStmt = true → first.role ≠ .compound →
      first.span.start < second.span.start ∧ second.span.stop < first.span.stop) ∧
    (second.role = .attribute → first.span.start < second.span.start))

/-- A stretch and one inside it. -/
theorem Laid.related_inside {role : Role} {span : Span} {inside : Forest} {spot : Spot}
    (snug : span.Snug source)
    (within : inside.Laid source (role.inner span).start (role.inner span).stop)
    (homes : inside.tops.all role.encloses = true)
    (sorted : inside.Sorted) (member : spot ∈ inside.spots) :
    Related source ⟨role, span⟩ spot := by
  have filled := snug.filled
  have inner := Role.inner_le role span
  obtain ⟨begins, ends, spotSnug⟩ := within.of_mem member
  refine .inr ⟨by simp only; omega, by simp only; omega, fun isStmt notCompound => ?_,
    fun isAttribute => ?_⟩
  · by_cases isBlock : role = .block
    · subst isBlock
      simp only [Role.inner, Role.isBracketed, if_true] at begins ends
      have := spotSnug.filled
      constructor <;> simp only <;> omega
    · have := within.strict_of_stmt sorted (bare_of_encloses homes notCompound isBlock) member
        isStmt
      constructor <;> simp only <;> omega
  · by_cases isElement : role = .element
    · subst isElement
      simp only [Role.inner, Role.isBracketed, if_true] at begins
      simp only
      omega
    · obtain ⟨offset, lower, below, _⟩ := within.opens_before_attribute sorted
        (fun top => isElement (Role.eq_element_of_encloses (List.all_eq_true.mp homes _ top)))
        member isAttribute
      simp only
      omega

/-- A stretch of a forest and one of those behind it. -/
theorem Laid.related_behind {role : Role} {span : Span} {inside rest : Forest}
    {first second : Spot} (snug : span.Snug source)
    (within : inside.Laid source (role.inner span).start (role.inner span).stop)
    (more : rest.Laid source span.stop high)
    (homes : inside.tops.all role.encloses = true)
    (sorted : inside.Sorted) (sortedRest : rest.Sorted)
    (pure : role.isStmt = true → Role.attribute ∉ rest.tops)
    (isFirst : first = ⟨role, span⟩ ∨ first ∈ inside.spots) (isSecond : second ∈ rest.spots) :
    Related source first second := by
  obtain ⟨begins, _, secondSnug⟩ := more.of_mem isSecond
  have ends : first.span.stop ≤ span.stop := by
    have inner := Role.inner_le role span
    rcases isFirst with rfl | isInside
    · exact Nat.le_refl _
    · have := (within.of_mem isInside).2.1
      omega
  refine .inl ⟨by omega, fun isSimple isAttribute => ?_⟩
  by_cases stmt : role.isStmt = true
  · -- No attribute stands beside a statement, so the second one's element opens in between.
    obtain ⟨offset, lower, below, opens⟩ :=
      more.opens_before_attribute sortedRest (pure stmt) isSecond isAttribute
    obtain ⟨edge, above, upper, closes⟩ := opens.exists_closesAt secondSnug.opens below
    exact ⟨edge, by omega, upper, closes⟩
  · -- The statement lies strictly inside of something that is none.
    have strict : first.span.stop < span.stop := by
      rcases isFirst with rfl | isInside
      · simp only at isSimple
        subst isSimple
        exact absurd rfl stmt
      · have := related_inside snug within homes sorted isInside
        rcases this with ⟨apart, _⟩ | ⟨_, _, touches, _⟩
        · have := (within.of_mem isInside).2.1
          have := Role.inner_le role span
          have := snug.filled
          have := (within.of_mem isInside).2.2.filled
          simp only at apart
          omega
        · refine (touches (by rw [isSimple]; rfl) ?_).2
          rintro compound
          simp only at compound
          subst compound
          exact stmt rfl
    exact ⟨span.stop, strict, begins, snug.closes⟩

/-- Any two stretches of those that are laid lie beside each other or one inside the
other. -/
theorem Laid.pairwise_related {forest : Forest} (laid : forest.Laid source low high)
    (sorted : forest.Sorted)
    (pure : (∀ top ∈ forest.tops, top.isStmt = false) ∨ Role.attribute ∉ forest.tops) :
    forest.spots.Pairwise (Related source) := by
  induction forest generalizing low high with
  | nil => exact .nil
  | plot role span inside rest insideHypothesis restHypothesis =>
      obtain ⟨starts, stops, snug, within, more⟩ := laid
      obtain ⟨homes, sortedInside, sortedRest⟩ := sorted
      have pureRest : (∀ top ∈ rest.tops, top.isStmt = false) ∨ Role.attribute ∉ rest.tops := by
        refine pure.imp (fun bare top isTop => bare top (by simp [tops, isTop])) fun bare => ?_
        simp only [tops, List.mem_cons, not_or] at bare
        exact bare.2
      have pureStmt : role.isStmt = true → Role.attribute ∉ rest.tops := by
        intro stmt
        rcases pure with bare | bare
        · rw [bare role (by simp [tops])] at stmt
          cases stmt
        · simp only [tops, List.mem_cons, not_or] at bare
          exact bare.2
      have pureInside : (∀ top ∈ inside.tops, top.isStmt = false) ∨
          Role.attribute ∉ inside.tops := by
        by_cases held : Role.attribute ∈ inside.tops
        · obtain rfl := Role.eq_element_of_encloses (List.all_eq_true.mp homes _ held)
          exact .inl (bare_of_encloses homes (by decide) (by decide))
        · exact .inr held
      have behind {first second : Spot} (isFirst : first = ⟨role, span⟩ ∨ first ∈ inside.spots)
          (isSecond : second ∈ rest.spots) : Related source first second :=
        related_behind snug within more homes sortedInside sortedRest pureStmt isFirst isSecond
      refine .cons (fun spot member => ?_) (List.pairwise_append.mpr
        ⟨insideHypothesis within sortedInside pureInside,
          restHypothesis more sortedRest pureRest,
          fun first isFirst second isSecond => behind (.inr isFirst) isSecond⟩)
      rcases List.mem_append.mp member with isInside | isBehind
      · exact related_inside snug within homes sortedInside isInside
      · exact behind (.inl rfl) isBehind

end Forest

/-! ## The stretches of a tree -/

/-- What can be put together from the stretches of a tree. A drawing may leave out keys and
the text between tags. -/
class Drawing (α : Type) extends Append α where
  blank : α
  stretch : Role → Span → α → α
  around : α → α → α
  key : Span → α
  text : Span → α

instance : Drawing Forest where
  blank := .nil
  stretch := Forest.one
  around := Forest.around
  key _ := .nil
  text _ := .nil

open Drawing in
/-- A node and everything inside it, drawn. The key of a method stands inside the stretch of
its function; a name alone in an object literal counts as its value. -/
def Node.draw {α : Type} [Drawing α] : {c : Category} → Node c → α
  | _, .nil | _, .absent => blank
  | _, .cons head tail => draw head ++ draw tail
  | _, .present value => draw value
  | _, .importStmt span .. | _, .exportNamed span .. | _, .exportAll span ..
  | _, .typeOnly span _ | _, .enumStmt span _ | _, .breakStmt span _
  | _, .continueStmt span _ | _, .emptyStmt span | _, .debugger span =>
    stretch .compound span blank
  | _, .exportDecl span declaration => stretch .compound span (draw declaration)
  | _, .exportExpr span value => stretch .compound span (draw value)
  | _, .exportFunction span value => stretch .compound span (draw value)
  | _, .exportClass span value => stretch .compound span (draw value)
  | _, .varStmt span _ declarators => stretch .simple span (draw declarators)
  | _, .functionStmt span value => stretch .compound span (draw value)
  | _, .classStmt span value => stretch .compound span (draw value)
  | _, .exprStmt span value => stretch .simple span (draw value)
  | _, .block span body => stretch .compound span (draw body)
  | _, .ifStmt span test consequent alternative =>
    stretch .compound span (draw test ++ draw consequent ++ draw alternative)
  | _, .forStmt span init test step body =>
    stretch .compound span (draw init ++ draw test ++ draw step ++ draw body)
  | _, .forEach span left right body _ =>
    stretch .compound span (draw left ++ draw right ++ draw body)
  | _, .whileStmt span test body => stretch .compound span (draw test ++ draw body)
  | _, .doWhile span body test => stretch .compound span (draw body ++ draw test)
  | _, .returnStmt span value => stretch .compound span (draw value)
  | _, .throwStmt span value => stretch .compound span (draw value)
  | _, .tryStmt span body param handler finalizer =>
    stretch .compound span (draw body ++ draw param ++ draw handler ++ draw finalizer)
  | _, .switchStmt span subject arms => stretch .compound span (draw subject ++ draw arms)
  | _, .labeled span _ body => stretch .compound span (draw body)
  | _, .switchArm test body => draw test ++ draw body
  | _, .headVar _ declarators => draw declarators
  | _, .headExpr value => draw value
  | _, .headPattern target => draw target
  | _, .declares span target init => stretch .declarator span (draw target ++ draw init)
  | _, .func span _ params body bodySpan _ _ =>
    stretch .function span (draw params ++ stretch .block bodySpan (draw body))
  | _, .klass span _ superClass members =>
    stretch .classDef span (draw superClass ++ draw members)
  | _, .methodMember span key _ value => stretch .member span (around (draw value) (draw key))
  | _, .fieldMember span key _ init => stretch .member span (draw key ++ draw init)
  | _, .staticBlock span key body =>
    stretch .member span (draw key ++ stretch .block span (draw body))
  | _, .bindName span _ => stretch .pattern span blank
  | _, .bindArray span elements => stretch .pattern span (draw elements)
  | _, .bindObject span entries => stretch .pattern span (draw entries)
  | _, .bindDefault span target value => stretch .pattern span (draw target ++ draw value)
  | _, .bindRest span target => stretch .pattern span (draw target)
  | _, .bindExpr span target => stretch .pattern span (draw target)
  | _, .boundKey key value => draw key ++ draw value
  | _, .boundRest target => draw target
  | _, .keyName found | _, .keyPrivate found => key found.span
  | _, .keyString span _ | _, .keyNumber span _ => key span
  | _, .keyComputed value => draw value
  | _, .name span _ | _, .number span _ | _, .string span _ | _, .boolean span _ | _, .null span
  | _, .regex span | _, .this span | _, .super span | _, .metaProperty span =>
    stretch .expr span blank
  | _, .template span _ substitutions => stretch .expr span (draw substitutions)
  | _, .tagged span callee _ substitutions =>
    stretch .expr span (draw callee ++ draw substitutions)
  | _, .array span elements => stretch .expr span (draw elements)
  | _, .object span entries => stretch .expr span (draw entries)
  | _, .functionExpr span value => stretch .expr span (draw value)
  | _, .arrow span params body _ => stretch .expr span (draw params ++ draw body)
  | _, .classExpr span value => stretch .expr span (draw value)
  | _, .unary span _ operand => stretch .expr span (draw operand)
  | _, .update span _ _ operand => stretch .expr span (draw operand)
  | _, .binary span _ left right => stretch .expr span (draw left ++ draw right)
  | _, .assign span _ target value => stretch .expr span (draw target ++ draw value)
  | _, .conditional span test consequent alternative =>
    stretch .expr span (draw test ++ draw consequent ++ draw alternative)
  | _, .call span callee arguments _ => stretch .expr span (draw callee ++ draw arguments)
  | _, .newCall span callee arguments => stretch .expr span (draw callee ++ draw arguments)
  | _, .member span owner _ _ => stretch .expr span (draw owner)
  | _, .privateMember span owner _ _ => stretch .expr span (draw owner)
  | _, .index span owner property _ => stretch .expr span (draw owner ++ draw property)
  | _, .sequence span items => stretch .expr span (draw items)
  | _, .paren span inner => stretch .expr span (draw inner)
  | _, .spread span operand => stretch .expr span (draw operand)
  | _, .awaited span operand => stretch .expr span (draw operand)
  | _, .yielded span operand => stretch .expr span (draw operand)
  | _, .assertion span operand => stretch .expr span (draw operand)
  | _, .jsx span value => stretch .expr span (draw value)
  | _, .bodyExpr value => draw value
  | _, .bodyBlock span body => stretch .block span (draw body)
  | _, .keyed span key value => stretch .entry span (draw key ++ draw value)
  | _, .shorthand span found => stretch .entry span (stretch .expr found.span blank)
  | _, .spreadEntry span operand => stretch .entry span (draw operand)
  | _, .methodEntry span key value => stretch .entry span (around (draw value) (draw key))
  | _, .tag span _ attributes children =>
    stretch .element span (draw attributes ++ draw children)
  | _, .attrFlag span _ | _, .attrString span _ _ _ => stretch .attribute span blank
  | _, .attrExpr span _ value => stretch .attribute span (draw value)
  | _, .attrElement span _ value => stretch .attribute span (draw value)
  | _, .attrSpread span operand => stretch .attribute span (draw operand)
  | _, .childText span _ => text span
  | _, .childExpr span value => stretch .container span (draw value)
  | _, .childSpread operand => draw operand
  | _, .childElement value => draw value

/-- The stretches of a node and of everything inside it that are snug and in order. A plain
key takes up none, as a name with a default value in an object literal is key and value at
once, and the text between tags none, as it may be blank. -/
def Node.outline {c : Category} (node : Node c) : Forest := node.draw

/-! ## What stands right inside of what -/

/-- The roles that nodes of a category have at the top. -/
def Category.gives : Category → Role → Bool
  | .stmt, role => role.isStmt
  | .arm, role => role.isStmt || role == .expr
  | .loopHead, role => [.declarator, .expr, .pattern].contains role
  | .declarator, role => role == .declarator
  | .function, role => role == .function
  | .classDef, role => role == .classDef
  | .classMember, role => role == .member
  | .pattern, role => role == .pattern
  | .patternEntry, role => role == .pattern || role == .expr
  | .key, role | .expr, role => role == .expr
  | .arrowBody, role => role == .expr || role == .block
  | .entry, role => role == .entry
  | .element, role => role == .element
  | .jsxAttribute, role => role == .attribute
  | .child, role => [.expr, .container, .element].contains role
  | .list of, role | .option of, role => of.gives role

/-- At the top a node has a role of its category. -/
theorem Node.gives_of_tops {c : Category} (node : Node c) :
    node.outline.tops.all c.gives = true := by
  have widen {c : Category} (node : Node c) (accepts : Role → Bool)
      (given : node.outline.tops.all c.gives = true)
      (more : ∀ role, c.gives role = true → accepts role = true) :
      node.outline.tops.all accepts = true :=
    List.all_eq_true.mpr fun role isTop => more role (List.all_eq_true.mp given role isTop)
  have both {first second : Forest} {accepts : Role → Bool}
      (inFirst : first.tops.all accepts = true) (inSecond : second.tops.all accepts = true) :
      (first ++ second).tops.all accepts = true := by
    rw [Forest.tops_append, List.all_append, inFirst, inSecond]
    rfl
  induction node with
  | cons head tail headHypothesis tailHypothesis => exact both headHypothesis tailHypothesis
  | present value inductionHypothesis => exact inductionHypothesis
  | switchArm test body testHypothesis bodyHypothesis =>
      exact both (widen test _ testHypothesis (by decide)) (widen body _ bodyHypothesis (by decide))
  | headVar kind declarators inductionHypothesis =>
      exact widen declarators _ inductionHypothesis (by decide)
  | headExpr value inductionHypothesis => exact widen value _ inductionHypothesis (by decide)
  | headPattern target inductionHypothesis =>
      exact widen target _ inductionHypothesis (by decide)
  | boundRest target inductionHypothesis =>
      exact widen target _ inductionHypothesis (by decide)
  | boundKey key value keyHypothesis valueHypothesis =>
      exact both (widen key _ keyHypothesis (by decide)) (widen value _ valueHypothesis (by decide))
  | keyComputed value inductionHypothesis =>
      exact widen value _ inductionHypothesis (by decide)
  | bodyExpr value inductionHypothesis =>
      exact widen value _ inductionHypothesis (by decide)
  | childSpread operand inductionHypothesis =>
      exact widen operand _ inductionHypothesis (by decide)
  | childElement value inductionHypothesis =>
      exact widen value _ inductionHypothesis (by decide)
  | _ => rfl

/-- What stands at the top of a node may stand right inside of a stretch, if its category
may. -/
theorem Node.encloses_tops {c : Category} {role : Role} (node : Node c)
    (fits : ∀ top, c.gives top = true → role.encloses top = true) :
    node.outline.tops.all role.encloses = true :=
  List.all_eq_true.mpr fun top isTop =>
    fits top (List.all_eq_true.mp node.gives_of_tops top isTop)

/-- In the layout of a tree every stretch encloses only what may stand right inside of it. -/
theorem Node.sorted {c : Category} (node : Node c) : node.outline.Sorted := by
  have both {role : Role} {first second : Forest}
      (inFirst : first.tops.all role.encloses = true ∧ first.Sorted)
      (inSecond : second.tops.all role.encloses = true ∧ second.Sorted) :
      (first ++ second).tops.all role.encloses = true ∧ (first ++ second).Sorted := by
    rw [Forest.tops_append, List.all_append, inFirst.1, inSecond.1, Forest.sorted_append]
    exact ⟨rfl, inFirst.2, inSecond.2⟩
  have one {role : Role} {span : Span} {inside : Forest}
      (within : inside.tops.all role.encloses = true ∧ inside.Sorted) :
      (Forest.one role span inside).Sorted := ⟨within.1, within.2, trivial⟩
  have part {c : Category} {role : Role} {node : Node c} (sorted : node.outline.Sorted)
      (fits : ∀ top, c.gives top = true → role.encloses top = true) :
      node.outline.tops.all role.encloses = true ∧ node.outline.Sorted :=
    ⟨node.encloses_tops fits, sorted⟩
  induction node with
  | nil | absent | keyName | keyPrivate | keyString | keyNumber | childText => exact trivial
  | cons _ _ headHypothesis tailHypothesis =>
      exact Forest.sorted_append _ _ |>.mpr ⟨headHypothesis, tailHypothesis⟩
  | switchArm _ _ testHypothesis bodyHypothesis =>
      exact Forest.sorted_append _ _ |>.mpr ⟨testHypothesis, bodyHypothesis⟩
  | boundKey _ _ keyHypothesis valueHypothesis =>
      exact Forest.sorted_append _ _ |>.mpr ⟨keyHypothesis, valueHypothesis⟩
  | present _ value | headVar _ _ value | headExpr _ value | headPattern _ value
  | boundRest _ value | keyComputed _ value | bodyExpr _ value | childSpread _ value
  | childElement _ value => exact value
  | exportDecl _ _ value | exportExpr _ _ value | exportFunction _ _ value
  | exportClass _ _ value | varStmt _ _ _ value | functionStmt _ _ value | classStmt _ _ value
  | exprStmt _ _ value | block _ _ value | returnStmt _ _ value | throwStmt _ _ value
  | labeled _ _ _ value | bindArray _ _ value | bindObject _ _ value | bindRest _ _ value
  | bindExpr _ _ value | template _ _ _ value | array _ _ value | object _ _ value
  | functionExpr _ _ value | classExpr _ _ value | unary _ _ _ value | update _ _ _ _ value
  | member _ _ _ _ value | privateMember _ _ _ _ value | sequence _ _ value | paren _ _ value
  | spread _ _ value | awaited _ _ value | yielded _ _ value | assertion _ _ value
  | jsx _ _ value | bodyBlock _ _ value | spreadEntry _ _ value | attrExpr _ _ _ value
  | attrElement _ _ _ value | attrSpread _ _ value | childExpr _ _ value =>
      exact one (part value (by decide))
  | whileStmt _ _ _ first second | switchStmt _ _ _ first second
  | declares _ _ _ first second | klass _ _ _ _ first second
  | fieldMember _ _ _ _ first second | bindDefault _ _ _ first second
  | tagged _ _ _ _ first second | arrow _ _ _ _ first second | binary _ _ _ _ first second
  | assign _ _ _ _ first second | call _ _ _ _ first second | newCall _ _ _ first second
  | index _ _ _ _ first second | keyed _ _ _ first second | tag _ _ _ _ first second =>
      exact one (both (part first (by decide)) (part second (by decide)))
  | doWhile _ _ _ body test => exact one (both (part body (by decide)) (part test (by decide)))
  | ifStmt _ _ _ _ first second third | forEach _ _ _ _ _ first second third
  | conditional _ _ _ _ first second third =>
      exact one (both (both (part first (by decide)) (part second (by decide)))
        (part third (by decide)))
  | forStmt _ _ _ _ _ first second third fourth
  | tryStmt _ _ _ _ _ first second third fourth =>
      exact one (both (both (both (part first (by decide)) (part second (by decide)))
        (part third (by decide))) (part fourth (by decide)))
  | func _ _ _ _ _ _ _ params body =>
      exact one (both (part params (by decide)) ⟨rfl, one (part body (by decide))⟩)
  | staticBlock _ _ _ key body =>
      exact one (both (part key (by decide)) ⟨rfl, one (part body (by decide))⟩)
  | methodMember _ _ _ value key inside | methodEntry _ _ value key inside =>
      cases value with
      | func =>
          obtain ⟨homes, sorted, _⟩ := inside
          exact one ⟨rfl, one (both (part key (by decide)) ⟨homes, sorted⟩)⟩
  | shorthand => exact one ⟨rfl, rfl, trivial, trivial⟩
  | _ => exact ⟨rfl, trivial, trivial⟩

end Syntax

end StopMotion
