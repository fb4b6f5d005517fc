import StopMotion.Proofs.Syntax.Layout

/-!
# Where everything in a tree stands

A plan keeps what a forest leaves out of a tree: the text between tags, which may be blank,
and the keys, each of which stands anywhere inside of what it is the key of. `Plan.Laid` says
besides what `Forest.Laid` says that no expression takes up the same stretch as one that it
stands in.
-/

namespace StopMotion

/-- A stretch of whole characters. -/
def Span.Cuts (source : List Char) (span : Span) : Prop :=
  Text.Run (fun _ => true) source span.start span.stop

variable {source : List Char}

theorem Span.Cuts.le {span : Span} (cuts : span.Cuts source) : span.start ≤ span.stop :=
  Text.Run.le cuts

theorem Span.Cuts.le_size {span : Span} (cuts : span.Cuts source) :
    span.stop ≤ Text.size source :=
  Text.Run.le_size cuts

/-- What is cut out of a source is there. -/
theorem Span.Cuts.isSome_cut? {span : Span} (cuts : span.Cuts source) :
    (Text.cut? source span.start span.stop).isSome = true := by
  obtain ⟨start, stop⟩ := span
  obtain ⟨before, between, behind, rfl, rfl, rfl, _⟩ := cuts
  have inner : Text.splitAt? (Text.size between) (between ++ behind) = some (between, behind) :=
    Text.splitAt?_append between behind
  simp [Text.cut?, Text.splitAt?_append before, inner]

/-- What a cursor passes over is a stretch of whole characters. -/
theorem Cursor.Reads.cuts {before after : Cursor} {taken : List Char}
    (reads : before.Reads taken after) (place : before.In source) :
    Span.Cuts source ⟨before.pos, after.pos⟩ := by
  obtain ⟨front, joined, starts, stops⟩ := place.exists_front reads
  exact ⟨front, taken, after.rest, joined, starts, stops, fun _ _ => rfl⟩

/-- A stretch that begins and ends with characters that are not blank is one of whole
characters. -/
theorem Span.Snug.cuts {span : Span} (snug : span.Snug source) : span.Cuts source := by
  obtain ⟨start, stop⟩ := span
  obtain ⟨before, c, rest, joined, rfl, _⟩ := snug.opens
  obtain ⟨before', c', rest', joined', rfl, _⟩ := snug.closes
  have filled : Text.size before < Text.size before' + c'.utf8Size := snug.filled
  have split : before ++ c :: rest = (before' ++ [c']) ++ rest' := by simp [← joined, ← joined']
  obtain ⟨between, longer, _⟩ := Text.exists_append_of_size_le split (by
    simp only [Text.size_append, Text.size_cons, Text.size_nil]
    omega)
  have bytes := congrArg Text.size longer
  simp only [Text.size_append, Text.size_cons, Text.size_nil] at bytes
  refine ⟨before, between, rest', ?_, rfl, by simp only; omega, fun _ _ => rfl⟩
  rw [← longer, joined']
  simp

namespace Syntax

/-- The stretches of a source, with the texts and the keys among them. -/
inductive Plan where
  | nil
  | plot (role : Role) (span : Span) (inside rest : Plan)
  | text (span : Span) (rest : Plan)
  | key (span : Span) (rest : Plan)

namespace Plan

/-- A single stretch. -/
def one (role : Role) (span : Span) (inside : Plan) : Plan := plot role span inside nil

/-- Stretches and others behind them. -/
def append : Plan → Plan → Plan
  | nil, behind => behind
  | plot role span inside rest, behind => plot role span inside (append rest behind)
  | text span rest, behind => text span (append rest behind)
  | key span rest, behind => key span (append rest behind)

instance : Append Plan := ⟨append⟩

/-- Stretches with some more at the front of the first one's inside. -/
def around : Plan → Plan → Plan
  | plot role span inside rest, inner => plot role span (inner ++ inside) rest
  | _, inner => inner

instance : Drawing Plan where
  blank := nil
  stretch := one
  around := around
  key span := key span nil
  text span := text span nil

@[simp] theorem nil_append (plan : Plan) : nil ++ plan = plan := rfl

@[simp] theorem plot_append (role : Role) (span : Span) (inside rest behind : Plan) :
    plot role span inside rest ++ behind = plot role span inside (rest ++ behind) := rfl

@[simp] theorem text_append (span : Span) (rest behind : Plan) :
    text span rest ++ behind = text span (rest ++ behind) := rfl

@[simp] theorem key_append (span : Span) (rest behind : Plan) :
    key span rest ++ behind = key span (rest ++ behind) := rfl

@[simp] theorem append_nil (plan : Plan) : plan ++ nil = plan := by
  induction plan with
  | nil => rfl
  | plot _ _ _ _ _ inductionHypothesis | text _ _ inductionHypothesis
  | key _ _ inductionHypothesis => simp [inductionHypothesis]

theorem append_assoc (first second third : Plan) :
    first ++ second ++ third = first ++ (second ++ third) := by
  induction first with
  | nil => rfl
  | plot _ _ _ _ _ inductionHypothesis | text _ _ inductionHypothesis
  | key _ _ inductionHypothesis => simp [inductionHypothesis]

/-- The stretches of the expressions. -/
def exprs : Plan → List Span
  | nil => []
  | plot role span inside rest =>
    (if role = .expr then [span] else []) ++ inside.exprs ++ rest.exprs
  | text _ rest | key _ rest => rest.exprs

@[simp] theorem exprs_append (first second : Plan) :
    (first ++ second).exprs = first.exprs ++ second.exprs := by
  induction first with
  | nil => rfl
  | plot _ _ _ _ _ inductionHypothesis | text _ _ inductionHypothesis
  | key _ _ inductionHypothesis => simp [exprs, inductionHypothesis]

/-- A stretch that is no expression adds none. -/
theorem exprs_one_of_ne {role : Role} {span : Span} {inside : Plan} (other : role ≠ .expr) :
    (one role span inside).exprs = inside.exprs := by
  simp [one, exprs, other]

/-- All stretches and texts. -/
def stretches : Plan → List Span
  | nil => []
  | plot _ span inside rest => span :: (inside.stretches ++ rest.stretches)
  | text span rest => span :: rest.stretches
  | key _ rest => rest.stretches

@[simp] theorem stretches_append (first second : Plan) :
    (first ++ second).stretches = first.stretches ++ second.stretches := by
  induction first with
  | nil => rfl
  | plot _ _ _ _ _ inductionHypothesis | text _ _ inductionHypothesis
  | key _ _ inductionHypothesis => simp [stretches, inductionHypothesis]

/-- All keys. -/
def keys : Plan → List Span
  | nil => []
  | plot _ _ inside rest => inside.keys ++ rest.keys
  | text _ rest => rest.keys
  | key span rest => span :: rest.keys

@[simp] theorem keys_append (first second : Plan) :
    (first ++ second).keys = first.keys ++ second.keys := by
  induction first with
  | nil => rfl
  | plot _ _ _ _ _ inductionHypothesis | text _ _ inductionHypothesis
  | key _ _ inductionHypothesis => simp [keys, inductionHypothesis]

/-- The stretch of an expression is one of all. -/
theorem mem_stretches_of_mem_exprs {plan : Plan} {span : Span} (isExpr : span ∈ plan.exprs) :
    span ∈ plan.stretches := by
  induction plan with
  | nil => cases isExpr
  | plot role place inside rest insideHypothesis restHypothesis =>
      simp only [exprs, List.mem_append] at isExpr
      rcases isExpr with (here | isInside) | isBehind
      · split at here
        · exact List.mem_cons.mpr (.inl (List.mem_singleton.mp here))
        · cases here
      · exact List.mem_cons_of_mem _ (List.mem_append_left _ (insideHypothesis isInside))
      · exact List.mem_cons_of_mem _ (List.mem_append_right _ (restHypothesis isBehind))
  | text _ _ inductionHypothesis => exact List.mem_cons_of_mem _ (inductionHypothesis isExpr)
  | key _ _ inductionHypothesis => exact inductionHypothesis isExpr

/-- The stretches of a plan that are left in a forest. -/
def forest : Plan → Forest
  | nil => .nil
  | plot role span inside rest => .plot role span inside.forest rest.forest
  | text _ rest | key _ rest => rest.forest

theorem forest_append (first second : Plan) :
    (first ++ second).forest = first.forest ++ second.forest := by
  induction first with
  | nil => rfl
  | plot _ _ _ _ _ inductionHypothesis | text _ _ inductionHypothesis
  | key _ _ inductionHypothesis => simp [forest, inductionHypothesis]

/-! ## Layout -/

/-- What a stretch is besides nested: no expression takes up the place of one that it stands
in, and a body begins with a character of one byte, its brace or the first letter of `static`. -/
structure Proper (source : List Char) (role : Role) (span : Span) (inside : Plan) : Prop where
  alone : role = .expr → span ∉ inside.exprs
  narrow : role = .block → Text.ClosesAt source (span.start + 1)

/-- Nothing is asked of the stretches of other roles. -/
theorem Proper.other {role : Role} {span : Span} {inside : Plan} (notExpr : role ≠ .expr)
    (notBlock : role ≠ .block) : Proper source role span inside :=
  ⟨fun isExpr => absurd isExpr notExpr, fun isBlock => absurd isBlock notBlock⟩

/-- The stretches lie between two offsets of the source in order, snug or texts; those inside
a stretch within what it leaves for them. Keys lie in `around`. -/
def Lies (source : List Char) (around : Span) : (low high : Nat) → Plan → Prop
  | _, _, nil => True
  | low, high, plot role span inside rest =>
    (low ≤ span.start ∧ span.stop ≤ high ∧ span.Snug source) ∧
      inside.Lies source (role.inner span) (role.inner span).start (role.inner span).stop ∧
      Proper source role span inside ∧ rest.Lies source around span.stop high
  | low, high, text span rest =>
    (low ≤ span.start ∧ span.stop ≤ high ∧ span.start < span.stop ∧ span.Cuts source) ∧
      rest.Lies source around span.stop high
  | low, high, key span rest =>
    (around.start ≤ span.start ∧ span.stop ≤ around.stop ∧ span.Snug source) ∧
      rest.Lies source around low high

/-- The stretches lie between two offsets of the source, keys included. -/
def Laid (source : List Char) (low high : Nat) (plan : Plan) : Prop :=
  plan.Lies source ⟨low, high⟩ low high

variable {around around' : Span} {low high : Nat}

/-- The offsets may be moved apart. -/
theorem Lies.mono {plan : Plan} {low' high' : Nat} (lies : plan.Lies source around low high)
    (lower : low' ≤ low) (higher : high ≤ high') (starts : around'.start ≤ around.start)
    (stops : around.stop ≤ around'.stop) : plan.Lies source around' low' high' := by
  induction plan generalizing low low' with
  | nil => trivial
  | plot role span inside rest _ inductionHypothesis =>
      obtain ⟨⟨begins, ends, snug⟩, within, proper, behind⟩ := lies
      exact ⟨⟨Nat.le_trans lower begins, Nat.le_trans ends higher, snug⟩, within, proper,
        inductionHypothesis behind (Nat.le_refl _)⟩
  | text span rest inductionHypothesis =>
      obtain ⟨⟨begins, ends, cut⟩, behind⟩ := lies
      exact ⟨⟨Nat.le_trans lower begins, Nat.le_trans ends higher, cut⟩,
        inductionHypothesis behind (Nat.le_refl _)⟩
  | key span rest inductionHypothesis =>
      obtain ⟨⟨begins, ends, snug⟩, behind⟩ := lies
      exact ⟨⟨Nat.le_trans starts begins, Nat.le_trans ends stops, snug⟩,
        inductionHypothesis behind lower⟩

/-- Stretches that lie one behind the other. -/
theorem Lies.append {first second : Plan} {middle next : Nat}
    (before : first.Lies source around low middle) (behind : second.Lies source around next high)
    (ordered : middle ≤ next) (begins : low ≤ next) (ends : middle ≤ high) :
    (first ++ second).Lies source around low high := by
  induction first generalizing low with
  | nil => exact behind.mono begins (Nat.le_refl _) (Nat.le_refl _) (Nat.le_refl _)
  | plot role span inside rest _ inductionHypothesis =>
      obtain ⟨⟨starts, stops, snug⟩, within, proper, more⟩ := before
      exact ⟨⟨starts, Nat.le_trans stops ends, snug⟩, within, proper,
        inductionHypothesis more (Nat.le_trans stops ordered)⟩
  | text span rest inductionHypothesis =>
      obtain ⟨⟨starts, stops, cut⟩, more⟩ := before
      exact ⟨⟨starts, Nat.le_trans stops ends, cut⟩,
        inductionHypothesis more (Nat.le_trans stops ordered)⟩
  | key span rest inductionHypothesis =>
      obtain ⟨inAround, more⟩ := before
      exact ⟨inAround, inductionHypothesis more begins⟩

/-- Stretches that lie somewhere as a whole lie one behind the other. -/
theorem Lies.of_append {first second : Plan}
    (lies : (first ++ second).Lies source around low high) :
    ∃ middle next, first.Lies source around low middle ∧ second.Lies source around next high ∧
      middle ≤ next ∧ low ≤ next ∧ middle ≤ high := by
  induction first generalizing low with
  | nil => exact ⟨0, low, trivial, lies, Nat.zero_le _, Nat.le_refl _, Nat.zero_le _⟩
  | plot role span inside rest _ inductionHypothesis =>
      obtain ⟨⟨starts, stops, snug⟩, within, proper, more⟩ := lies
      have filled := snug.filled
      obtain ⟨middle, next, before, behind, ordered, begins, ends⟩ := inductionHypothesis more
      refine ⟨max span.stop middle, next, ⟨⟨starts, Nat.le_max_left .., snug⟩, within, proper,
        before.mono (Nat.le_refl _) (Nat.le_max_right ..) (Nat.le_refl _) (Nat.le_refl _)⟩,
        behind, ?_, ?_, ?_⟩ <;> omega
  | text span rest inductionHypothesis =>
      obtain ⟨⟨starts, stops, filled, cuts⟩, more⟩ := lies
      obtain ⟨middle, next, before, behind, ordered, begins, ends⟩ := inductionHypothesis more
      refine ⟨max span.stop middle, next, ⟨⟨starts, Nat.le_max_left .., filled, cuts⟩,
        before.mono (Nat.le_refl _) (Nat.le_max_right ..) (Nat.le_refl _) (Nat.le_refl _)⟩,
        behind, ?_, ?_, ?_⟩ <;> omega
  | key span rest inductionHypothesis =>
      obtain ⟨inAround, more⟩ := lies
      obtain ⟨middle, next, before, behind, bounds⟩ := inductionHypothesis more
      exact ⟨middle, next, ⟨inAround, before⟩, behind, bounds⟩

/-- Each of two plans that lie one behind the other may be read again. -/
theorem Lies.append_congr {first second first' second' : Plan}
    (lies : (first ++ second).Lies source around low high) (starts : around.start ≤ low)
    (stops : high ≤ around.stop)
    (left : ∀ {low high : Nat}, around.start ≤ low → high ≤ around.stop →
      first.Lies source around low high → first'.Lies source around low high)
    (right : ∀ {low high : Nat}, around.start ≤ low → high ≤ around.stop →
      second.Lies source around low high → second'.Lies source around low high) :
    (first' ++ second').Lies source around low high := by
  obtain ⟨middle, next, before, behind, ordered, begins, ends⟩ := lies.of_append
  exact (left starts (Nat.le_trans ends stops) before).append
    (right (Nat.le_trans starts begins) stops behind) ordered begins ends

/-- Every stretch and text of those that lie between two offsets lies there. -/
theorem Lies.of_mem {plan : Plan} {span : Span} (lies : plan.Lies source around low high)
    (member : span ∈ plan.stretches) :
    low ≤ span.start ∧ span.stop ≤ high ∧ span.start < span.stop ∧ span.Cuts source := by
  induction plan generalizing low high around with
  | nil => cases member
  | plot role place inside rest insideHypothesis restHypothesis =>
      obtain ⟨⟨starts, stops, snug⟩, within, _, more⟩ := lies
      have filled := snug.filled
      have inner := role.inner_le place
      rcases List.mem_cons.mp member with rfl | deeper
      · exact ⟨starts, stops, filled, snug.cuts⟩
      · rcases List.mem_append.mp deeper with isInside | isBehind
        · obtain ⟨begins, ends, cut⟩ := insideHypothesis within isInside
          exact ⟨by omega, by omega, cut⟩
        · obtain ⟨begins, ends, cut⟩ := restHypothesis more isBehind
          exact ⟨by omega, ends, cut⟩
  | text place rest inductionHypothesis =>
      obtain ⟨⟨starts, stops, cut⟩, more⟩ := lies
      rcases List.mem_cons.mp member with rfl | isBehind
      · exact ⟨starts, stops, cut⟩
      · obtain ⟨begins, ends, isCut⟩ := inductionHypothesis more isBehind
        exact ⟨by omega, ends, isCut⟩
  | key _ _ inductionHypothesis => exact inductionHypothesis lies.2 member

/-- No two expressions take up the same stretch. -/
theorem Lies.nodup_exprs {plan : Plan} (lies : plan.Lies source around low high) :
    plan.exprs.Nodup := by
  induction plan generalizing low high around with
  | nil => exact .nil
  | plot role span inside rest insideHypothesis restHypothesis =>
      obtain ⟨⟨_, _, snug⟩, within, proper, more⟩ := lies
      have inner := role.inner_le span
      have notBehind (place : Span) (isExpr : place ∈ rest.exprs) : span.stop ≤ place.start :=
        (more.of_mem (mem_stretches_of_mem_exprs isExpr)).1
      have isInside (place : Span) (isExpr : place ∈ inside.exprs) :
          place.start < place.stop ∧ place.stop ≤ span.stop := by
        obtain ⟨_, ends, filled, _⟩ := within.of_mem (mem_stretches_of_mem_exprs isExpr)
        exact ⟨filled, Nat.le_trans ends inner.2⟩
      have both : (inside.exprs ++ rest.exprs).Nodup := by
        refine List.nodup_append.mpr ⟨insideHypothesis within, restHypothesis more, ?_⟩
        rintro place isExpr _ isExpr' rfl
        have := isInside place isExpr
        have := notBehind place isExpr'
        omega
      rw [exprs, List.append_assoc]
      split
      · rename_i isExpr
        rw [List.singleton_append]
        refine List.nodup_cons.mpr ⟨fun member => ?_, both⟩
        rcases List.mem_append.mp member with isExpr' | isExpr'
        · exact proper.alone isExpr isExpr'
        · have := notBehind span isExpr'
          have := snug.filled
          omega
      · exact both
  | text _ _ inductionHypothesis | key _ _ inductionHypothesis =>
      exact inductionHypothesis lies.2

/-- What is left in the forest is laid. -/
theorem Lies.forest {plan : Plan} (lies : plan.Lies source around low high) :
    plan.forest.Laid source low high := by
  induction plan generalizing low high around with
  | nil => trivial
  | plot role span inside rest insideHypothesis restHypothesis =>
      obtain ⟨⟨begins, ends, snug⟩, within, _, more⟩ := lies
      exact ⟨begins, ends, snug, insideHypothesis within, restHypothesis more⟩
  | text span rest inductionHypothesis =>
      obtain ⟨⟨begins, _, filled, _⟩, more⟩ := lies
      exact (inductionHypothesis more).mono (by omega) (Nat.le_refl _)
  | key span rest inductionHypothesis => exact inductionHypothesis lies.2

/-! ## Layout between two offsets -/

@[simp] theorem laid_nil : nil.Laid source low high := trivial

/-- A single stretch is laid when it is snug and proper, and what is inside it is laid. -/
theorem laid_one {role : Role} {span : Span} {inside : Plan} :
    (one role span inside).Laid source low high ↔
      low ≤ span.start ∧ span.stop ≤ high ∧ span.Snug source ∧
        inside.Laid source (role.inner span).start (role.inner span).stop ∧
          Proper source role span inside := by
  simp [one, Laid, Lies, and_assoc]

/-- The offsets may be moved apart. -/
theorem Laid.mono {plan : Plan} {low' high' : Nat} (laid : plan.Laid source low high)
    (lower : low' ≤ low) (higher : high ≤ high') : plan.Laid source low' high' :=
  Lies.mono laid lower higher lower higher

/-- Stretches laid one behind the other. -/
theorem Laid.append {first second : Plan} {middle next : Nat}
    (before : first.Laid source low middle) (behind : second.Laid source next high)
    (ordered : middle ≤ next) (begins : low ≤ next) (ends : middle ≤ high) :
    (first ++ second).Laid source low high :=
  Lies.append (Lies.mono before (Nat.le_refl _) (Nat.le_refl _) (Nat.le_refl _) ends)
    (Lies.mono behind (Nat.le_refl _) (Nat.le_refl _) begins (Nat.le_refl _)) ordered begins ends

/-- A key may stand at the place of what is laid behind it. -/
theorem Laid.beside_key {span : Span} {plan : Plan} {middle : Nat}
    (beside : (key span nil).Laid source low middle) (laid : plan.Laid source low high)
    (ends : middle ≤ high) : (key span plan).Laid source low high :=
  ⟨⟨beside.1.1, Nat.le_trans beside.1.2.1 ends, beside.1.2.2⟩, laid⟩

/-- A stretch that begins before or ends behind what is laid is none of its expressions. -/
theorem Laid.not_mem_exprs {plan : Plan} {span : Span} (laid : plan.Laid source low high)
    (apart : span.start < low ∨ high < span.stop) : span ∉ plan.exprs := by
  intro isExpr
  obtain ⟨begins, ends, _⟩ := Lies.of_mem laid (mem_stretches_of_mem_exprs isExpr)
  omega

/-- What brackets enclose does not take up their place. -/
theorem not_mem_exprs_of_laid_one {role : Role} {span outer : Span} {inside : Plan}
    (laid : (one role span inside).Laid source low high) (bracketed : role.isBracketed = true)
    (begins : outer.start ≤ low) : outer ∉ (one role span inside).exprs := by
  obtain ⟨starts, _, _, within, _⟩ := laid_one.mp laid
  have other : role ≠ .expr := by
    rintro rfl
    cases bracketed
  rw [exprs_one_of_ne other]
  refine within.not_mem_exprs (.inl ?_)
  rw [Role.inner, if_pos bracketed]
  exact Nat.lt_succ_of_le (Nat.le_trans begins starts)

end Plan

/-! ## The plan of a tree -/

/-- A node and everything inside it, with its keys and texts. -/
def Node.plan {c : Category} (node : Node c) : Plan := node.draw

/-- The forest of a tree is what is left of its plan. -/
theorem Node.forest_plan {c : Category} (node : Node c) : node.plan.forest = node.outline := by
  have both {first second : Plan} {left right : Forest} (inFirst : first.forest = left)
      (inSecond : second.forest = right) : (first ++ second).forest = left ++ right := by
    rw [Plan.forest_append, inFirst, inSecond]
  have one {role : Role} {span : Span} {inside : Plan} {within : Forest}
      (same : inside.forest = within) :
      (Plan.one role span inside).forest = Forest.one role span within :=
    congrArg (Forest.plot role span · .nil) same
  have around {inside inner : Plan} {within front : Forest} (same : inside.forest = within)
      (isFunction : ∃ role span deep rest, inside = .plot role span deep rest)
      (sameInner : inner.forest = front) :
      (inside.around inner).forest = within.around front := by
    obtain ⟨role, span, deep, rest, rfl⟩ := isFunction
    subst same
    exact congrArg (Forest.plot role span · rest.forest) (both sameInner rfl)
  induction node with
  | cons _ _ first second | switchArm _ _ first second | boundKey _ _ first second =>
      exact both first second
  | present _ value | headVar _ _ value | headExpr _ value | headPattern _ value
  | boundRest _ value | keyComputed _ value | bodyExpr _ value | childSpread _ value
  | childElement _ value => exact value
  | exportDecl _ _ value | exportExpr _ _ value | exportFunction _ _ value
  | exportClass _ _ value | varStmt _ _ _ value | functionStmt _ _ value | classStmt _ _ value
  | exprStmt _ _ value | block _ _ value | returnStmt _ _ value | throwStmt _ _ value
  | labeled _ _ _ value | bindArray _ _ value | bindObject _ _ value | bindRest _ _ value
  | bindExpr _ _ value | template _ _ _ value | array _ _ value | object _ _ value
  | functionExpr _ _ value | classExpr _ _ value | unary _ _ _ value | update _ _ _ _ value
  | member _ _ _ _ value | privateMember _ _ _ _ value | sequence _ _ value | paren _ _ value
  | spread _ _ value | awaited _ _ value | yielded _ _ value | assertion _ _ value
  | jsx _ _ value | bodyBlock _ _ value | spreadEntry _ _ value | attrExpr _ _ _ value
  | attrElement _ _ _ value | attrSpread _ _ value | childExpr _ _ value => exact one value
  | whileStmt _ _ _ first second | doWhile _ _ _ first second | switchStmt _ _ _ first second
  | declares _ _ _ first second | klass _ _ _ _ first second
  | fieldMember _ _ _ _ first second | bindDefault _ _ _ first second
  | tagged _ _ _ _ first second | arrow _ _ _ _ first second | binary _ _ _ _ first second
  | assign _ _ _ _ first second | call _ _ _ _ first second | newCall _ _ _ first second
  | index _ _ _ _ first second | keyed _ _ _ first second | tag _ _ _ _ first second =>
      exact one (both first second)
  | ifStmt _ _ _ _ first second third | forEach _ _ _ _ _ first second third
  | conditional _ _ _ _ first second third => exact one (both (both first second) third)
  | forStmt _ _ _ _ _ first second third fourth
  | tryStmt _ _ _ _ _ first second third fourth =>
      exact one (both (both (both first second) third) fourth)
  | func _ _ _ _ _ _ _ params body => exact one (both params (one body))
  | staticBlock _ _ _ key body => exact one (both key (one body))
  | methodMember _ _ _ value key inside | methodEntry _ _ value key inside =>
      cases value with
      | func => exact one (around inside ⟨_, _, _, _, rfl⟩ key)
  | _ => rfl

end Syntax

end StopMotion
