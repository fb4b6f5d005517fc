import StopMotion.Proofs.Syntax.Run.Expression

/-!
# Members and calls as expressions

A chain of members of a name is an operand, and so is a call of a method whose arguments are any
expressions: the parentheses of a call keep its arguments apart from what is around it.
-/

namespace StopMotion.Syntax

open Rules Parse

variable {rank rank' : Nat} {text text' owner property : String} {holds holds' : Expr → Prop}
  {kinds kinds' : List TokenKind} {properties : List String}

/-- A word that can stand behind the dot of a member. -/
structure IsProperty (property : String) : Prop where
  word : IsWord property
  noHash : isPrivate property = false

/-- A name that begins an operand. -/
structure IsOwner (owner : String) : Prop where
  word : IsWord owner
  binds : canBind owner = true
  noYield : owner ≠ "yield"
  noAwait : owner ≠ "await"

theorem IsOwner.leads (isOwner : IsOwner owner) (more : List TokenKind) :
    Leads (.word owner :: more) :=
  leads_of_canBind isOwner.binds isOwner.noAwait

/-- A name begins with a character that a dot does not go on with. -/
theorem spells_dot {word : String} (isWord : IsWord word) (rest : List Char) :
    Spells ('.' :: (word.toList ++ rest)) (.punct .dot) false (word.toList ++ rest) := by
  obtain ⟨starts, -⟩ := isWord
  cases spelled : word.toList with
  | nil =>
      rw [spelled] at starts
      cases starts
  | cons first more =>
      rw [spelled] at starts
      have starts : startsName first = true := by simpa using starts
      rw [List.cons_append]
      refine spells_sign (by decide) _ (fun _ => ?_) ?_
      · rw [Bool.eq_false_iff]
        intro digit
        rcases cases_of_isDigit digit with
          rfl | rfl | rfl | rfl | rfl | rfl | rfl | rfl | rfl | rfl <;>
            exact absurd starts (by decide)
      · simp only [List.mem_cons, List.not_mem_nil, or_false, not_or]
        constructor <;>
        · rintro rfl
          exact absurd starts (by decide)

/-! ## Members -/

/-- The text of the members of a name. -/
def memberText (properties : List String) : List Char :=
  properties.flatMap fun property => '.' :: property.toList

theorem toList_pathOf : (pathOf owner properties).toList =
    owner.toList ++ memberText properties := by
  induction properties generalizing owner with
  | nil => simp [pathOf, memberText]
  | cons property properties inductionHypothesis =>
      change (pathOf (owner ++ "." ++ property) properties).toList = _
      rw [inductionHypothesis]
      simp [memberText]

/-- A name ends where its members begin, and where they end. -/
theorem spells_owner {word : String} (isWord : IsWord word) {c : Char} (rest : List Char)
    (ends : endsWord c = true) :
    Spells (word.toList ++ (memberText properties ++ c :: rest)) (.word word) false
      (memberText properties ++ c :: rest) := by
  cases properties with
  | nil => exact spells_word isWord rest (not_continuesName_of_endsWord ends)
  | cons property properties => exact spells_word isWord _ (by decide)

/-- The tokens of the members of a name. -/
theorem spellsAll_membersOf (areProperties : ∀ property ∈ properties, IsProperty property)
    {before : TokenKind} {c : Char} (rest : List Char) (ends : endsWord c = true) :
    SpellsAll before (membersOf properties) (memberText properties ++ c :: rest) (c :: rest) := by
  induction properties generalizing before with
  | nil => rfl
  | cons property properties inductionHypothesis =>
      obtain ⟨isProperty, others⟩ := List.forall_mem_cons.1 areProperties
      have split : memberText (property :: properties) ++ c :: rest =
          '.' :: (property.toList ++ (memberText properties ++ c :: rest)) := by
        simp [memberText]
      rw [split]
      exact ⟨_, (spells_dot isProperty.word _).after, _,
        (spells_owner isProperty.word rest ends).after, inductionHypothesis others⟩

namespace Expresses

/-- A name with members is an operand. -/
theorem path (isOwner : IsOwner owner)
    (areProperties : ∀ property ∈ properties, IsProperty property) :
    Expresses operandRank (pathOf owner properties)
      fun expr => expr.dotted? = some (pathOf owner properties) := by
  refine ⟨.word owner :: membersOf properties, .ofOperand ?_ (begins_word _) ?_ ?_ ?_⟩
  · intro before c rest _ ends
    rw [toList_pathOf, List.append_assoc]
    exact ⟨_, (spells_owner isOwner.word rest ends).after,
      spellsAll_membersOf areProperties rest ends⟩
  · cases properties with
    | nil => exact .name isOwner.binds
    | cons => exact .operator isOwner.binds ⟨rfl, rfl, rfl, rfl, rfl⟩ rfl rfl
  · intro depth _ more isBehind
    cases properties with
    | nil => exact isBehind.noArrow isOwner.noYield
    | cons =>
        apply noArrow_word (fun _ => endsExpression_of_endsWhole) isOwner.noYield
        rintro second isHead
        cases isHead
        exact ⟨rfl, rfl, fun _ => rfl⟩
  · intro depth _
    have leads := isOwner.leads (membersOf properties)
    exact unaryExpr_of_access (accessChain_readsMembers isOwner.binds
      fun property member => (areProperties property member).noHash) leads

end Expresses

/-! ## Calls -/

/-- The tokens of a method, up to the parenthesis of its arguments. -/
def methodOf (owner property : String) : List TokenKind :=
  [.word owner, .punct .dot, .word property, .punct .openParen]

theorem spellsAll_methodOf (isOwner : IsOwner owner) (isProperty : IsProperty property)
    {before : TokenKind} (rest : List Char) :
    SpellsAll before (methodOf owner property)
      (owner.toList ++ ('.' :: (property.toList ++ '(' :: rest))) rest := by
  exact ⟨_, (spells_word isOwner.word _ (by decide)).after, _,
    (spells_dot isProperty.word _).after, _, (spells_word isProperty.word _ (by decide)).after, _,
    (spells_openParen _).after, rfl⟩

/-- A call of a method is an operand, however its arguments are read. -/
theorem isReading_method (kinds : List TokenKind) (isOwner : IsOwner owner)
    (isProperty : IsProperty property)
    (spelled : ∀ c rest, endsWord c = true →
      SpellsAll (.punct .openParen) kinds (text.toList ++ c :: rest) (c :: rest))
    (access : ∀ depth, text.length ≤ depth →
      ReadsAs (ofDepth (depth + 1)).accessChain (methodOf owner property ++ kinds) endsTerm holds) :
    IsReading operandRank (owner ++ "." ++ property ++ "(" ++ text) holds
      (methodOf owner property ++ kinds) := by
  refine .ofOperand ?_ (begins_word _) ?_ ?_ ?_
  · intro before c rest _ ends
    have split : (owner ++ "." ++ property ++ "(" ++ text).toList ++ c :: rest =
        owner.toList ++ ('.' :: (property.toList ++ '(' :: (text.toList ++ c :: rest))) := by simp
    rw [split]
    exact spellsAll_append.mpr ⟨_, spellsAll_methodOf isOwner isProperty _, spelled c rest ends⟩
  · exact .operator isOwner.binds ⟨rfl, rfl, rfl, rfl, rfl⟩ rfl rfl
  · intro depth _ more _
    apply noArrow_word (fun _ => endsExpression_of_endsWhole) isOwner.noYield
    rintro second isHead
    cases isHead
    exact ⟨rfl, rfl, fun _ => rfl⟩
  · intro depth fits
    have dot : ".".length = 1 := rfl
    simp only [String.length_append] at fits
    obtain ⟨depth, rfl, under⟩ := exists_below (show text.length + 1 ≤ depth by omega)
    exact unaryExpr_of_access (access depth under) (isOwner.leads _)

namespace Expresses

/-- A call of a method with one argument. -/
theorem call (isOwner : IsOwner owner) (isProperty : IsProperty property)
    (argument : Expresses rank text holds) :
    Expresses operandRank (owner ++ "." ++ property ++ "(" ++ (text ++ ")"))
      fun expr => ∃ span callee one, expr = .call span callee (.ofList [one]) false ∧
        callee.dotted? = some (owner ++ "." ++ property) ∧ holds one := by
  obtain ⟨kinds, reading⟩ := argument
  refine ⟨_, isReading_method (kinds ++ [.punct .closeParen]) isOwner isProperty ?_ ?_⟩
  · intro c rest ends
    rw [String.toList_append, List.append_assoc]
    exact spellsAll_append.mpr
      ⟨_, reading.spelled _ ')' _ rfl rfl, _, (spells_closeParen _).after, rfl⟩
  · intro depth fits
    rw [String.length_append] at fits
    exact accessChain_readsCallOne isOwner.binds isProperty.noHash
      (reading.whole depth (by omega) false) reading.begins.argument

/-- A call of a method with two arguments. -/
theorem callTwo (isOwner : IsOwner owner) (isProperty : IsProperty property)
    (first : Expresses rank text holds) (second : Expresses rank' text' holds') :
    Expresses operandRank (owner ++ "." ++ property ++ "(" ++ (text ++ ", " ++ text' ++ ")"))
      fun expr => ∃ span callee one two, expr = .call span callee (.ofList [one, two]) false ∧
        callee.dotted? = some (owner ++ "." ++ property) ∧ holds one ∧ holds' two := by
  obtain ⟨kinds, reading⟩ := first
  obtain ⟨kinds', reading'⟩ := second
  refine ⟨_, isReading_method (kinds ++ (.punct .comma :: (kinds' ++ [.punct .closeParen])))
    isOwner isProperty ?_ ?_⟩
  · intro c rest ends
    have comma (others : List Char) : Spells (',' :: ' ' :: others) (.punct .comma) false
        (' ' :: others) := fun _ _ => rfl
    have split : (text ++ ", " ++ text' ++ ")").toList ++ c :: rest =
        text.toList ++ ',' :: ' ' :: (text'.toList ++ ')' :: c :: rest) := by simp
    rw [split]
    exact spellsAll_append.mpr ⟨_, reading.spelled _ ',' _ rfl rfl, _, (comma _).after,
      spellsAll_append.mpr
        ⟨_, reading'.spelled_blank _ rfl rfl, _, (spells_closeParen _).after, rfl⟩⟩
  · intro depth fits
    simp only [String.length_append] at fits
    exact accessChain_readsCall isOwner.binds isProperty.noHash
      (reading.whole depth (by omega) false) reading.begins.argument
      (reading'.whole depth (by omega) false) reading'.begins.argument

end Expresses

end StopMotion.Syntax
