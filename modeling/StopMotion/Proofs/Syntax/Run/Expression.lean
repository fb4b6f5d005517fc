import StopMotion.Proofs.Syntax.Run.Arrow
import StopMotion.Proofs.Syntax.Run.Declaration
import StopMotion.Proofs.Syntax.Spelling

/-!
# Texts as expressions

A text expresses something if it is read as an expression of which that holds, wherever an
expression of its rank may stand. An operator binds as tightly as its precedence, so the rank of
what it joins says whether a text may be one of its operands as it stands; parentheses raise any
rank to that of an operand. What is read for a text put together from parts is put together from
what is read for the parts, each of them whole.

Line ends between the tokens of such a text, and the tokens of templates and of elements, are
left out.
-/

namespace StopMotion.Syntax

open Rules Parse

variable {rank rank' : Nat} {text text' : String} {holds holds' : Expr → Prop}
  {kinds kinds' more : List TokenKind} {word : String}

/-! ## Beginnings -/

/-- A token that begins an expression: what is behind the sign of a choice, an assignment or an
argument does not begin with it. -/
structure BeginsExpression (kind : TokenKind) : Prop where
  ellipsis : kind.isPunct .ellipsis = false
  closeParen : kind.isPunct .closeParen = false
  colon : kind.isPunct .colon = false
  assign : kind.isPunct .assign = false
  comma : kind.isPunct .comma = false

/-- The first of some tokens begins an expression. -/
def Begins (kinds : List TokenKind) : Prop :=
  ∃ first more, kinds = first :: more ∧ BeginsExpression first

theorem Begins.filled (begins : Begins kinds) : kinds ≠ [] := by
  obtain ⟨first, more, rfl, -⟩ := begins
  exact List.cons_ne_nil _ _

theorem Begins.argument (begins : Begins kinds) : BeginsArgument kinds := by
  obtain ⟨first, more, rfl, begins⟩ := begins
  exact ⟨_, _, rfl, begins.ellipsis, begins.closeParen⟩

theorem Begins.append (begins : Begins kinds) (more : List TokenKind) : Begins (kinds ++ more) := by
  obtain ⟨first, others, rfl, begins⟩ := begins
  exact ⟨first, others ++ more, rfl, begins⟩

/-- The tokens of an expression that is no parameter list in parentheses. -/
inductive Opens : List TokenKind → Prop where
  | other {first : TokenKind} {more : List TokenKind} (noParam : NoParam first) :
      Opens (first :: more)
  | name {word : String} (binds : canBind word = true) : Opens [.word word]
  | operator {word : String} {second : TokenKind} {more : List TokenKind}
      (binds : canBind word = true) (ends : EndsParam second)
      (noComma : second.isPunct .comma = false) (noClose : second.isPunct .closeParen = false) :
      Opens (.word word :: second :: more)
  | question {word : String} {third : TokenKind} {more : List TokenKind}
      (binds : canBind word = true) (begins : BeginsExpression third) :
      Opens (.word word :: .punct .question :: third :: more)

/-- Parentheses around an expression are no parameter list. -/
theorem Opens.noArrow {depth : Nat} (opens : Opens kinds) (trails : Trails more) :
    NoArrow (ofDepth (depth + 1)) (.punct .openParen :: (kinds ++ .punct .closeParen :: more))
      endsWhole := by
  cases opens with
  | other noParam => exact noArrow_paren noParam fun _ noParam => bindingTarget_refuses noParam
  | name binds =>
      exact noArrow_name binds trails fun _ _ _ stands =>
        (bindingTarget_readsName binds stands).mono fun _ _ read => read.2
  | operator binds ends noComma noClose =>
      exact noArrow_operator binds ends noComma noClose fun _ _ _ stands =>
        (bindingTarget_readsName binds stands).mono fun _ _ read => read.2
  | question binds begins =>
      exact noArrow_question binds begins.colon begins.assign begins.comma begins.closeParen
        fun _ _ _ stands => (bindingTarget_readsName binds stands).mono fun _ _ read => read.2

/-- What may stand behind tokens that begin no arrow function: what trails an operand, or the
second arm of a choice, where no parentheses begin the first one. -/
inductive Behind (kinds : List TokenKind) : List TokenKind → Prop where
  | trails {more : List TokenKind} (trails : Trails more) : Behind kinds more
  | arm {first : TokenKind} {others more : List TokenKind} (is : kinds = first :: others)
      (noParen : first.isPunct .openParen = false) : Behind kinds (.punct .colon :: more)

theorem Behind.token {kind : TokenKind} (goesOn : GoesOn kind) : Behind kinds (kind :: more) :=
  .trails (.token goesOn)

/-- An arrow is not behind a word. -/
theorem Behind.noArrow {rules : Rules} (isBehind : Behind [.word word] more)
    (noYield : word ≠ "yield") : NoArrow rules (.word word :: more) endsWhole := by
  apply noArrow_word (fun _ => endsExpression_of_endsWhole) noYield
  intro second isHead
  cases isBehind with
  | trails trails =>
      cases trails with
      | nothing => cases isHead
      | token goesOn =>
          cases isHead
          exact ⟨goesOn.word, goesOn.arrow, fun _ => goesOn.paren⟩
      | negation =>
          cases isHead
          exact ⟨rfl, rfl, fun _ => rfl⟩
  | arm =>
      cases isHead
      exact ⟨rfl, rfl, fun _ => rfl⟩

/-! ## Operators -/

/-- A punctuator that is read as a binary operator between blanks. A slash is one where no
regular expression may begin. -/
structure Joins (punct : Punct) (op : BinaryOp) : Prop where
  binary : punct.binary? = some op
  term : endsTerm (.punct punct) = true
  goesOn : GoesOn (.punct punct)
  endsParam : EndsParam (.punct punct)
  noComma : (TokenKind.punct punct).isPunct .comma = false
  noClose : (TokenKind.punct punct).isPunct .closeParen = false
  loose : op.rightPrecedence = op.precedence + 1
  operand : op.precedence < 13
  regex : (TokenKind.punct punct).regexMayFollow = true
  spelled : ∀ before rest, punct ≠ .slash ∨ before.regexMayFollow = false →
    SpellsAfter before (op.text.toList ++ ' ' :: rest) (.punct punct) false (' ' :: rest)

theorem joins_add : Joins .plus .add :=
  ⟨rfl, rfl, ⟨rfl, rfl, rfl, rfl⟩, ⟨rfl, rfl, rfl, rfl, rfl⟩, rfl, rfl, rfl, by decide, rfl,
    fun _ _ _ _ => rfl⟩

theorem joins_subtract : Joins .minus .subtract :=
  ⟨rfl, rfl, ⟨rfl, rfl, rfl, rfl⟩, ⟨rfl, rfl, rfl, rfl, rfl⟩, rfl, rfl, rfl, by decide, rfl,
    fun _ _ _ _ => rfl⟩

theorem joins_multiply : Joins .star .multiply :=
  ⟨rfl, rfl, ⟨rfl, rfl, rfl, rfl⟩, ⟨rfl, rfl, rfl, rfl, rfl⟩, rfl, rfl, rfl, by decide, rfl,
    fun _ _ _ _ => rfl⟩

theorem joins_divide : Joins .slash .divide := by
  refine ⟨rfl, rfl, ⟨rfl, rfl, rfl, rfl⟩, ⟨rfl, rfl, rfl, rfl, rfl⟩, rfl, rfl, rfl, by decide, rfl,
    ?_⟩
  rintro before rest (noSlash | divides) pos
  · exact absurd rfl noSlash
  · rw [divides]
    rfl

theorem joins_remainder : Joins .percent .remainder :=
  ⟨rfl, rfl, ⟨rfl, rfl, rfl, rfl⟩, ⟨rfl, rfl, rfl, rfl, rfl⟩, rfl, rfl, rfl, by decide, rfl,
    fun _ _ _ _ => rfl⟩

theorem joins_strictEqual : Joins .strictEqual .strictEqual :=
  ⟨rfl, rfl, ⟨rfl, rfl, rfl, rfl⟩, ⟨rfl, rfl, rfl, rfl, rfl⟩, rfl, rfl, rfl, by decide, rfl,
    fun _ _ _ _ => rfl⟩

/-- A punctuator that is read as a sign before an operand. -/
structure Signs (punct : Punct) (op : UnaryOp) (sign : String) : Prop where
  unary : punct.unary? = some op
  noParam : NoParam (.punct punct)
  begins : BeginsExpression (.punct punct)
  noParen : (TokenKind.punct punct).isPunct .openParen = false
  noLess : (TokenKind.punct punct).isPunct .less = false
  regex : (TokenKind.punct punct).regexMayFollow = true
  filled : 1 ≤ sign.length

theorem signs_minus : Signs .minus .minus "-" :=
  ⟨rfl, ⟨rfl, rfl, rfl, rfl, rfl, rfl, rfl⟩, ⟨rfl, rfl, rfl, rfl, rfl⟩, rfl, rfl, rfl, by decide⟩

theorem signs_not : Signs .bang .not "!" :=
  ⟨rfl, ⟨rfl, rfl, rfl, rfl, rfl, rfl, rfl⟩, ⟨rfl, rfl, rfl, rfl, rfl⟩, rfl, rfl, rfl, by decide⟩

theorem Opens.append {punct : Punct} {op : BinaryOp} (opens : Opens kinds)
    (joins : Joins punct op) : Opens (kinds ++ .punct punct :: more) := by
  cases opens with
  | other noParam => exact .other noParam
  | name binds => exact .operator binds joins.endsParam joins.noComma joins.noClose
  | operator binds ends noComma noClose => exact .operator binds ends noComma noClose
  | question binds begins => exact .question binds begins

/-- A choice by an expression is no parameter list either. -/
theorem Opens.append_question (opens : Opens kinds) (begins : Begins more) :
    Opens (kinds ++ .punct .question :: more) := by
  cases opens with
  | other noParam => exact .other noParam
  | name binds =>
      obtain ⟨third, others, rfl, begins⟩ := begins
      exact .question binds begins
  | operator binds ends noComma noClose => exact .operator binds ends noComma noClose
  | question binds begins => exact .question binds begins

/-! ## Readings -/

/-- The rank of an operand of unary operators. -/
def operandRank : Nat := 13

/-- A text is some tokens, and they are read as an expression of which something holds: as a whole
one, and where the rank is not zero as an operand, too. -/
structure IsReading (rank : Nat) (text : String) (holds : Expr → Prop)
    (kinds : List TokenKind) : Prop where
  spelled : ∀ before c rest, before.regexMayFollow = true → endsWord c = true →
    SpellsAll before kinds (text.toList ++ c :: rest) (c :: rest)
  begins : Begins kinds
  enclosed : ∀ depth, text.length ≤ depth → ∀ more, Trails more →
    NoArrow (ofDepth (depth + 1)) (.punct .openParen :: (kinds ++ .punct .closeParen :: more))
      endsWhole
  whole : ∀ depth, text.length ≤ depth → ∀ noIn,
    ReadsAs ((ofDepth depth).assignmentExpr noIn) kinds endsWhole holds
  opens : 1 ≤ rank → Opens kinds
  noArrow : 1 ≤ rank → ∀ depth, text.length ≤ depth → ∀ more, Behind kinds more →
    NoArrow (ofDepth depth) (kinds ++ more) endsWhole
  chain : 1 ≤ rank → ∀ depth, text.length ≤ depth → ReadsChain (ofDepth depth) rank kinds holds
  unary : operandRank ≤ rank → ∀ depth, text.length ≤ depth →
    ReadsAs (ofDepth depth).unaryExpr kinds endsTerm holds

namespace IsReading

/-- A chain of operators is a whole expression. -/
theorem ofChain (positive : 1 ≤ rank)
    (spelled : ∀ before c rest, before.regexMayFollow = true → endsWord c = true →
      SpellsAll before kinds (text.toList ++ c :: rest) (c :: rest))
    (begins : Begins kinds) (opens : Opens kinds)
    (noArrow : ∀ depth, text.length ≤ depth → ∀ more, Behind kinds more →
      NoArrow (ofDepth depth) (kinds ++ more) endsWhole)
    (chain : ∀ depth, text.length ≤ depth → ReadsChain (ofDepth depth) rank kinds holds)
    (unary : operandRank ≤ rank → ∀ depth, text.length ≤ depth →
      ReadsAs (ofDepth depth).unaryExpr kinds endsTerm holds) :
    IsReading rank text holds kinds where
  spelled := spelled
  begins := begins
  enclosed := fun _ _ _ trails => opens.noArrow trails
  whole := by
    intro depth fits noIn
    have noArrow := noArrow depth fits [] (.trails .nothing)
    rw [List.append_nil] at noArrow
    exact assignmentExpr_of_conditional (fun _ => endsExpression_of_endsWhole)
      (conditionalExpr_of_binary (fun _ => endsExpression_of_endsWhole)
        (binaryExpr_of_chain (chain depth fits) positive)) noArrow
  opens := fun _ => opens
  noArrow := fun _ => noArrow
  chain := fun _ => chain
  unary := unary

/-- An operand is a chain of operators. -/
theorem ofOperand
    (spelled : ∀ before c rest, before.regexMayFollow = true → endsWord c = true →
      SpellsAll before kinds (text.toList ++ c :: rest) (c :: rest))
    (begins : Begins kinds) (opens : Opens kinds)
    (noArrow : ∀ depth, text.length ≤ depth → ∀ more, Behind kinds more →
      NoArrow (ofDepth depth) (kinds ++ more) endsWhole)
    (unary : ∀ depth, text.length ≤ depth →
      ReadsAs (ofDepth depth).unaryExpr kinds endsTerm holds) :
    IsReading operandRank text holds kinds :=
  .ofChain (by decide) spelled begins opens noArrow
    (fun depth fits => chain_of_unary (unary depth fits)) fun _ => unary

/-- Blanks before the tokens are passed over. -/
theorem spelled_blank (reading : IsReading rank text holds kinds) {before : TokenKind} {c : Char}
    (rest : List Char) (regex : before.regexMayFollow = true) (ends : endsWord c = true) :
    SpellsAll before kinds (' ' :: (text.toList ++ c :: rest)) (c :: rest) := by
  have spelled := reading.spelled before c rest regex ends
  obtain ⟨first, more, rfl⟩ := List.exists_cons_of_ne_nil reading.begins.filled
  obtain ⟨middle, spellsFirst, others⟩ := spelled
  exact ⟨middle, SpellsAfter.blank spellsFirst, others⟩

end IsReading

/-- A text is read as an expression of a rank of which something holds. -/
def Expresses (rank : Nat) (text : String) (holds : Expr → Prop) : Prop :=
  ∃ kinds, IsReading rank text holds kinds

namespace Expresses

/-- What holds may be said more weakly. -/
theorem mono (expresses : Expresses rank text holds) (weaker : ∀ expr, holds expr → holds' expr) :
    Expresses rank text holds' := by
  obtain ⟨kinds, reading⟩ := expresses
  refine ⟨kinds, reading.spelled, reading.begins, reading.enclosed, ?_, reading.opens,
    reading.noArrow, ?_, ?_⟩
  · exact fun depth fits noIn => (reading.whole depth fits noIn).mono weaker
  · exact fun positive depth fits => (reading.chain positive depth fits).mono weaker
  · exact fun isOperand depth fits => (reading.unary isOperand depth fits).mono weaker

/-- What binds tightly may stand where less is asked for. -/
theorem loosen (expresses : Expresses rank text holds) (le : rank' ≤ rank) :
    Expresses rank' text holds := by
  obtain ⟨kinds, reading⟩ := expresses
  refine ⟨kinds, reading.spelled, reading.begins, reading.enclosed, reading.whole, ?_, ?_, ?_, ?_⟩
  · exact fun positive => reading.opens (Nat.le_trans positive le)
  · exact fun positive => reading.noArrow (Nat.le_trans positive le)
  · intro positive depth fits
    exact (reading.chain (Nat.le_trans positive le) depth fits).loosen le
  · exact fun isOperand => reading.unary (Nat.le_trans isOperand le)

end Expresses

/-! ## Operands -/

theorem leads_of_canBind {more : List TokenKind} (binds : canBind word = true)
    (noAwait : word ≠ "await") : Leads (.word word :: more) := by
  have noUnary : unaryOp? (.word word) = none := by
    have noTypeof : word ≠ "typeof" := ne_of_canBind binds (by decide)
    have noVoid : word ≠ "void" := ne_of_canBind binds (by decide)
    have noDelete : word ≠ "delete" := ne_of_canBind binds (by decide)
    simp [unaryOp?, noTypeof, noVoid, noDelete]
  have noNew : word ≠ "new" := ne_of_canBind binds (by decide)
  simp [Leads, leadsOperand, noUnary, updateOp?, TokenKind.isWord, TokenKind.word?, noAwait, noNew]

/-- A word begins an expression. -/
theorem begins_word (more : List TokenKind) : Begins (.word word :: more) :=
  ⟨_, _, rfl, rfl, rfl, rfl, rfl, rfl⟩

/-- A name is an operand. -/
theorem isReading_name (isWord : IsWord word) (binds : canBind word = true)
    (noYield : word ≠ "yield") (noAwait : word ≠ "await") :
    IsReading operandRank word
      (fun expr => ∃ span name, expr = .name span name ∧ name.text = word) [.word word] := by
  refine .ofOperand ?_ (begins_word _) (.name binds) ?_ ?_
  · intro before c rest _ ends
    exact ⟨_, (spells_word isWord rest (not_continuesName_of_endsWord ends)).after, rfl⟩
  · exact fun depth _ more isBehind => isBehind.noArrow noYield
  · intro depth _
    have leads : Leads [.word word] := leads_of_canBind binds noAwait
    exact unaryExpr_of_access (accessChain_of_primary (primary_readsName binds) leads) leads

/-- A number is an operand. -/
theorem isReading_number {value : Float}
    (spelled : ∀ c rest, endsWord c = true →
      Spells (text.toList ++ c :: rest) (.number value) false (c :: rest)) :
    IsReading operandRank text (fun expr => ∃ span, expr = .number span value)
      [.number value] := by
  refine .ofOperand ?_ ⟨_, _, rfl, rfl, rfl, rfl, rfl, rfl⟩ (.other ?_) ?_ ?_
  · intro before c rest _ ends
    exact ⟨_, (spelled c rest ends).after, rfl⟩
  · exact ⟨rfl, rfl, rfl, rfl, rfl, rfl, rfl⟩
  · exact fun depth _ more _ => noArrow_other rfl rfl rfl
  · exact fun depth _ =>
      unaryExpr_of_access (accessChain_of_primary (primary_readsNumber _) rfl) rfl

/-- A boolean is an operand. -/
theorem isReading_boolean (value : Bool) :
    IsReading operandRank (if value then "true" else "false")
      (fun expr => ∃ span, expr = .boolean span value)
      [.word (if value then "true" else "false")] := by
  have noParam : NoParam (.word (if value then "true" else "false")) := by
    cases value <;> exact ⟨rfl, rfl, rfl, rfl, rfl, rfl, rfl⟩
  have isWord : IsWord (if value then "true" else "false") := by
    cases value <;> exact ⟨by decide, by decide⟩
  have leads : Leads [.word (if value then "true" else "false")] := by cases value <;> rfl
  refine .ofOperand ?_ (begins_word _) (.other noParam) ?_ ?_
  · intro before c rest _ ends
    exact ⟨_, (spells_word isWord rest (not_continuesName_of_endsWord ends)).after, rfl⟩
  · exact fun depth _ more isBehind => isBehind.noArrow (by cases value <;> decide)
  · exact fun depth _ =>
      unaryExpr_of_access (accessChain_of_primary (primary_readsBoolean value) leads) leads

/-- The depth that is left below a token. -/
theorem exists_below {count depth : Nat} (fits : count + 1 ≤ depth) :
    ∃ below, depth = below + 1 ∧ count ≤ below :=
  ⟨depth - 1, by omega, by omega⟩

namespace IsReading

/-- An operator before an operand. The text behind a sign must not go on with it. -/
theorem signed {punct : Punct} {op : UnaryOp} {sign : String} (signs : Signs punct op sign)
    (isSign : ∀ rest, Spells (sign.toList ++ (text.toList ++ rest)) (.punct punct) false
      (text.toList ++ rest))
    (operand : IsReading operandRank text holds kinds) :
    IsReading operandRank (sign ++ text)
      (fun expr => ∃ span inner, expr = .unary span op inner ∧ holds inner)
      (.punct punct :: kinds) := by
  refine .ofOperand ?_ ⟨_, _, rfl, signs.begins⟩ (.other signs.noParam) ?_ ?_
  · intro before c rest _ ends
    rw [String.toList_append, List.append_assoc]
    exact ⟨_, (isSign _).after, operand.spelled _ c rest signs.regex ends⟩
  · exact fun depth _ more _ => noArrow_other rfl signs.noParen signs.noLess
  · intro depth fits
    have filled := signs.filled
    have fits : text.length + 1 ≤ depth := by
      rw [String.length_append] at fits
      omega
    obtain ⟨depth, rfl, under⟩ := exists_below fits
    have inner := operand.unary (Nat.le_refl _) depth under
    exact unaryExpr_readsOperator signs.unary inner operand.begins.filled

/-- Parentheses make an operand of any expression. -/
theorem paren (reading : IsReading rank text holds kinds) :
    IsReading operandRank ("(" ++ text ++ ")")
      (fun expr => ∃ span inner, expr = .paren span inner ∧ holds inner)
      (.punct .openParen :: (kinds ++ [.punct .closeParen])) := by
  have below {depth : Nat} (fits : ("(" ++ text ++ ")").length ≤ depth) :
      text.length + 1 ≤ depth := by
    have opening : "(".length = 1 := rfl
    simp only [String.length_append] at fits
    omega
  refine .ofOperand ?_ ⟨_, _, rfl, rfl, rfl, rfl, rfl, rfl⟩ (.other ?_) ?_ ?_
  · intro before c rest _ ends
    have split : ("(" ++ text ++ ")").toList ++ c :: rest =
        '(' :: (text.toList ++ ')' :: c :: rest) := by simp
    rw [split]
    exact ⟨_, (spells_openParen _).after, spellsAll_append.mpr
      ⟨_, reading.spelled _ ')' (c :: rest) rfl rfl, _, (spells_closeParen _).after, rfl⟩⟩
  · exact ⟨rfl, rfl, rfl, rfl, rfl, rfl, rfl⟩
  · intro depth fits more isBehind
    obtain ⟨depth, rfl, under⟩ := exists_below (below fits)
    rw [List.cons_append, List.append_assoc]
    cases isBehind with
    | trails trails => exact reading.enclosed depth under more trails
    | arm is noParen =>
        cases is
        cases noParen
  · intro depth fits
    obtain ⟨depth, rfl, under⟩ := exists_below (below fits)
    have leads : Leads (.punct .openParen :: (kinds ++ [.punct .closeParen])) := rfl
    exact unaryExpr_of_access (accessChain_of_primary
      (primary_readsParen (reading.whole depth under false) reading.begins.filled) leads) leads

/-- An operator between operands that bind at least as tightly, the right one more tightly. -/
theorem binary {punct : Punct} {op : BinaryOp} (joins : Joins punct op)
    (left : IsReading rank text holds kinds) (tight : op.precedence ≤ rank)
    (right : IsReading rank' text' holds' kinds') (tighter : op.precedence < rank')
    (divides : punct ≠ .slash ∨ (kinds.getLastD .endOfInput).regexMayFollow = false) :
    IsReading op.precedence (text ++ " " ++ op.text ++ " " ++ text')
      (fun expr => ∃ span one two, expr = .binary span op one two ∧ holds one ∧ holds' two)
      (kinds ++ .punct punct :: kinds') := by
  have positive := op.one_le_precedence
  have opens := left.opens (by omega)
  have below {depth : Nat} (fits : (text ++ " " ++ op.text ++ " " ++ text').length ≤ depth) :
      text.length ≤ depth ∧ text'.length + 1 ≤ depth := by
    have blank : " ".length = 1 := rfl
    simp only [String.length_append] at fits
    omega
  refine .ofChain positive ?_ (left.begins.append _) (opens.append joins) ?_ ?_ ?_
  · intro before c rest regexBefore ends
    have last : kinds.getLastD before = kinds.getLastD .endOfInput := by
      obtain ⟨first, others, rfl⟩ := List.exists_cons_of_ne_nil left.begins.filled
      rw [List.getLastD_cons, List.getLastD_cons]
    have split : (text ++ " " ++ op.text ++ " " ++ text').toList ++ c :: rest =
        text.toList ++ ' ' :: (op.text.toList ++ ' ' :: (text'.toList ++ c :: rest)) := by simp
    rw [split]
    have sign : SpellsAfter (kinds.getLastD before)
        (op.text.toList ++ ' ' :: (text'.toList ++ c :: rest)) (.punct punct) false
          (' ' :: (text'.toList ++ c :: rest)) := by
      rw [last]
      exact joins.spelled _ _ divides
    exact spellsAll_append.mpr ⟨_, left.spelled before ' ' _ regexBefore rfl, _, sign.blank,
      right.spelled_blank rest joins.regex ends⟩
  · intro depth fits more _
    rw [List.append_assoc]
    exact left.noArrow (by omega) depth (below fits).1 _ (.token joins.goesOn)
  · intro depth fits
    have chain := left.chain (by omega) depth (below fits).1
    obtain ⟨depth, rfl, under⟩ := exists_below (below fits).2
    have inner := right.chain (by omega) depth under
    have operand (noIn : Bool) :
        ReadsAs ((ofDepth depth).binaryExpr op.rightPrecedence noIn) kinds'
          (fun kind => endsTerm kind && decide (tightness kind < op.rightPrecedence)) holds' :=
      binaryExpr_of_chain inner (by rw [joins.loose]; omega)
    exact chain_readsOperator joins.binary joins.term chain tight operand right.begins.filled
      (by rw [joins.loose]; omega)
  · intro isOperand
    exact absurd isOperand (Nat.not_le.2 joins.operand)

/-- A choice by an expression, the first arm an expression that is no arrow function. -/
theorem choice {rank'' : Nat} {text'' : String} {holds'' : Expr → Prop} {kinds'' : List TokenKind}
    (test : IsReading rank text holds kinds) (positive : 1 ≤ rank)
    (first : IsReading rank' text' holds' kinds') (positive' : 1 ≤ rank')
    (second : IsReading rank'' text'' holds'' kinds'')
    (isBehind : Behind kinds' (.punct .colon :: kinds'')) :
    IsReading 0 (text ++ " ? " ++ text' ++ " : " ++ text'')
      (fun expr => ∃ span one two three, expr = .conditional span one two three ∧ holds one ∧
        holds' two ∧ holds'' three)
      (kinds ++ .punct .question :: (kinds' ++ .punct .colon :: kinds'')) := by
  have below {depth : Nat} (fits : (text ++ " ? " ++ text' ++ " : " ++ text'').length ≤ depth) :
      text.length ≤ depth ∧ max text'.length text''.length + 1 ≤ depth := by
    have mark : " ? ".length = 3 := rfl
    simp only [String.length_append] at fits
    omega
  have opens : Opens (kinds ++ .punct .question :: (kinds' ++ .punct .colon :: kinds'')) :=
    (test.opens positive).append_question (first.begins.append _)
  refine ⟨?_, test.begins.append _, fun _ _ _ trails => opens.noArrow trails, ?_,
    fun one_le => absurd one_le (by decide), fun one_le => absurd one_le (by decide),
    fun one_le => absurd one_le (by decide), fun isOperand => absurd isOperand (by decide)⟩
  · intro before c rest regex ends
    have split : (text ++ " ? " ++ text' ++ " : " ++ text'').toList ++ c :: rest =
        text.toList ++ ' ' :: '?' :: ' ' :: (text'.toList ++ ' ' :: ':' :: ' ' ::
          (text''.toList ++ c :: rest)) := by
      simp
    have question (others : List Char) : Spells (' ' :: '?' :: ' ' :: others) (.punct .question)
        false (' ' :: others) := fun _ _ => rfl
    have colon (others : List Char) : Spells (' ' :: ':' :: ' ' :: others) (.punct .colon)
        false (' ' :: others) := fun _ _ => rfl
    rw [split]
    exact spellsAll_append.mpr ⟨_, test.spelled before ' ' _ regex rfl, _, (question _).after,
      spellsAll_append.mpr ⟨_, first.spelled_blank _ rfl rfl, _, (colon _).after,
        second.spelled_blank rest rfl ends⟩⟩
  · intro depth fits noIn
    have testReads : ReadsAs ((ofDepth depth).binaryExpr 1 noIn) kinds
        (fun kind => endsTerm kind && decide (tightness kind < 1)) holds :=
      binaryExpr_of_chain (test.chain positive depth (below fits).1) positive
    have noArrow := test.noArrow positive depth (below fits).1
      (.punct .question :: (kinds' ++ .punct .colon :: kinds'')) (.token ⟨rfl, rfl, rfl, rfl⟩)
    obtain ⟨depth, rfl, under⟩ := exists_below (below fits).2
    have fitsFirst : text'.length ≤ depth := Nat.le_trans (Nat.le_max_left _ _) under
    have fitsSecond : text''.length ≤ depth := Nat.le_trans (Nat.le_max_right _ _) under
    refine assignmentExpr_of_conditional (fun _ => endsExpression_of_endsWhole)
      (conditionalExpr_readsChoice testReads ?_ first.begins.filled
        (second.whole depth fitsSecond noIn) second.begins.filled) noArrow
    intro state follow rest ends stands
    have isColon : EndsExpression (.punct .colon) := ⟨rfl, rfl, rfl, rfl, rfl⟩
    have firstReads : ReadsAs ((ofDepth depth).conditionalExpr false) kinds' (·.isPunct .colon)
        holds' :=
      conditionalExpr_of_binary (fun _ => endsExpression_of_isColon)
        (binaryExpr_of_chain (first.chain positive' depth fitsFirst) positive')
    have noArrow := first.noArrow positive' depth fitsFirst _ isBehind
    refine assignmentExpr_runs_conditional isColon (firstReads.runs rfl stands) ?_
    exact noArrow state follow rest ends (by simpa using stands)

end IsReading

namespace Expresses

variable {holdsBoth : Expr → Prop}

/-- Parentheses make an operand of any expression. -/
theorem paren (expresses : Expresses rank text holds) :
    Expresses operandRank ("(" ++ text ++ ")")
      fun expr => ∃ span inner, expr = .paren span inner ∧ holds inner := by
  obtain ⟨kinds, reading⟩ := expresses
  exact ⟨_, reading.paren⟩

/-- An operator that is no slash. -/
theorem binary {punct : Punct} {op : BinaryOp} (joins : Joins punct op) (noSlash : punct ≠ .slash)
    (left : Expresses rank text holds) (tight : op.precedence ≤ rank)
    (right : Expresses rank' text' holds') (tighter : op.precedence < rank') :
    Expresses op.precedence (text ++ " " ++ op.text ++ " " ++ text')
      fun expr => ∃ span one two, expr = .binary span op one two ∧ holds one ∧ holds' two := by
  obtain ⟨kinds, leftReading⟩ := left
  obtain ⟨kinds', rightReading⟩ := right
  exact ⟨_, leftReading.binary joins tight rightReading tighter (.inl noSlash)⟩

/-- A name divided by something. Behind some words a slash begins a regular expression. -/
theorem divide (isWord : IsWord word) (binds : canBind word = true) (noYield : word ≠ "yield")
    (noAwait : word ≠ "await") (noOperand : TokenKind.operandWords.contains word = false)
    (right : Expresses rank' text' holds') (tighter : 11 < rank') :
    Expresses 11 (word ++ " " ++ BinaryOp.divide.text ++ " " ++ text')
      fun expr => ∃ span one two, expr = .binary span .divide one two ∧
        (∃ span name, one = .name span name ∧ name.text = word) ∧ holds' two := by
  obtain ⟨kinds', reading⟩ := right
  exact ⟨_, (isReading_name isWord binds noYield noAwait).binary joins_divide (by decide) reading
    tighter (.inr noOperand)⟩

/-- A sign before an operand, where the text behind it does not go on with it. -/
theorem signed {punct : Punct} {op : UnaryOp} {sign : String} (signs : Signs punct op sign)
    (isSign : ∀ rest, Spells (sign.toList ++ (text.toList ++ rest)) (.punct punct) false
      (text.toList ++ rest))
    (operand : Expresses operandRank text holds) :
    Expresses operandRank (sign ++ text)
      fun expr => ∃ span inner, expr = .unary span op inner ∧ holds inner := by
  obtain ⟨kinds, reading⟩ := operand
  exact ⟨_, reading.signed signs isSign⟩

/-- A choice whose second arm is a negation. -/
theorem choiceNot {text'' : String} {holds'' : Expr → Prop}
    (test : Expresses rank text holds) (positive : 1 ≤ rank)
    (first : Expresses rank' text' holds') (positive' : 1 ≤ rank')
    (isSign : ∀ rest, Spells ("!".toList ++ (text''.toList ++ rest)) (.punct .bang) false
      (text''.toList ++ rest))
    (second : Expresses operandRank text'' holds'') :
    Expresses 0 (text ++ " ? " ++ text' ++ " : " ++ ("!" ++ text''))
      fun expr => ∃ span one two three, expr = .conditional span one two three ∧ holds one ∧
        holds' two ∧ ∃ span inner, three = .unary span .not inner ∧ holds'' inner := by
  obtain ⟨kinds, testReading⟩ := test
  obtain ⟨kinds', firstReading⟩ := first
  obtain ⟨kinds'', secondReading⟩ := second
  have negated := secondReading.signed signs_not isSign
  exact ⟨_, testReading.choice positive firstReading positive' negated (.trails .negation)⟩

end Expresses

/-! ## Whole texts -/

/-- The body of a module that declares one constant, of whose initial value something holds. -/
def IsConstant (holds : Expr → Prop) (body : List Stmt) : Prop :=
  ∃ span declaredSpan target init, body = [.varStmt span .constKind
    (.cons (.declares declaredSpan target (.present init)) .nil)] ∧ holds init

/-- A module that declares one constant. -/
theorem constant_runs {state : ParseState} {depth : Nat} {newline : Bool} {kind : TokenKind}
    {text₁ text₂ text₃ text₄ : List Char} (sees : Sees state (.word "const") false text₁)
    (named : Spells text₁ (.word "value") false text₂)
    (assign : Spells text₂ (.punct .assign) false text₃)
    (first : SpellsAfter (.punct .assign) text₃ kind newline text₄)
    (init : ∀ next, Sees next kind newline text₄ →
      Runs ((ofDepth depth).assignmentExpr false) next fun expr after =>
        holds expr ∧ Stands after [.punct .semicolon] []) :
    Runs (many atEnd? (ofDepth (depth + 2)).statement) state fun body _ =>
      IsConstant holds body := by
  apply many_runs 2 (by omega)
  apply statements_more sees rfl
  apply anyStmt_runs sees named
  intro second isName _
  have isConstant : leading "const" second = .var := by
    change (if second.kind.isWord "enum" then Leading.constEnum else .var) = _
    rw [isName]
    rfl
  have ended : Spells [] .endOfInput false [] := fun _ _ => rfl
  rw [isConstant]
  apply (varStmt_one sees named (by decide) assign first init ended).mono
  rintro _ next ⟨⟨span, _, rfl, declaredSpan, nameSpan, found, init, rfl, -, isValue⟩, seesEnd⟩
  exact statements_done seesEnd ⟨span, declaredSpan, _, init, rfl, isValue⟩

/-- The initial value of a constant is read as what its text expresses. -/
theorem Expresses.parse_constant (expresses : Expresses rank text holds) :
    ∃ module, parse ("const value = " ++ text ++ ";").toList = .ok module ∧
      module.source = ("const value = " ++ text ++ ";").toList ∧ IsConstant holds module.body := by
  obtain ⟨kinds, reading⟩ := expresses
  have spelled : SpellsAll (.punct .assign) kinds (' ' :: (text.toList ++ ';' :: [])) (';' :: []) :=
    reading.spelled_blank [] rfl rfl
  obtain ⟨first, more, rfl⟩ := List.exists_cons_of_ne_nil reading.begins.filled
  have ⟨behind, spellsFirst, spellsMore⟩ := spelled
  have split : ("const value = " ++ text ++ ";").toList =
      "const value =".toList ++ (' ' :: (text.toList ++ ';' :: [])) := by simp
  have spellsConst : Spells ("const value = " ++ text ++ ";").toList (.word "const") false
      (" value =".toList ++ (' ' :: (text.toList ++ ';' :: []))) := by
    rw [split]
    exact fun _ _ => rfl
  have fits : text.length ≤ 3 * ("const value = " ++ text ++ ";").toList.length + 1 := by
    simp only [String.length_toList, String.length_append]
    omega
  apply parse_of_runs spellsConst
  intro state sees
  apply constant_runs sees (fun _ _ => rfl) (fun _ _ => rfl) spellsFirst
  intro next seesFirst
  have ends : Spells (';' :: []) (.punct .semicolon) false [] := fun _ _ => rfl
  exact reading.whole _ fits false next (.punct .semicolon) [] rfl
    (seesFirst.stands (spellsAll_append.mpr ⟨_, spellsMore, _, ends.after, rfl⟩))

end StopMotion.Syntax
