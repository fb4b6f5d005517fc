import StopMotion.Project.Template
import StopMotion.Proofs.Syntax.Run.Arrow
import StopMotion.Proofs.Syntax.Run.Element
import StopMotion.Proofs.Syntax.Spelling

/-!
# Compositions as elements

The settings of a composition are the attributes of an element, each with one token in its
container. Every one of them is read back with the value that it has: a name whatever is in it,
and a number as long as it is small enough for a float.
-/

namespace StopMotion.Project

open Syntax Syntax.Piece Syntax.Rules Syntax.Parse

/-! ## Attributes in containers -/

/-- An attribute whose value is one token in a container, as it is written and as it is read. -/
structure Setting where
  name : String
  spelling : String
  literal : String
  kind : TokenKind
  holds : Expr → Prop

namespace Setting

/-- What is written is read as the attribute, wherever it stands. -/
structure IsLegible (setting : Setting) : Prop where
  named : ∀ rest, SpellsInTag (setting.spelling.toList ++ '=' :: rest) (.word setting.name)
    true ('=' :: rest)
  valued : ∀ rest, Spells (setting.literal.toList ++ '\x7d' :: rest) setting.kind false
    ('\x7d' :: rest)
  filled : setting.kind.isPunct .closeBrace = false
  reads : ∀ depth state text rest, Sees state setting.kind false text →
    Spells text (.punct .closeBrace) false rest →
      Runs ((ofDepth (depth + 2)).expression false) state fun value next =>
        setting.holds value ∧ Stands next [.punct .closeBrace] rest

/-- A node is the attribute that is written. -/
def Makes (setting : Setting) (node : Node .jsxAttribute) : Prop :=
  ∃ span value, node = .attrExpr span setting.name value ∧ setting.holds value

/-- How the first of some attributes is written, or the end of a tag without children. -/
def opening : List Setting → String
  | [] => "\n    /"
  | setting :: _ => setting.spelling

/-- The token that the first of some attributes begins with. -/
def first : List Setting → TokenKind
  | [] => .punct .slash
  | setting :: _ => .word setting.name

/-- What is behind the first token of some attributes, up to the end of their tag. -/
def pieces : List Setting → List Piece
  | [] => [.inTag ">" (.punct .greater) false]
  | setting :: settings =>
    [.inTag "=" (.punct .assign) false, .inTag "\x7b" (.punct .openBrace) false,
      .token setting.literal setting.kind false,
      .token "\x7d" (.punct .closeBrace) false] ++
    (.inTag (opening settings) (first settings) true :: pieces settings)

variable {settings : List Setting} {rest : List Char}

theorem spells_opening (legible : ∀ setting ∈ settings, setting.IsLegible) :
    SpellsInTag ((opening settings).toList ++ written (pieces settings) rest)
      (first settings) true (written (pieces settings) rest) := by
  cases settings with
  | nil => exact fun _ => rfl
  | cons setting settings => exact (legible setting List.mem_cons_self).named _

theorem legible_pieces (legible : ∀ setting ∈ settings, setting.IsLegible) :
    Legible (pieces settings) rest := by
  induction settings with
  | nil => exact ⟨fun _ => rfl, trivial⟩
  | cons setting settings inductionHypothesis =>
      have ⟨isLegible, others⟩ := List.forall_mem_cons.1 legible
      exact ⟨fun _ => rfl, fun _ => rfl, isLegible.valued _, fun _ _ => rfl,
        spells_opening others, inductionHypothesis others⟩

/-- Every setting takes up some of the text. -/
theorem length_le {text : List Char} (read : ReadAs (pieces settings) text rest) :
    settings.length ≤ text.length := by
  induction settings generalizing text with
  | nil => exact Nat.zero_le _
  | cons setting settings inductionHypothesis =>
      obtain ⟨_, assign, _, brace, _, operand, _, closes, _, second, read⟩ := read
      have := inductionHypothesis read
      have := assign.length_le
      have := brace.length_le
      have := operand.length_le
      have := closes.shorter rfl
      have := second.length_le
      rw [List.length_cons]
      omega

/-- Every setting that is written is read, and so is the end of the tag. -/
theorem attributes_run {depth start : Nat} {name : TagName} {token : Token}
    {soFar : List (Node .jsxAttribute)} {state : ParseState} {text : List Char}
    (legible : ∀ setting ∈ settings, setting.IsLegible) (before : state.Before text)
    (isFirst : token.kind = first settings) (read : ReadAs (pieces settings) text rest) :
    Runs ((ofDepth (depth + 2)).attributesAtMost start name (settings.length + 1) soFar token) state
      fun answer next => (∃ made, answer = (soFar.reverse ++ made, true) ∧
        List.Forall₂ Makes settings made) ∧ next.Before rest := by
  induction settings generalizing token soFar state text with
  | nil =>
      obtain ⟨_, closes, rfl⟩ := read
      exact attributesAtMost_closes isFirst before closes fun next before =>
        ⟨⟨[], by rw [List.append_nil], .nil⟩, before⟩
  | cons setting settings inductionHypothesis =>
      have ⟨isLegible, others⟩ := List.forall_mem_cons.1 legible
      obtain ⟨_, assign, _, brace, _, operand, _, closes, _, second, read⟩ := read
      apply attributesAtMost_more isFirst
      apply (namedAttribute_operand before assign brace operand isLegible.filled
        (fun next sees => isLegible.reads depth next _ _ sees closes) second).mono
      rintro answer next ⟨⟨made, isSecond⟩, beforeNext⟩
      apply (inductionHypothesis others beforeNext isSecond read).mono
      rintro _ after ⟨⟨nodes, rfl, areMade⟩, beforeAfter⟩
      exact ⟨⟨answer.1 :: nodes, by simp, .cons made areMade⟩, beforeAfter⟩

end Setting

/-! ## The composition -/

/-- A string literal with a value. -/
def IsString (value : String) (expr : Expr) : Prop := ∃ span, expr = .string span value

/-- A name. -/
def IsName (name : String) (expr : Expr) : Prop :=
  ∃ span found, expr = .name span found ∧ found.text = name

/-- A number literal with a value. -/
def IsCount (count : Nat) (expr : Expr) : Prop :=
  ∃ span value, expr = .number span value ∧ Number.IsInteger value count

/-- A name on its own is an expression. -/
theorem assignmentExpr_readsName {depth : Nat} {name : String} (binds : canBind name = true)
    (leads : Leads [.word name]) (noYield : name ≠ "yield") :
    ReadsAs ((ofDepth depth).assignmentExpr false) [.word name] endsWhole (IsName name) :=
  assignmentExpr_of_operand
    (unaryExpr_of_access (accessChain_of_primary (primary_readsName binds) leads) leads)
    (noArrow_word (fun _ => endsExpression_of_endsWhole) noYield (by simp))

namespace Setting

/-- The identifier of a composition. -/
def identifier (value : String) : Setting where
  name := "id"
  spelling := "\n      id"
  literal := Text.quoted value
  kind := .string value
  holds := IsString value

/-- The component of a composition. -/
def component : Setting where
  name := "component"
  spelling := "\n      component"
  literal := "Artifact"
  kind := .word "Artifact"
  holds := IsName "Artifact"

/-- A number of a composition. -/
def count (name spelling : String) (value : Nat) : Setting where
  name := name
  spelling := spelling
  literal := toString value
  kind := .number (Number.nearest value 0)
  holds := IsCount value

theorem isLegible_identifier (value : String) : (identifier value).IsLegible where
  named := fun rest =>
    have spelled : SpellsInTag ("\n      id".toList ++ '=' :: rest) (.word "id") true
        ('=' :: rest) := fun _ => rfl
    spelled
  valued := fun _ => spells_quoted value _
  filled := rfl
  reads := fun _ _ _ _ sees closes =>
    (expression_of_assignment (assignmentExpr_string sees closes rfl) rfl).stands

theorem isLegible_component : component.IsLegible where
  named := fun _ _ => rfl
  valued := fun _ _ _ => rfl
  filled := rfl
  reads := by
    intro depth state text rest sees closes
    have reads : ReadsAs ((ofDepth (depth + 1)).assignmentExpr false) [.word "Artifact"]
        endsWhole (IsName "Artifact") :=
      assignmentExpr_readsName (by decide) rfl (by decide)
    have stands : Stands state [.word "Artifact", .punct .closeBrace] rest :=
      sees.stands ⟨_, closes.after, rfl⟩
    exact expression_readsOne reads state _ rest rfl stands

theorem isLegible_count {name spelling : String} {value : Nat} (small : value < 2 ^ 53)
    (named : ∀ rest, SpellsInTag (spelling.toList ++ '=' :: rest) (.word name) true ('=' :: rest)) :
    (count name spelling value).IsLegible where
  named := named
  valued := fun rest => spells_numeral value rest rfl
  filled := rfl
  reads := by
    intro depth state text rest sees closes
    apply ((expression_of_assignment (assignmentExpr_number sees closes rfl) rfl).stands).mono
    rintro _ next ⟨⟨span, rfl⟩, stands⟩
    exact ⟨⟨span, _, rfl, Number.isInteger_nearest small⟩, stands⟩

end Setting

namespace Composition

/-- The attributes of a composition. -/
def settings (composition : Composition) : List Setting :=
  [.identifier composition.id, .component,
    .count "durationInFrames" "\n      durationInFrames" composition.frames,
    .count "fps" "\n      fps" composition.framesPerSecond,
    .count "width" "\n      width" composition.width,
    .count "height" "\n      height" composition.height]

/-- All numbers of a composition are small enough to be floats. -/
structure IsSmall (composition : Composition) : Prop where
  frames : composition.frames < 2 ^ 53
  framesPerSecond : composition.framesPerSecond < 2 ^ 53
  width : composition.width < 2 ^ 53
  height : composition.height < 2 ^ 53

theorem IsSmall.isLegible {composition : Composition} (small : composition.IsSmall) :
    ∀ setting ∈ composition.settings, setting.IsLegible := by
  simp only [settings, List.forall_mem_cons]
  exact ⟨Setting.isLegible_identifier _, Setting.isLegible_component,
    Setting.isLegible_count small.frames fun _ _ => rfl,
    Setting.isLegible_count small.framesPerSecond fun _ _ => rfl,
    Setting.isLegible_count small.width fun _ _ => rfl,
    Setting.isLegible_count small.height fun _ _ => rfl, by simp⟩

end Composition

/-- An element that shows a composition: its attributes are those of the composition, in their
order, with the values that they have there. -/
def IsComposition (composition : Composition) (element : Element) : Prop :=
  ∃ span nameSpan attributes, element =
    .tag span (some (.plain ⟨"Composition", nameSpan⟩)) (.ofList attributes) .nil ∧
      List.Forall₂ Setting.Makes composition.settings attributes

end StopMotion.Project
