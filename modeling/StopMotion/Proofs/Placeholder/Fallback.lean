import StopMotion.Proofs.Placeholder.Reading
import StopMotion.Proofs.Repair.Line
import StopMotion.Proofs.Repair.Quoted
import StopMotion.Proofs.Transpile
import StopMotion.Proofs.Validation.Quiet

/-!
# The placeholder is fit for use

The placeholder takes the place of an artifact of which nothing could be driven by the frame. It
can be read, there is nothing to repair in it and no layer of a validation but the checker can have
anything to say about it, whatever the name of the artifact. So where the checker has nothing to say
either, no such artifact is rejected.
-/

namespace StopMotion.Frame

open Syntax Syntax.Piece Repair Validation Checker

namespace Placeholder

/-! ## Nothing to repair -/

/-- The lines before the one with the name are plain, and no quote stands twice in them. -/
theorem plain_linePieces :
    (∀ c ∈ (text linePieces).toList, Plain c) ∧ (text linePieces).toList.IsChain Apart := by
  -- The characters of the pieces are at hand one by one, and those of the text are not.
  have whole : (text linePieces).toList = written linePieces [] := by
    rw [written_eq, List.append_nil]
  have plain : ((written linePieces []).all fun c => decide (Plain c)) = true := by
    decide +kernel
  have single : doubles (written linePieces []) = false := by
    decide +kernel
  rw [whole]
  constructor
  · simpa using plain
  · exact isChain_of_doubles single

/-- Nor does one behind the name. -/
theorem isChain_endPieces : (written (closingPieces ++ endPieces) ['\n']).IsChain Apart := by
  decide +kernel

/-- In the placeholder a pass finds nothing. The name may hold quotes that stand twice in a row, but
it is a value of its own. -/
theorem pass_placeholder (identifier : String) :
    Repair.pass (placeholder identifier).toList = [] := by
  obtain ⟨plain, single⟩ := plain_linePieces
  obtain ⟨behind, isBehind⟩ : ∃ behind,
      written (closingPieces ++ endPieces) ['\n'] = '\x7d' :: behind := ⟨_, rfl⟩
  have ending := isChain_endPieces
  rw [isBehind] at ending
  obtain ⟨depth, last, lines⟩ := scan_lines plain single 0 .start 0
    ("      \x7b".toList ++ ((Text.quoted identifier).toList ++ '\x7d' :: behind))
  have opened (offset : Nat) (rest : List Char) :
      scan 0 [.code depth] last offset ("      \x7b".toList ++ rest) =
        scan 0 [.code (depth + 1)] (.punct '\x7b') (offset + 7) rest := rfl
  have spelled : (Text.quoted identifier).toList ++ '\x7d' :: behind =
      '"' :: (identifier.toList.flatMap Text.escaped ++ '"' :: '\x7d' :: behind) := by
    simp [Text.quoted]
  rw [toList_placeholder, written_pieces, isBehind, Repair.pass, lines, opened, spelled]
  exact scan_label (depth + 1) _ identifier.toList ending

/-- The placeholder of every artifact is its own repair. -/
theorem repair_placeholder (identifier : String) :
    repair (placeholder identifier).toList = ⟨(placeholder identifier).toList, []⟩ :=
  repair_of_pass_eq_nil (pass_placeholder identifier)

/-! ## Nothing to report -/

variable {names : List String} {identifier : String}

variable {names : List String} {identifier : String}

theorem quiet_string {value : String} {expr : Expr} (isString : IsString value expr) :
    Quiet names expr := by
  obtain ⟨span, rfl⟩ := isString
  exact .leaf (.of_expr rfl (fun _ => rfl) rfl) rfl rfl

theorem quiet_number {value : Float} {expr : Expr} (isNumber : IsNumber value expr) :
    Quiet names expr := by
  obtain ⟨span, rfl⟩ := isNumber
  exact .leaf (.of_expr rfl (fun _ => rfl) rfl) rfl rfl

theorem quiet_entry {name : String} {holds : Expr → Prop} {entry : Node .entry}
    (isEntry : IsEntry name holds entry) (quiet : ∀ expr, holds expr → Quiet names expr) :
    Quiet names entry := by
  obtain ⟨span, key, value, rfl, -, isValue⟩ := isEntry
  apply Quiet.of_parts (.of_other rfl rfl)
  · intro mentioned member
    exact .inr ⟨⟨_, value⟩, List.mem_cons_of_mem _ List.mem_cons_self, member⟩
  · intro part isPart
    rcases List.mem_pair.mp isPart with rfl | rfl
    · exact .leaf (.of_other rfl rfl) rfl rfl
    · exact quiet value isValue

theorem quiet_style {span : Span} {entries : List (Node .entry)} (isStyle : IsStyle entries) :
    Quiet names (.object span (.ofList entries)) := by
  obtain ⟨justify, align, background, color, size, rfl, isJustify, isAlign, isBackground, isColor,
    isSize⟩ := isStyle
  have quiet : Quiet names (Node.ofList [justify, align, background, color, size]) := by
    apply Quiet.ofList
    intro entry member
    simp only [List.mem_cons, List.not_mem_nil, or_false] at member
    rcases member with rfl | rfl | rfl | rfl | rfl
    · exact quiet_entry isJustify fun _ => quiet_string
    · exact quiet_entry isAlign fun _ => quiet_string
    · exact quiet_entry isBackground fun _ => quiet_string
    · exact quiet_entry isColor fun _ => quiet_string
    · exact quiet_entry isSize fun _ => quiet_number
  obtain ⟨_, _, _, rfl, -⟩ := isJustify
  obtain ⟨_, _, _, rfl, -⟩ := isAlign
  obtain ⟨_, _, _, rfl, -⟩ := isBackground
  obtain ⟨_, _, _, rfl, -⟩ := isColor
  obtain ⟨_, _, _, rfl, -⟩ := isSize
  exact quiet.single (.of_expr rfl (fun _ => rfl) rfl) rfl rfl

theorem quiet_shown {children : List (Node .child)} (isShown : IsShown identifier children) :
    Quiet names (Node.ofList children) := by
  obtain ⟨firstSpan, span, value, lastSpan, rfl, isString⟩ := isShown
  apply Quiet.ofList
  intro child member
  simp only [List.mem_cons, List.not_mem_nil, or_false] at member
  rcases member with rfl | rfl | rfl
  · exact .leaf (.of_other rfl rfl) rfl rfl
  · have present : Quiet names (.present value : Node (.option .expr)) :=
      (quiet_string isString).single (.of_other rfl rfl) rfl rfl
    exact present.single (.of_other rfl rfl) rfl rfl
  · exact .leaf (.of_other rfl rfl) rfl rfl

/-- The element mentions its tag and nothing else. -/
theorem quiet_element {element : Element} (isElement : IsElement identifier element) :
    Quiet ["AbsoluteFill"] element := by
  obtain ⟨span, nameSpan, styled, children, rfl, ⟨styledSpan, objectSpan, entries, rfl, isStyle⟩,
    isShown⟩ := isElement
  have isStyled : Quiet ["AbsoluteFill"]
      (Node.ofList [.attrExpr styledSpan "style" (.object objectSpan (.ofList entries))]) := by
    apply Quiet.ofList
    intro styled member
    obtain rfl := List.mem_singleton.mp member
    exact (quiet_style isStyle).single (.of_other rfl rfl) rfl rfl
  have isComponent : isComponentTag "AbsoluteFill" = true := by
    decide
  have tag : tagMention (some (.plain ⟨"AbsoluteFill", nameSpan⟩)) =
      .mention ⟨"AbsoluteFill", nameSpan⟩ := if_pos isComponent
  apply Quiet.of_parts (.of_other rfl rfl)
  · intro name member
    change name ∈ (tagMention (some (.plain ⟨"AbsoluteFill", nameSpan⟩))).mentions ++ (_ ++ _)
      at member
    rw [tag] at member
    rcases List.mem_append.mp member with own | inside
    · obtain rfl := List.mem_singleton.mp own
      exact .inl List.mem_cons_self
    · rcases List.mem_append.mp inside with styled | shown
      · exact .inr ⟨⟨_, _⟩, List.mem_cons_self, styled⟩
      · exact .inr ⟨⟨_, _⟩, List.mem_cons_of_mem _ List.mem_cons_self, shown⟩
  · intro part isPart
    rcases List.mem_pair.mp isPart with rfl | rfl
    · exact isStyled
    · exact quiet_shown isShown

/-- So does the component. -/
theorem quiet_component {component : Stmt} (isComponent : IsComponent identifier component) :
    Quiet ["AbsoluteFill"] component := by
  obtain ⟨span, functionSpan, nameSpan, returnSpan, value, bodySpan, rfl, parenSpan, jsxSpan,
    element, rfl, isElement⟩ := isComponent
  have jsx : Quiet ["AbsoluteFill"] (.jsx jsxSpan element) :=
    (quiet_element isElement).single (.of_expr rfl (fun _ => rfl) rfl) rfl rfl
  have paren : Quiet ["AbsoluteFill"] (.paren parenSpan (.jsx jsxSpan element)) :=
    jsx.single (.of_expr rfl (fun _ => rfl) rfl) rfl rfl
  have present : Quiet ["AbsoluteFill"]
      (.present (.paren parenSpan (.jsx jsxSpan element)) : Node (.option .expr)) :=
    paren.single (.of_other rfl rfl) rfl rfl
  have returned : Quiet ["AbsoluteFill"] (Node.ofList [.returnStmt returnSpan
      (.present (.paren parenSpan (.jsx jsxSpan element)))]) := by
    apply Quiet.ofList
    intro statement member
    obtain rfl := List.mem_singleton.mp member
    exact present.single (.of_other rfl rfl) rfl rfl
  have function : Quiet ["AbsoluteFill"] (.func functionSpan (some ⟨"Placeholder", nameSpan⟩) .nil
      (.ofList [.returnStmt returnSpan (.present (.paren parenSpan (.jsx jsxSpan element)))])
      bodySpan false false) := by
    apply Quiet.of_parts (.of_other rfl rfl)
    · intro name member
      exact .inr ⟨⟨_, _⟩, List.mem_cons_of_mem _ List.mem_cons_self, member⟩
    · intro part isPart
      rcases List.mem_pair.mp isPart with rfl | rfl
      · exact .leaf (.of_other rfl rfl) rfl rfl
      · exact returned
  exact function.single (.of_other rfl rfl) rfl rfl

theorem quiet_body {body : List Stmt} (isBody : IsBody identifier body) :
    ∀ statement ∈ body, Quiet ["AbsoluteFill"] statement := by
  obtain ⟨span, nameSpan, component, rfl, isComponent⟩ := isBody
  intro statement member
  rcases List.mem_pair.mp member with rfl | rfl
  · exact .leaf (.of_other rfl rfl) rfl rfl
  · exact quiet_component isComponent

/-- A validation of the placeholder is silent where the checker is. -/
theorem run_validate_placeholder {answer : String → Verdict} {identifier : String}
    (silent : answer (placeholder identifier) = .ok []) (name : String) :
    (validate (recorded answer) (placeholder identifier) name).run [] =
      (⟨name, []⟩, [placeholder identifier]) := by
  obtain ⟨module, parsed, -, isBody⟩ := parse_placeholder identifier
  have declares : ∀ name ∈ ["AbsoluteFill"],
      name ∈ declaredInBody (Node.ofList module.body) := by
    obtain ⟨span, nameSpan, component, body, -⟩ := isBody
    intro name member
    obtain rfl := List.mem_singleton.mp member
    rw [body]
    exact List.mem_cons_self
  rw [run_validate_of_ok answer parsed, concerns_of_quiet (quiet_body isBody) declares, silent]
  rfl

/-- The element of the placeholder is in its module. -/
theorem exists_element {body : List Stmt} (isBody : IsBody identifier body) :
    ∃ statement ∈ body, ∃ element : Element,
      Node.Inside ⟨_, element⟩ ⟨_, statement⟩ ∧ IsElement identifier element := by
  obtain ⟨span, nameSpan, component, rfl, exportSpan, functionSpan, componentSpan, returnSpan,
    value, bodySpan, rfl, parenSpan, jsxSpan, element, rfl, isElement⟩ := isBody
  refine ⟨_, List.mem_cons_of_mem _ List.mem_cons_self, element, ?_, isElement⟩
  have inReturned : Node.Inside ⟨_, element⟩ ⟨_, Node.returnStmt returnSpan
      (.present (.paren parenSpan (.jsx jsxSpan element)))⟩ := by
    apply Node.Inside.part List.mem_cons_self
    apply Node.Inside.part List.mem_cons_self
    apply Node.Inside.part List.mem_cons_self
    apply Node.Inside.part List.mem_cons_self
    exact .self
  apply inReturned.trans
  apply Node.Inside.part List.mem_cons_self
  apply Node.Inside.part (List.mem_cons_of_mem _ List.mem_cons_self)
  exact Node.inside_of_mem_toList List.mem_cons_self

/-! ## The fallback -/

/-- What is put forward for an artifact of which nothing is driven is the placeholder. -/
theorem text_proposal {framesPerSecond : Nat} {artifact : Artifact} {module : Module}
    (nothing : (drive module (State.classify module) framesPerSecond).confidence ≤ 0.0)
    (report : Report) :
    (proposal framesPerSecond artifact module report).text = placeholder artifact.identifier ∧
      (proposal framesPerSecond artifact module report).usesPlaceholder = true := by
  have put : candidate artifact.identifier
      (drive module (State.classify module) framesPerSecond) =
        (placeholder artifact.identifier, true) := if_pos nothing
  constructor
  · unfold proposal outputRepair
    dsimp only
    rw [put, repair_placeholder, String.ofList_toList]
  · unfold proposal
    dsimp only
    rw [put]

/-- The placeholder of every artifact is read, as a module whose element shows the name of the
artifact as a text; there is nothing to repair in it, and nothing to report where the checker has
nothing to say about it. Then no artifact is rejected that can be read and of which nothing is
driven: the placeholder takes its place. -/
theorem placeholder_fit (identifier : String) :
    (∃ module, parse (placeholder identifier).toList = .ok module ∧
      ∃ statement ∈ module.body, ∃ element : Element,
        Node.Inside ⟨_, element⟩ ⟨_, statement⟩ ∧ IsElement identifier element) ∧
    repair (placeholder identifier).toList = ⟨(placeholder identifier).toList, []⟩ ∧
    ∀ answer : String → Verdict, answer (placeholder identifier) = .ok [] →
      (∀ name, (validate (recorded answer) (placeholder identifier) name).run [] =
        (⟨name, []⟩, [placeholder identifier])) ∧
      ∀ (artifact : Artifact) (framesPerSecond : Nat) (module : Module),
        artifact.identifier = identifier →
        parse (repair artifact.text.toList).text = .ok module →
        (drive module (State.classify module) framesPerSecond).confidence ≤ 0.0 →
        ∃ transpiled, transcript answer framesPerSecond artifact =
            (.ok transpiled, [placeholder identifier]) ∧
          transpiled.text = placeholder identifier ∧ transpiled.usesPlaceholder = true := by
  obtain ⟨module, parsed, -, isBody⟩ := parse_placeholder identifier
  refine ⟨⟨module, parsed, exists_element isBody⟩, repair_placeholder identifier, ?_⟩
  intro answer silent
  refine ⟨run_validate_placeholder silent, ?_⟩
  rintro artifact framesPerSecond module rfl read nothing
  obtain ⟨text, uses⟩ := text_proposal nothing ⟨artifact.identifier, []⟩
  have reported := run_validate_placeholder silent artifact.identifier
  rw [← text] at reported
  refine ⟨proposal framesPerSecond artifact module ⟨artifact.identifier, []⟩, ?_, text, uses⟩
  rw [transcript_of_ok read reported, text]
  rfl

/-- An artifact with a state that is set whenever it is drawn, under a name with quotes. -/
def unsettled : Artifact where
  text := "function A()\x7bconst[x,s]=useState(0);s(k())\x7d"
  identifier := "say \"\" and ''"

theorem placeholder_fit_unsettled :
    ∃ module, parse (repair unsettled.text.toList).text = .ok module ∧
      (drive module (State.classify module) 30).confidence ≤ 0.0 ∧
      ∃ transpiled, transcript (fun _ => .ok []) 30 unsettled =
          (.ok transpiled, [placeholder unsettled.identifier]) ∧
        transpiled.text = placeholder unsettled.identifier ∧ transpiled.usesPlaceholder = true := by
  have checked : (match parse (repair unsettled.text.toList).text with
      | .ok module => decide ((drive module (State.classify module) 30).confidence ≤ 0.0)
      | .error _ => false) = true := by
    decide +kernel
  obtain ⟨-, -, fit⟩ := placeholder_fit unsettled.identifier
  cases read : parse (repair unsettled.text.toList).text with
  | error error =>
      rw [read] at checked
      cases checked
  | ok module =>
      rw [read] at checked
      have nothing := of_decide_eq_true checked
      obtain ⟨-, replaces⟩ := fit (fun _ => .ok []) rfl
      exact ⟨module, rfl, nothing, replaces unsettled 30 module rfl read nothing⟩

end Placeholder

end StopMotion.Frame
