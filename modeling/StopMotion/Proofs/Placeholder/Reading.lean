import StopMotion.Frame.Placeholder
import StopMotion.Proofs.Syntax.Run.Statement
import StopMotion.Proofs.Syntax.Spelling

/-!
# Reading the placeholder

The placeholder of every artifact is a module that exports one component: a tag with a style and
the name of the artifact in a container. Its text is a list of pieces, and only one of them
depends on the artifact; that one is read back as the name, whatever is in it.
-/

namespace StopMotion.Frame

open Syntax Syntax.Piece Syntax.Rules Syntax.Parse

namespace Placeholder

/-! ## The pieces of the text -/

/-- The import, up to its end. -/
def importPieces : List Piece :=
  [.token "import" (.word "import") false, .token " \x7b" (.punct .openBrace) false,
    .token " AbsoluteFill" (.word "AbsoluteFill") false,
    .token " \x7d" (.punct .closeBrace) false, .token " from" (.word "from") false,
    .token " 'remotion'" (.string "remotion") false, .token ";" (.punct .semicolon) false]

/-- The head of the component, up to what it returns. -/
def headPieces : List Piece :=
  [.token "\n\nexport" (.word "export") true, .token " default" (.word "default") false,
    .token " function" (.word "function") false,
    .token " Placeholder" (.word "Placeholder") false, .token "(" (.punct .openParen) false,
    .token ")" (.punct .closeParen) false, .token " \x7b" (.punct .openBrace) false,
    .token "\n  return" (.word "return") true, .token " (" (.punct .openParen) false,
    .token "\n    <" (.punct .less) true]

/-- The names of the tag and of its attribute. -/
def tagPieces : List Piece :=
  [.inTag "AbsoluteFill" (.word "AbsoluteFill") false,
    .inTag "\n      style" (.word "style") true]

/-- What opens the value of the attribute. -/
def valuePieces : List Piece :=
  [.inTag "=" (.punct .assign) false, .inTag "\x7b" (.punct .openBrace) false,
    .token "\x7b" (.punct .openBrace) false]

/-- An entry of the style, with the comma behind it. -/
def entryPieces (spelling key literal : String) (value : TokenKind) : List Piece :=
  [.token spelling (.word key) true, .token ":" (.punct .colon) false,
    .token literal value false, .token "," (.punct .comma) false]

/-- The style, up to its closing brace. -/
def stylePieces : List Piece :=
  entryPieces "\n        justifyContent" "justifyContent" " 'center'" (.string "center") ++
    (entryPieces "\n        alignItems" "alignItems" " 'center'" (.string "center") ++
      (entryPieces "\n        backgroundColor" "backgroundColor" " '#101014'"
          (.string "#101014") ++
        (entryPieces "\n        color" "color" " '#e8e8ee'" (.string "#e8e8ee") ++
          (entryPieces "\n        fontSize" "fontSize" " 48" (.number (Number.nearest 48 0)) ++
            [.token "\n      \x7d" (.punct .closeBrace) true]))))

/-- The end of the opening tag. -/
def closePieces : List Piece :=
  [.token "\x7d" (.punct .closeBrace) false, .inTag "\n    >" (.punct .greater) true]

/-- What the tag shows. -/
def shownPieces (identifier : String) : List Piece :=
  [.between "\n      ", .sign '\x7b', .token (Text.quoted identifier) (.string identifier) false]

/-- The end of the element. -/
def closingPieces : List Piece :=
  [.token "\x7d" (.punct .closeBrace) false, .between "\n    ", .sign '<',
    .inTag "/" (.punct .slash) false, .inTag "AbsoluteFill" (.word "AbsoluteFill") false,
    .inTag ">" (.punct .greater) false]

/-- What is behind the element, up to the end of the component. -/
def endPieces : List Piece :=
  [.token "\n  )" (.punct .closeParen) true, .token ";" (.punct .semicolon) false,
    .token "\n\x7d" (.punct .closeBrace) true]

/-- The element, behind its opening angle bracket. -/
def elementPieces (identifier : String) : List Piece :=
  tagPieces ++ ((valuePieces ++ (stylePieces ++ closePieces)) ++
    (shownPieces identifier ++ closingPieces))

/-! ## Every piece is read -/

theorem legible_importPieces (rest : List Char) : Legible importPieces rest :=
  ⟨fun _ _ => rfl, fun _ _ => rfl, fun _ _ => rfl, fun _ _ => rfl, fun _ _ => rfl,
    fun _ _ => rfl, fun _ _ => rfl, trivial⟩

theorem legible_headPieces (rest : List Char) : Legible headPieces (written tagPieces rest) :=
  ⟨fun _ _ => rfl, fun _ _ => rfl, fun _ _ => rfl, fun _ _ => rfl, fun _ _ => rfl,
    fun _ _ => rfl, fun _ _ => rfl, fun _ _ => rfl, fun _ _ => rfl, fun _ _ => rfl, trivial⟩

theorem legible_tagPieces (rest : List Char) : Legible tagPieces ('=' :: rest) :=
  ⟨fun _ => rfl, fun _ => rfl, trivial⟩

theorem legible_valuePieces (rest : List Char) : Legible valuePieces rest :=
  ⟨fun _ => rfl, fun _ => rfl, fun _ _ => rfl, trivial⟩

/-- An entry is legible if its key and its value are. -/
theorem legible_entryPieces {spelling key literal : String} {value : TokenKind}
    (keyed : ∀ rest, Spells (spelling.toList ++ ':' :: rest) (.word key) true (':' :: rest))
    (valued : ∀ rest, Spells (literal.toList ++ ',' :: rest) value false (',' :: rest))
    (rest : List Char) : Legible (entryPieces spelling key literal value) rest :=
  ⟨keyed _, fun _ _ => rfl, valued _, fun _ _ => rfl, trivial⟩

theorem legible_stylePieces (rest : List Char) : Legible stylePieces rest := by
  apply Legible.append (legible_entryPieces (fun _ _ _ => rfl) (fun _ _ _ => rfl) _)
  apply Legible.append (legible_entryPieces (fun _ _ _ => rfl) (fun _ _ _ => rfl) _)
  apply Legible.append (legible_entryPieces (fun _ _ _ => rfl) (fun _ _ _ => rfl) _)
  apply Legible.append (legible_entryPieces (fun _ _ _ => rfl) (fun _ _ _ => rfl) _)
  apply Legible.append (legible_entryPieces (fun _ _ _ => rfl) (fun _ _ _ => rfl) _)
  exact ⟨fun _ _ => rfl, trivial⟩

theorem legible_closePieces (rest : List Char) : Legible closePieces rest :=
  ⟨fun _ _ => rfl, fun _ => rfl, trivial⟩

theorem legible_shownPieces (identifier : String) (rest : List Char) :
    Legible (shownPieces identifier) rest :=
  ⟨fun _ => rfl, rfl, spells_quoted identifier rest, trivial⟩

theorem legible_closingPieces (rest : List Char) : Legible closingPieces rest :=
  ⟨fun _ _ => rfl, fun _ => rfl, rfl, fun _ => rfl, fun _ => rfl, fun _ => rfl, trivial⟩

theorem legible_endPieces (rest : List Char) : Legible endPieces rest :=
  ⟨fun _ _ => rfl, fun _ _ => rfl, fun _ _ => rfl, trivial⟩

theorem legible_elementPieces (identifier : String) (rest : List Char) :
    Legible (elementPieces identifier) rest :=
  (legible_tagPieces _).append (((legible_valuePieces _).append ((legible_stylePieces _).append
    (legible_closePieces _))).append
      ((legible_shownPieces identifier _).append (legible_closingPieces rest)))

/-! ## The tree -/

/-- A string literal with a value. -/
def IsString (value : String) (expr : Expr) : Prop := ∃ span, expr = .string span value

/-- A number literal with a value. -/
def IsNumber (value : Float) (expr : Expr) : Prop := ∃ span, expr = .number span value

/-- An entry of an object under a plain name. -/
def IsEntry (name : String) (holds : Expr → Prop) (entry : Node .entry) : Prop :=
  ∃ span key value, entry = .keyed span (.keyName key) value ∧ key.text = name ∧ holds value

/-- The style of the placeholder. -/
def IsStyle (entries : List (Node .entry)) : Prop :=
  ∃ justify align background color size,
    entries = [justify, align, background, color, size] ∧
      IsEntry "justifyContent" (IsString "center") justify ∧
      IsEntry "alignItems" (IsString "center") align ∧
      IsEntry "backgroundColor" (IsString "#101014") background ∧
      IsEntry "color" (IsString "#e8e8ee") color ∧
      IsEntry "fontSize" (IsNumber (Number.nearest 48 0)) size

/-- The attribute that holds the style. -/
def IsStyled (styled : Node .jsxAttribute) : Prop :=
  ∃ span objectSpan entries,
    styled = .attrExpr span "style" (.object objectSpan (.ofList entries)) ∧ IsStyle entries

/-- The children of the tag: the name in a container, with blanks around it. -/
def IsShown (identifier : String) (children : List (Node .child)) : Prop :=
  ∃ firstSpan span value lastSpan,
    children = [.childText firstSpan "\n      ", .childExpr span (.present value),
      .childText lastSpan "\n    "] ∧ IsString identifier value

/-- The element of the placeholder. -/
def IsElement (identifier : String) (element : Element) : Prop :=
  ∃ span nameSpan styled children,
    element = .tag span (some (.plain ⟨"AbsoluteFill", nameSpan⟩)) (.ofList [styled])
        (.ofList children) ∧ IsStyled styled ∧ IsShown identifier children

/-- What the component returns. -/
def IsReturned (identifier : String) (value : Expr) : Prop :=
  ∃ span jsxSpan element, value = .paren span (.jsx jsxSpan element) ∧ IsElement identifier element

/-- The component of the placeholder. -/
def IsComponent (identifier : String) (statement : Stmt) : Prop :=
  ∃ span functionSpan nameSpan returnSpan value bodySpan,
    statement = .exportFunction span (.func functionSpan (some ⟨"Placeholder", nameSpan⟩) .nil
      (.ofList [.returnStmt returnSpan (.present value)]) bodySpan false false) ∧
        IsReturned identifier value

/-- The statements of the placeholder. -/
def IsBody (identifier : String) (body : List Stmt) : Prop :=
  ∃ span nameSpan component,
    body = [.importStmt span [⟨⟨"AbsoluteFill", nameSpan⟩, some "AbsoluteFill", false⟩]
      "remotion" false, component] ∧ IsComponent identifier component

/-! ## Reading the parts -/

section Parts

variable {rules : Rules} {state : ParseState} {last : TokenKind} {newline lastNewline : Bool}
  {text rest lastText : List Char} {start depth : Nat} {identifier : String}

theorem import_runs (sees : Sees state (.word "import") false text)
    (read : ReadAs importPieces.tail text rest) (behind : Spells rest last lastNewline lastText) :
    Runs (rules.importStmt start) state fun statement next =>
      (∃ span nameSpan, statement = .importStmt span
        [⟨⟨"AbsoluteFill", nameSpan⟩, some "AbsoluteFill", false⟩] "remotion" false) ∧
          Sees next last lastNewline lastText := by
  obtain ⟨_, opens, _, named, _, closes, _, keyword, _, literal, _, semicolon, rfl⟩ := read
  exact importStmt_one sees opens named (by decide) closes keyword literal semicolon behind

theorem style_runs (sees : Sees state (.word "justifyContent") true text)
    (read : ReadAs stylePieces.tail text rest)
    (behind : Spells rest last lastNewline lastText) :
    Runs (commaList .closeBrace (ofDepth (depth + 1)).entry) state fun entries next =>
      IsStyle entries ∧ Sees next last lastNewline lastText := by
  obtain ⟨_, colon₁, _, value₁, _, comma₁, _, key₂, _, colon₂, _, value₂, _, comma₂, _, key₃, _,
    colon₃, _, value₃, _, comma₃, _, key₄, _, colon₄, _, value₄, _, comma₄, _, key₅, _, colon₅, _,
    value₅, _, comma₅, _, closes, rfl⟩ := read
  rw [commaList_eq]
  apply many_runs 6
  · have := colon₁.shorter rfl
    have := value₁.shorter rfl
    have := comma₁.shorter rfl
    have := key₂.shorter rfl
    rw [sees.rest]
    omega
  apply entries_more sees (by decide) (by decide) colon₁ value₁
    (fun _ sees => assignmentExpr_string sees comma₁ rfl) key₂
  intro justify _ isJustify sees
  apply entries_more sees (by decide) (by decide) colon₂ value₂
    (fun _ sees => assignmentExpr_string sees comma₂ rfl) key₃
  intro align _ isAlign sees
  apply entries_more sees (by decide) (by decide) colon₃ value₃
    (fun _ sees => assignmentExpr_string sees comma₃ rfl) key₄
  intro background _ isBackground sees
  apply entries_more sees (by decide) (by decide) colon₄ value₄
    (fun _ sees => assignmentExpr_string sees comma₄ rfl) key₅
  intro color _ isColor sees
  apply entries_more sees (by decide) (by decide) colon₅ value₅
    (fun _ sees => assignmentExpr_number sees comma₅ rfl) closes
  intro size _ isSize sees
  apply manyAtMost_done
  apply (eat_runs sees behind).mono
  rintro _ next ⟨rfl, seesNext⟩
  exact ⟨rfl, ⟨justify, align, background, color, size, rfl, isJustify, isAlign, isBackground,
    isColor, isSize⟩, seesNext⟩

/-- The style as the value of its attribute. -/
theorem styleObject_runs (sees : Sees state (.punct .openBrace) false text)
    (read : ReadAs stylePieces text rest)
    (closes : Spells rest (.punct .closeBrace) lastNewline lastText) :
    Runs ((ofDepth (depth + 2)).expression false) state fun value next =>
      (∃ span entries, value = .object span (.ofList entries) ∧ IsStyle entries) ∧
        Sees next (.punct .closeBrace) lastNewline lastText := by
  obtain ⟨_, first, read⟩ := read
  apply expression_of_assignment _ rfl
  exact assignmentExpr_of_primary sees ⟨rfl, rfl, rfl⟩
    (arrowParams_other sees ⟨rfl, rfl, rfl⟩ rfl rfl)
    (primary_object sees first fun _ sees => style_runs sees read closes) rfl

/-- The attribute of the tag, behind its name, and the token behind the attribute. -/
theorem attribute_runs {name : Name} (isName : name.text = "style") (before : state.Before text)
    (read : ReadAs (valuePieces ++ (stylePieces ++ closePieces)) text rest) :
    Runs ((ofDepth (depth + 2)).namedAttribute name) state fun answer next =>
      (IsStyled answer.1 ∧ answer.2.kind = .punct .greater) ∧ next.Before rest := by
  obtain ⟨_, ⟨_, assign, _, brace, _, opens, rfl⟩, read⟩ := readAs_append.mp read
  obtain ⟨_, style, _, closes, _, greater, rfl⟩ := readAs_append.mp read
  apply (namedAttribute_operand before assign brace opens rfl
    (fun _ sees => (styleObject_runs sees style closes).stands) greater).mono
  rintro ⟨_, found⟩ next ⟨⟨⟨span, value, made, styleSpan, entries, rfl, isStyle⟩, isGreater⟩,
    beforeNext⟩
  refine ⟨⟨⟨span, styleSpan, entries, ?_, isStyle⟩, isGreater⟩, beforeNext⟩
  rw [made, isName]

/-- The attribute is the only one. -/
theorem onlyAttribute_runs {tag : TagName} {first : Token} (isFirst : first.kind = .word "style")
    (before : state.Before text)
    (read : ReadAs (valuePieces ++ (stylePieces ++ closePieces)) text rest) :
    Runs ((ofDepth (depth + 2)).attributes start tag first) state fun answer next =>
      (∃ made, answer = (made, false) ∧ ∃ styled, made = [styled] ∧ IsStyled styled) ∧
        next.Before rest := by
  apply attributes_runs 2 (by omega)
  apply attributesAtMost_more isFirst
  apply (attribute_runs rfl before read).mono
  rintro answer next ⟨⟨isStyled, closes⟩, beforeNext⟩
  exact attributesAtMost_opens closes ⟨⟨_, rfl, _, rfl, isStyled⟩, beforeNext⟩

/-- What the tag shows, up to the end of the element. -/
theorem shown_runs (before : state.Before text)
    (read : ReadAs (shownPieces identifier ++ closingPieces) text rest) :
    Runs ((ofDepth (depth + 1)).children start "AbsoluteFill") state fun children next =>
      IsShown identifier children ∧ next.Before rest := by
  obtain ⟨_, white, _, rfl, _, label, _, closes, _, white', _, rfl, _, slash, _, name, _, greater,
    rfl⟩ := read
  apply children_runs before white _ white'
  · intro next before
    exact child_closing before slash name greater
  · intro next before
    apply child_container before label rfl rfl
    intro next sees
    exact (expression_of_assignment (assignmentExpr_string sees closes rfl) rfl).stands

theorem element_runs (before : state.Before text)
    (read : ReadAs (elementPieces identifier) text rest) :
    Runs ((ofDepth (depth + 2)).jsxElement start) state fun element next =>
      IsElement identifier element ∧ next.Before rest := by
  obtain ⟨_, ⟨_, named, _, styled, rfl⟩, read⟩ := readAs_append.mp read
  obtain ⟨_, opening, shown⟩ := readAs_append.mp read
  apply (jsxElement_runs before named styled rfl rfl
    (fun _ _ _ before isFirst => onlyAttribute_runs isFirst before opening)
    fun _ before => shown_runs before shown).mono
  rintro _ next ⟨⟨span, nameSpan, _, inside, rfl, ⟨styled, rfl, isStyled⟩, isShown⟩, beforeNext⟩
  exact ⟨⟨span, nameSpan, styled, inside, rfl, isStyled, isShown⟩, beforeNext⟩

/-- The component, behind the word that exports it. `ahead` is where the element begins. -/
theorem component_runs {ahead ahead' inner : List Char}
    (sees : Sees state (.word "export") newline text)
    (head : ReadAs headPieces.tail text inner)
    (named : Spells inner (.word "AbsoluteFill") false ahead)
    (styled : Spells ahead (.word "style") true ahead')
    (read : ReadAs (elementPieces identifier ++ endPieces) inner rest)
    (behind : Spells rest last lastNewline lastText) :
    Runs (ofDepth (depth + 6)).statement state fun statement next =>
      IsComponent identifier statement ∧ Sees next last lastNewline lastText := by
  obtain ⟨_, default, _, function, _, name, _, opens, _, closes, _, brace, body, returns, _, paren,
    _, less, rfl⟩ := head
  obtain ⟨_, element, _, closesParen, _, semicolon, bodyEnd, ends, rfl⟩ := readAs_append.mp read
  have returned : ∀ next, Sees next (.word "return") true body →
      Runs (ofDepth (depth + 5)).statement next fun statement after =>
        (∃ span value, statement = .returnStmt span (.present value) ∧
          IsReturned identifier value) ∧ Sees after (.punct .closeBrace) true bodyEnd := by
    intro next sees
    apply anyStmt_runs sees paren
    intro second _ _
    exact returnStmt_runs sees paren rfl rfl
      (fun _ sees => expression_parenJsx sees less named styled (by decide)
        (fun _ _ before => element_runs before element) closesParen semicolon rfl rfl) ends
  apply anyStmt_runs sees default
  intro second _ _
  apply (exportStmt_function sees default function fun _ _ sees =>
    function_runs sees name (by decide) opens closes brace fun _ sees =>
      block_one sees returns rfl rfl returned behind).mono
  rintro _ next ⟨⟨span, nameSpan, functionSpan, _, bodySpan, rfl, returnSpan, value, rfl,
    isReturned⟩, seesNext⟩
  exact ⟨⟨span, functionSpan, nameSpan, returnSpan, value, bodySpan, rfl, isReturned⟩, seesNext⟩

/-- The statements, up to the end of the text. -/
theorem body_runs {component inner ahead ahead' : List Char}
    (sees : Sees state (.word "import") false text)
    (imports : ReadAs importPieces.tail text component)
    (head : ReadAs headPieces component inner)
    (named : Spells inner (.word "AbsoluteFill") false ahead)
    (styled : Spells ahead (.word "style") true ahead')
    (read : ReadAs (elementPieces identifier ++ endPieces) inner rest)
    (ends : Spells rest .endOfInput lastNewline lastText) :
    Runs (many atEnd? (ofDepth (depth + 6)).statement) state fun body _ =>
      IsBody identifier body := by
  obtain ⟨opened, opens, imports⟩ := imports
  obtain ⟨_, exported, head⟩ := head
  apply many_runs 3
  · have := opens.shorter rfl
    rw [sees.rest]
    omega
  apply statements_more sees rfl
  apply (anyStmt_import sees opens rfl fun _ =>
    import_runs sees ⟨opened, opens, imports⟩ exported).mono
  rintro _ next ⟨⟨span, nameSpan, rfl⟩, sees⟩
  apply statements_more sees rfl
  apply (component_runs sees head named styled read ends).mono
  rintro statement next ⟨isComponent, sees⟩
  exact statements_done sees ⟨span, nameSpan, statement, rfl, isComponent⟩

end Parts

/-! ## The whole text -/

/-- The pieces of the placeholder. -/
def pieces (identifier : String) : List Piece :=
  importPieces ++ (headPieces ++ (elementPieces identifier ++ endPieces))

/-- The element begins with its tag, before an equals sign. -/
theorem written_elementPieces (identifier : String) (rest : List Char) :
    ∃ behind, written (elementPieces identifier) rest = written tagPieces ('=' :: behind) := by
  unfold elementPieces
  rw [written_append, written_append, written_append]
  exact ⟨_, rfl⟩

/-- Outside of a tag the names in it are words as well. -/
theorem spells_tagPieces (rest : List Char) :
    Spells (written tagPieces ('=' :: rest)) (.word "AbsoluteFill") false
        (written tagPieces.tail ('=' :: rest)) ∧
      Spells (written tagPieces.tail ('=' :: rest)) (.word "style") true ('=' :: rest) :=
  ⟨fun _ _ => rfl, fun _ _ => rfl⟩

/-- What is written in the pieces is read, as a component that shows the name. -/
theorem parse_pieces (identifier : String) :
    ∃ module, parse (written (pieces identifier) ['\n']) = .ok module ∧
      module.source = written (pieces identifier) ['\n'] ∧ IsBody identifier module.body := by
  obtain ⟨behind, isTag⟩ := written_elementPieces identifier (written endPieces ['\n'])
  obtain ⟨named, styled⟩ := spells_tagPieces behind
  have element := ((legible_elementPieces identifier _).append (legible_endPieces ['\n'])).readAs
  rw [written_append, isTag] at element
  have head := (legible_headPieces ('=' :: behind)).readAs
  obtain ⟨component, first, imports⟩ :=
    (legible_importPieces (written headPieces (written tagPieces ('=' :: behind)))).readAs
  have whole : written (pieces identifier) ['\n'] =
      written importPieces (written headPieces (written tagPieces ('=' :: behind))) := by
    unfold pieces
    rw [written_append, written_append, written_append, isTag]
  have filled : 0 < (written importPieces (written headPieces (written tagPieces
      ('=' :: behind)))).length := Nat.zero_lt_of_lt (first.shorter rfl)
  obtain ⟨depth, deep⟩ : ∃ depth, 3 * (written importPieces (written headPieces (written tagPieces
      ('=' :: behind)))).length + 3 = depth + 6 := ⟨_, (Nat.sub_add_cancel (by omega)).symm⟩
  rw [whole]
  apply parse_of_runs first
  intro state sees
  rw [deep]
  exact body_runs sees imports head named styled element fun _ _ => rfl

/-- The pieces of the lines before the one with the name. -/
def linePieces : List Piece :=
  importPieces ++ (headPieces ++ (tagPieces ++ (valuePieces ++ (stylePieces ++ closePieces))))

/-- Only the name between its quotes depends on the artifact. -/
theorem written_pieces (identifier : String) :
    written (pieces identifier) ['\n'] = (text linePieces).toList ++ '\n' ::
      ("      \x7b".toList ++ ((Text.quoted identifier).toList ++
        written (closingPieces ++ endPieces) ['\n'])) := by
  have shown (rest : List Char) : written (shownPieces identifier) rest =
      '\n' :: ("      \x7b".toList ++ ((Text.quoted identifier).toList ++ rest)) := rfl
  rw [← written_eq]
  simp only [pieces, elementPieces, linePieces, written_append, shown]

/-- The text of the placeholder is its pieces, and a line end. -/
theorem toList_placeholder (identifier : String) :
    (placeholder identifier).toList = written (pieces identifier) ['\n'] := by
  have ending : "\x7d\n" ++ ("    </AbsoluteFill>\n" ++ ("  );\n" ++ "\x7d\n")) =
      text (closingPieces ++ endPieces) ++ "\n" := by
    decide +kernel
  -- All that is before the name is a text of its own, which is compared with its pieces.
  have assembled {opening : String}
      (isOpening : opening = text linePieces ++ ("\n" ++ "      \x7b")) :
      (opening ++ Text.quoted identifier ++ "\x7d\n" ++ "    </AbsoluteFill>\n" ++ "  );\n" ++
        "\x7d\n").toList = written (pieces identifier) ['\n'] := by
    rw [written_pieces, written_eq, isOpening, String.append_assoc, String.append_assoc,
      String.append_assoc, String.append_assoc, ending]
    simp only [String.toList_append, List.append_assoc]
    rfl
  exact assembled (by decide +kernel)

/-- The placeholder of every artifact is read, as a component that shows the artifact's name. -/
theorem parse_placeholder (identifier : String) :
    ∃ module, parse (placeholder identifier).toList = .ok module ∧
      module.source = (placeholder identifier).toList ∧ IsBody identifier module.body := by
  rw [toList_placeholder]
  exact parse_pieces identifier

end Placeholder

end StopMotion.Frame
