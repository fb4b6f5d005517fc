import StopMotion.Repair.Fix

/-!
# Corrupted quotes

A pass over a text finds the quotes to delete. It keeps apart code, comments, template
text, regular expressions and string literals, and looks only at literals that stand
where a value can begin, so prose with repeated quotes is left alone. Passes repeat
until one finds nothing.
-/

namespace StopMotion.Repair

/-! ## Where a pass stands -/

/-- What surrounds a place: code, in which some braces are open, or template text. -/
inductive Context where
  | code (depth : Nat)
  | template
  deriving DecidableEq, Repr

/-- What a word lets follow it. -/
inductive WordClass where
  | returns
  | operator
  | other
  deriving DecidableEq, Repr

/-- The last thing of meaning before a place in code. -/
inductive Last where
  | start
  | punct (c : Char)
  | word (kind : WordClass)
  | operand
  deriving DecidableEq, Repr

/-- The words behind which an operand follows, `return` apart. -/
def operatorWords : List String :=
  ["typeof", "case", "in", "of", "new", "delete", "void", "throw", "else", "do", "yield",
    "await", "instanceof"]

/-- The class of a word. -/
def WordClass.of (word : List Char) : WordClass :=
  if word = "return".toList then returns
  else if operatorWords.contains (String.ofList word) then operator
  else other

/-- Whether a string literal here would be a value. -/
def Last.beforeValue : Last → Bool
  | start => true
  | punct c => [':', '=', '(', ',', '[', '?', '\x7b', '!', '&', '|', '+'].contains c
  | word kind => kind == .returns
  | operand => false

/-- Whether a slash here would begin a regular expression. -/
def Last.beforeRegex : Last → Bool
  | start => true
  | punct c => !([')', ']', '\x7d', '<'].contains c)
  | word kind => kind != .other
  | operand => false

/-! ## Classes of characters -/

/-- A character that can stand in a word; every character outside ASCII can. -/
def isWordChar (c : Char) : Bool :=
  c == '_' || c == '$' || c.isAlphanum || 0x80 ≤ c.toNat

/-- Whether what follows a literal ends the value: a closing or separating character, the
end of the line or the end of the text. -/
def endsValue (following : List Char) : Bool :=
  match following.head? with
  | none => true
  | some c => [',', ';', ')', ']', '\x7d', '\n', '\r'].contains c

/-- Whether what follows a run of quotes can begin the content of a literal. -/
def beginsContent (following : List Char) : Bool :=
  !endsValue following &&
    match following.head? with
    | none => false
    | some c => !([' ', '\t', '+', ':', '?', '&', '|', '=', '<', '>', '.'].contains c)

/-! ## Lengths of what is passed over -/

/-- The number of characters before the end of the line. -/
def lineLength (text : List Char) : Nat :=
  (text.takeWhile (· != '\n')).length

/-- The number of characters up to and including the end of a block comment. -/
def commentLength : List Char → Nat
  | [] => 0
  | c :: rest =>
    if c = '*' ∧ rest.head? = some '/' then 2 else commentLength rest + 1

/-- The number of characters of a regular expression behind its opening slash, its flags
included; it ends with its line at the latest. -/
def regexLength (escaped inClass : Bool) : List Char → Nat
  | [] => 0
  | c :: rest =>
    if escaped then regexLength false inClass rest + 1
    else if c = '\n' ∨ c = '\r' then 0
    else if c = '\\' then regexLength true inClass rest + 1
    else if c = '[' then regexLength false true rest + 1
    else if c = ']' then regexLength false false rest + 1
    else if c = '/' ∧ !inClass then (rest.takeWhile Char.isAlphanum).length + 1
    else regexLength false inClass rest + 1

/-- The number of characters before the closing quote of a literal's body, if it closes on
its line. -/
def bodyLength? (quote : Char) (escaped : Bool) : List Char → Option Nat
  | [] => none
  | c :: rest =>
    if escaped then (bodyLength? quote false rest).map (· + 1)
    else if c = '\\' then (bodyLength? quote true rest).map (· + 1)
    else if c = '\n' ∨ c = '\r' then none
    else if c = quote then some 0
    else (bodyLength? quote false rest).map (· + 1)

/-! ## Steps -/

/-- One step of a pass: how many characters it passes over behind the first, what surrounds
the place behind them, what came last before it, and what it deletes. -/
structure Step where
  behind : Nat
  contexts : List Context
  last : Last
  deletions : List Deletion := []

/-- A string literal that is no value, from its opening quote: the number of characters
behind the quote. One that does not close takes the rest of its line. -/
def plainLength (quote : Char) (rest : List Char) : Nat :=
  match bodyLength? quote false rest with
  | some body => body + 1
  | none => lineLength rest

/-- What follows the closing quote of a value. `offset` is where the literal starts, `kept` is
its text: quotes before the end of the value are deleted. Answers how many characters they
are. -/
def trailing (quote : Char) (offset : Nat) (kept following : List Char) : Nat × List Deletion :=
  let stray := following.takeWhile (· == quote)
  let ending := (following.drop stray.length).dropWhile fun c => c == ' ' || c == '\t'
  if !stray.isEmpty && endsValue ending then
    let start := offset + Text.size kept
    let before := String.ofList (kept ++ stray)
    let fix := ⟨start, before, String.ofList kept, .strayTrailingQuote⟩
    (stray.length, [⟨⟨start, start + Text.size stray⟩, fix⟩])
  else
    (0, [])

/-- The deletion of the first `count` characters of a literal. -/
def collapse (offset count : Nat) (literal : List Char) (rule : Rule) : Deletion :=
  let deleted := literal.take count
  ⟨⟨offset, offset + Text.size deleted⟩,
    ⟨offset, String.ofList literal, String.ofList (literal.drop count), rule⟩⟩

/-- A string literal where a value begins, at its opening quote: how many characters behind
that quote are passed over, and what is deleted. `rest` is the text behind the quote. -/
def valueString (quote : Char) (offset : Nat) (rest : List Char) : Nat × List Deletion :=
  let run := quote :: rest.takeWhile (· == quote)
  let count := run.length
  let following := rest.drop (count - 1)
  let body? :=
    if count = 1 ∨ beginsContent following then bodyLength? quote false following else none
  match body? with
  | some body =>
    let literal := run ++ following.take (body + 1)
    let rule := if count = 2 then Rule.doubledOpeningQuote else .quoteRun
    let opening := if count = 1 then [] else [collapse offset (count - 1) literal rule]
    let (stray, closing) :=
      trailing quote (offset + Text.size (literal.take (count - 1))) (literal.drop (count - 1))
        (following.drop (body + 1))
    (count + body + stray, opening ++ closing)
  | none =>
    if count = 1 then (lineLength rest, [])
    else if count = 2 then (1, [])
    else if beginsContent following then
      (count - 1 + lineLength following, [collapse offset (count - 1) run .quoteRun])
    else
      (count - 1, [collapse offset (count - 2) run .quoteRun])

/-- A step in template text. -/
def templateStep (contexts : List Context) (last : Last) (c : Char) (rest : List Char) : Step :=
  if c = '\\' then ⟨min 1 rest.length, contexts, last, []⟩
  else if c = '`' then ⟨0, contexts.tail, .operand, []⟩
  else if c = '$' ∧ rest.head? = some '\x7b' then
    ⟨1, .code 0 :: contexts, .punct '\x7b', []⟩
  else ⟨0, contexts, last, []⟩

/-- A step in code in which `depth` braces are open; `outer` is what surrounds that code. -/
def codeStep (depth : Nat) (outer : List Context) (last : Last) (offset : Nat)
    (c : Char) (rest : List Char) : Step :=
  let contexts := .code depth :: outer
  if c = ' ' ∨ c = '\t' ∨ c = '\n' ∨ c = '\r' then ⟨0, contexts, last, []⟩
  else if c = '/' ∧ rest.head? = some '/' then ⟨lineLength rest, contexts, last, []⟩
  else if c = '/' ∧ rest.head? = some '*' then
    ⟨commentLength (rest.drop 1) + 1, contexts, last, []⟩
  else if c = '/' ∧ last.beforeRegex then
    ⟨regexLength false false rest, contexts, .operand, []⟩
  else if c = '`' then ⟨0, .template :: contexts, last, []⟩
  else if c = '\'' ∨ c = '"' then
    if last.beforeValue then
      let (behind, deletions) := valueString c offset rest
      ⟨behind, contexts, .operand, deletions⟩
    else ⟨plainLength c rest, contexts, .operand, []⟩
  else if c = '\x7b' then ⟨0, .code (depth + 1) :: outer, .punct c, []⟩
  else if c = '\x7d' then
    match depth with
    | depth + 1 => ⟨0, .code depth :: outer, .punct c, []⟩
    | 0 => if outer.isEmpty then ⟨0, contexts, .punct c, []⟩ else ⟨0, outer, last, []⟩
  else if isWordChar c then
    let word := c :: rest.takeWhile isWordChar
    ⟨word.length - 1, contexts, .word (.of word), []⟩
  else ⟨0, contexts, .punct c, []⟩

/-- A step at a character. -/
def step (contexts : List Context) (last : Last) (offset : Nat) (c : Char) (rest : List Char) :
    Step :=
  match contexts with
  | .template :: _ => templateStep contexts last c rest
  | .code depth :: outer => codeStep depth outer last offset c rest
  | [] => codeStep 0 [] last offset c rest

/-! ## Passes -/

/-- What the rest of a pass deletes. `skip` counts the characters that the last step still
passes over. -/
def scan (skip : Nat) (contexts : List Context) (last : Last) (offset : Nat) :
    List Char → List Deletion
  | [] => []
  | c :: rest =>
    match skip with
    | skip + 1 => scan skip contexts last (offset + c.utf8Size) rest
    | 0 =>
      let found := step contexts last offset c rest
      found.deletions ++
        scan found.behind found.contexts found.last (offset + c.utf8Size) rest

/-- What one pass over a text deletes. -/
def pass (text : List Char) : List Deletion :=
  scan 0 [.code 0] .start 0 text

/-- A repaired text and the fixes of all passes, in order. -/
structure Outcome where
  text : List Char
  fixes : List Fix

/-- The number of fixes. -/
def Outcome.fixCount (outcome : Outcome) : Nat := outcome.fixes.length

/-- At most `bound` passes. -/
def passes : Nat → List Char → Outcome
  | 0, text => ⟨text, []⟩
  | bound + 1, text =>
    match pass text with
    | [] => ⟨text, []⟩
    | deletions =>
      let later := passes bound (apply deletions text)
      ⟨later.text, deletions.map (·.fix) ++ later.fixes⟩

/-- Repairs a text: passes repeat until one finds nothing. Each one that finds something
deletes a character at least, so there are no more than the text has characters. -/
def repair (text : List Char) : Outcome :=
  passes (text.length + 1) text

/-- The audit lines of an outcome. -/
def Outcome.audit (outcome : Outcome) : List String :=
  outcome.fixes.map (·.message)

end StopMotion.Repair
