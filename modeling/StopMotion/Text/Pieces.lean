import StopMotion.Text.CharClass

/-!
# Pieces of texts

Prefixes, words between blanks, lines and substrings, on lists of characters. Blank
means a character with the property `White_Space`.
-/

namespace StopMotion.Text

/-- What follows a beginning, if the text begins with it. -/
def after? : List Char → List Char → Option (List Char)
  | [], text => some text
  | _ :: _, [] => none
  | c :: rest, d :: text => if c = d then after? rest text else none

/-- What follows a beginning, if the text begins with it, for strings. -/
def afterString? (beginning text : String) : Option String :=
  (after? beginning.toList text.toList).map String.ofList

/-- A text without the blanks at its start. -/
def trimStart (text : List Char) : List Char := text.dropWhile isBlank

/-- A text without the blanks at its end. -/
def trimEnd (text : List Char) : List Char := (text.reverse.dropWhile isBlank).reverse

/-- A text without the blanks at both ends. -/
def trim (text : List Char) : List Char := trimEnd (trimStart text)

theorem trimStart_of_head {text : List Char} (first : text.head?.any isBlank = false) :
    trimStart text = text := by
  cases text with
  | nil => rfl
  | cons c rest => rw [trimStart, List.dropWhile_cons_of_neg (by simpa using first)]

/-- A text without blanks at its ends is left as it is. -/
theorem trim_of_ends {text : List Char} (first : text.head?.any isBlank = false)
    (last : text.getLast?.any isBlank = false) : trim text = text := by
  have reversed : text.reverse.dropWhile isBlank = text.reverse :=
    trimStart_of_head (by rwa [List.head?_reverse])
  rw [trim, trimStart_of_head first, trimEnd, reversed, List.reverse_reverse]

/-- A text without any blank is left as it is. -/
theorem trim_of_filled {text : List Char} (filled : ∀ c ∈ text, isBlank c = false) :
    trim text = text := by
  apply trim_of_ends
  · cases found : text.head? with
    | none => rfl
    | some c => exact filled c (List.mem_of_head? found)
  · cases found : text.getLast? with
    | none => rfl
    | some c => exact filled c (List.mem_of_getLast? found)

/-- A blank behind a text without any is trimmed. -/
theorem trim_concat {text : List Char} (filled : ∀ c ∈ text, isBlank c = false) {blank : Char}
    (isBlank_eq : isBlank blank = true) : trim (text ++ [blank]) = text := by
  have starts : trimStart text.reverse = text.reverse := by
    apply trimStart_of_head
    cases isFirst : text.reverse.head? with
    | none => rfl
    | some c => exact filled c (List.mem_reverse.mp (List.mem_of_head? isFirst))
  have ends : trimEnd (text ++ [blank]) = text := by
    rw [trimEnd, List.reverse_append, List.reverse_singleton, List.singleton_append,
      List.dropWhile_cons_of_pos isBlank_eq, ← trimStart, starts, List.reverse_reverse]
  cases text with
  | nil =>
      rw [trim, List.nil_append, trimStart, List.dropWhile_cons_of_pos isBlank_eq]
      rfl
  | cons c rest =>
      have isFull : isBlank c = false := filled c (.head _)
      rw [trim, trimStart_of_head (by simpa using isFull), ends]

/-- The parts of a text between the characters of a class, empty parts included. -/
def splitBy (separates : Char → Bool) : List Char → List (List Char)
  | [] => [[]]
  | c :: rest =>
    match splitBy separates rest with
    | [] => [[c]]
    | part :: parts => if separates c then [] :: part :: parts else (c :: part) :: parts

/-- The words of a text: its parts between blanks. -/
def words (text : List Char) : List (List Char) :=
  (splitBy isBlank text).filter (!·.isEmpty)

/-- The lines of a text. A line feed ends a line, with a carriage return before it; the last
line need not be ended. -/
def lines (text : List Char) : List (List Char) :=
  let parts := splitBy (· == '\n') text
  let ended := if parts.getLast? = some [] then parts.dropLast else parts
  let last := parts.length - 1
  ended.mapIdx fun number line =>
    if number < last && line.getLast? = some '\r' then line.dropLast else line

/-- The characters before and behind the first occurrence of a substring. -/
def splitFirst? (wanted : List Char) : List Char → Option (List Char × List Char)
  | [] => if wanted.isEmpty then some ([], []) else none
  | c :: rest =>
    match after? wanted (c :: rest) with
    | some behind => some ([], behind)
    | none => (splitFirst? wanted rest).map fun (before, behind) => (c :: before, behind)

/-- The characters before and behind the last occurrence of a character. -/
def splitLast? (wanted : Char) (text : List Char) : Option (List Char × List Char) :=
  let reversed := text.reverse
  let behind := reversed.takeWhile (· != wanted)
  match reversed.drop behind.length with
  | [] => none
  | _ :: before => some (before.reverse, behind.reverse)

/-- Whether a substring occurs in a text. -/
def contains (text wanted : List Char) : Bool :=
  (splitFirst? wanted text).isSome

/-- A text with a replacement for every occurrence of a substring, from the left, without
overlaps. `skip` characters are what is left of an occurrence that is replaced already. -/
def replaceFrom (wanted replacement : List Char) : (skip : Nat) → List Char → List Char
  | _, [] => []
  | skip + 1, _ :: rest => replaceFrom wanted replacement skip rest
  | 0, c :: rest =>
    if (after? wanted (c :: rest)).isSome && !wanted.isEmpty then
      replacement ++ replaceFrom wanted replacement (wanted.length - 1) rest
    else c :: replaceFrom wanted replacement 0 rest

/-- A text with a replacement for every occurrence of a substring, for strings. -/
def replaceAll (wanted replacement text : String) : String :=
  String.ofList (replaceFrom wanted.toList replacement.toList 0 text.toList)

/-- A beginning followed by anything is recognised, and nothing else is. -/
theorem after?_eq_some_iff {beginning text behind : List Char} :
    after? beginning text = some behind ↔ text = beginning ++ behind := by
  induction beginning generalizing text with
  | nil => simp [after?]
  | cons c rest inductionHypothesis =>
      cases text with
      | nil => simp [after?]
      | cons d text =>
          by_cases same : c = d
          · subst same
            simp [after?, inductionHypothesis]
          · simp [after?, same, Ne.symm same]

end StopMotion.Text
