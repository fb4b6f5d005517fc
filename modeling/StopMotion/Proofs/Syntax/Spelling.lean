import StopMotion.Proofs.Number.Integer
import StopMotion.Proofs.Number.Shape
import StopMotion.Proofs.Syntax.Run
import StopMotion.Proofs.Text.Quoted

/-!
# Spelled names, numerals and strings

A name is one token, and so is a decimal, in front of a character that goes on with neither. A
sign is one in front of a character that does not go on with it. A string in quotes is one token
wherever it stands, with the string as its value: any string that is written with escapes, and one
without quotes, backslashes and line ends that is written as it is. Blanks before a token are
passed over.
-/

namespace StopMotion.Syntax

open Number (IsInteger pointed)

/-! ## Characters -/

/-- A character that ends a name and a number: a blank or a punctuator that is no part of
them. -/
def endsWord (c : Char) : Bool :=
  [' ', ')', ',', ';', '(', '\x7d'].contains c

theorem cases_of_endsWord {c : Char} (ends : endsWord c = true) :
    c = ' ' ∨ c = ')' ∨ c = ',' ∨ c = ';' ∨ c = '(' ∨ c = '\x7d' := by
  simpa [endsWord] using ends

theorem not_continuesName_of_endsWord {c : Char} (ends : endsWord c = true) :
    continuesName c = false := by
  rcases cases_of_endsWord ends with rfl | rfl | rfl | rfl | rfl | rfl <;> decide

theorem not_startsName_of_endsWord {c : Char} (ends : endsWord c = true) :
    startsName c = false := by
  rw [Bool.eq_false_iff]
  intro starts
  cases (continuesName_of_startsName starts).symm.trans (not_continuesName_of_endsWord ends)

/-- The digits are these. -/
theorem cases_of_isDigit {c : Char} (digit : c.isDigit = true) :
    c = '0' ∨ c = '1' ∨ c = '2' ∨ c = '3' ∨ c = '4' ∨ c = '5' ∨ c = '6' ∨ c = '7' ∨ c = '8' ∨
      c = '9' := by
  simp only [Char.isDigit, Bool.and_eq_true, decide_eq_true_eq] at digit
  have bounds : 48 ≤ c.toNat ∧ c.toNat ≤ 57 := digit
  have codes : c.toNat = 48 ∨ c.toNat = 49 ∨ c.toNat = 50 ∨ c.toNat = 51 ∨ c.toNat = 52 ∨
      c.toNat = 53 ∨ c.toNat = 54 ∨ c.toNat = 55 ∨ c.toNat = 56 ∨ c.toNat = 57 := by omega
  simpa [← Char.toNat_inj] using codes

/-! ## Blanks -/

/-- A blank before a token is passed over. -/
theorem SpellsAfter.blank {before kind : TokenKind} {text rest : List Char}
    (spells : SpellsAfter before text kind false rest) :
    SpellsAfter before (' ' :: text) kind false rest :=
  fun pos => spells (pos + 1)

theorem Spells.blank {text rest : List Char} {kind : TokenKind}
    (spells : Spells text kind false rest) : Spells (' ' :: text) kind false rest :=
  fun regexMayFollow pos => spells regexMayFollow (pos + 1)

/-! ## Names -/

/-- The characters of a name. -/
structure IsWord (word : String) : Prop where
  starts : word.toList.head?.any startsName = true
  goesOn : word.toList.all continuesName = true

/-- A character that begins a name begins neither a blank nor a comment. -/
theorem skipTrivia_startsName {c : Char} (starts : startsName c = true) (pos : Nat)
    (rest : List Char) :
    skipTrivia .blank false pos (c :: rest) = .ok (false, ⟨c :: rest, pos⟩) := by
  have filled : Text.isBlank c = false :=
    not_blank_of_continuesName (continuesName_of_startsName starts)
  have noLine : endsLine c = false := by
    rw [Bool.eq_false_iff]
    intro ends
    simp only [endsLine, Bool.or_eq_true, beq_iff_eq] at ends
    have code : c.toNat = 0x0a ∨ c.toNat = 0x0d ∨ c.toNat = 0x2028 ∨ c.toNat = 0x2029 := by
      rcases ends with ((rfl | rfl) | code) | code
      · exact .inl rfl
      · exact .inr (.inl rfl)
      · exact .inr (.inr (.inl code))
      · exact .inr (.inr (.inr code))
    have blank : Text.isBlank c = true := by
      rw [← Char.ofNat_toNat c]
      rcases code with code | code | code | code <;> rw [code] <;> decide
    rw [blank] at filled
    cases filled
  have noMark : (c.toNat == 0xfeff) = false := by
    rw [beq_eq_false_iff_ne]
    intro mark
    rw [← Char.ofNat_toNat c, mark] at starts
    revert starts
    decide +kernel
  have noSlash : c ≠ '/' := by
    rintro rfl
    revert starts
    decide
  simp [skipTrivia, noLine, filled, noMark, noSlash]

/-- A name is read up to the first character that does not go on with it. -/
theorem spells_word {word : String} (isWord : IsWord word) {c : Char} (rest : List Char)
    (ends : continuesName c = false) :
    Spells (word.toList ++ c :: rest) (.word word) false (c :: rest) := by
  obtain ⟨starts, goesOn⟩ := isWord
  intro regexMayFollow pos
  cases spelled : word.toList with
  | nil =>
      rw [spelled] at starts
      cases starts
  | cons first more =>
      rw [spelled] at starts goesOn
      have taken : (first :: more ++ c :: rest).takeWhile continuesName = first :: more := by
        rw [List.takeWhile_append_of_pos (by simpa using goesOn), List.takeWhile_cons_of_neg]
        · simp
        · simp [ends]
      have left : (first :: more ++ c :: rest).dropWhile continuesName = c :: rest := by
        rw [List.dropWhile_append_of_pos (by simpa using goesOn), List.dropWhile_cons_of_neg]
        simp [ends]
      have kind : readKind regexMayFollow ⟨first :: (more ++ c :: rest), pos⟩ first
          (more ++ c :: rest) =
            .ok (.word word, ⟨c :: rest, pos + Text.size (first :: more)⟩) := by
        have begins : startsName first = true := by simpa using starts
        rw [← List.cons_append]
        simp only [readKind, begins, if_true, Cursor.span, taken, left]
        rw [← spelled, String.ofList_toList]
      unfold readToken
      rw [List.cons_append, skipTrivia_startsName starts]
      change seen? (Except.bind (readKind regexMayFollow _ first _) _) = _
      rw [kind]
      rfl

/-! ## Signs -/

theorem spells_openParen (rest : List Char) :
    Spells ('(' :: rest) (.punct .openParen) false rest := fun _ _ => rfl

theorem spells_closeParen (rest : List Char) :
    Spells (')' :: rest) (.punct .closeParen) false rest := fun _ _ => rfl

/-- A sign is a token of its own, where the character behind it does not go on with it. -/
theorem spells_sign {sign : Char} {punct : Punct}
    (isSign : (sign, punct) ∈ [('!', Punct.bang), ('-', Punct.minus), ('.', Punct.dot)]) {c : Char}
    (rest : List Char) (noDigit : sign = '.' → c.isDigit = false) (alone : c ∉ ['=', sign]) :
    Spells (sign :: c :: rest) (.punct punct) false (c :: rest) := by
  simp only [List.mem_cons, List.not_mem_nil, or_false, not_or] at alone
  obtain ⟨noAssign, noMore⟩ := alone
  have noAssign : '=' ≠ c := fun is => noAssign is.symm
  have noMore : sign ≠ c := fun is => noMore is.symm
  have found : Punct.first? Punct.all (sign :: c :: rest) = some punct := by
    simp only [List.mem_cons, Prod.mk.injEq, List.not_mem_nil, or_false] at isSign
    rcases isSign with ⟨rfl, rfl⟩ | ⟨rfl, rfl⟩ | ⟨rfl, rfl⟩ <;>
      simp [Punct.first?, Punct.all, Punct.text, noAssign, noMore]
  intro regexMayFollow pos
  have kind : readKind regexMayFollow ⟨sign :: c :: rest, pos⟩ sign (c :: rest) =
      .ok (.punct punct, ⟨c :: rest, pos + 1⟩) := by
    simp only [List.mem_cons, Prod.mk.injEq, List.not_mem_nil, or_false] at isSign
    unfold readKind
    rw [found]
    rcases isSign with ⟨rfl, rfl⟩ | ⟨rfl, rfl⟩ | ⟨rfl, rfl⟩
    · rfl
    · rfl
    · have starts : startsName '.' = false := by decide
      simp [noDigit rfl, starts]
      rfl
  have blank : skipTrivia .blank false pos (sign :: c :: rest) =
      .ok (false, ⟨sign :: c :: rest, pos⟩) := by
    simp only [List.mem_cons, Prod.mk.injEq, List.not_mem_nil, or_false] at isSign
    rcases isSign with ⟨rfl, rfl⟩ | ⟨rfl, rfl⟩ | ⟨rfl, rfl⟩ <;> rfl
  unfold readToken
  rw [blank]
  change seen? (Except.bind (readKind regexMayFollow _ sign _) _) = _
  rw [kind]
  rfl

/-! ## Decimals -/

section Digits

variable {digits fraction : List Char} {c : Char}

theorem takeWhile_digits {accepts : Char → Bool} {rest : List Char}
    (areDigits : ∀ digit ∈ digits, accepts digit = true)
    (stops : rest.head?.any accepts = false) :
    (digits ++ rest).takeWhile accepts = digits ∧ (digits ++ rest).dropWhile accepts = rest := by
  rw [List.takeWhile_append_of_pos areDigits, List.dropWhile_append_of_pos areDigits]
  cases rest with
  | nil => simp
  | cons c rest =>
      have stops : ¬accepts c = true := by simpa using stops
      rw [List.takeWhile_cons_of_neg stops, List.dropWhile_cons_of_neg stops]
      simp

/-- A decimal is read as the number that it spells. -/
theorem read?_decimal (filled : digits ≠ []) (areDigits : digits.all Char.isDigit = true)
    (areDigits' : fraction.all Char.isDigit = true) :
    Number.read? (digits ++ pointed fraction) =
      some (Number.nearest (Number.ofDigits (digits ++ fraction)) (-(fraction.length : Int))) := by
  rw [List.all_eq_true] at areDigits areDigits'
  have isEmpty : digits.isEmpty = false := by simpa using filled
  have stops : (pointed fraction).head?.any Char.isDigit = false := by
    unfold pointed
    split <;> rfl
  obtain ⟨taken, left⟩ := takeWhile_digits areDigits stops
  unfold Number.read?
  rw [taken, left]
  unfold pointed
  cases fraction with
  | nil => simp [isEmpty]
  | cons first others =>
      have split := takeWhile_digits areDigits' (show ([] : List Char).head?.any _ = false from rfl)
      rw [List.append_nil] at split
      simp [isEmpty, split]

/-- Digits are scanned up to the first character that is none. -/
theorem scanDigits_digits (areDigits : digits.all Char.isDigit = true) (pos : Nat)
    {rest : List Char} (stops : rest.head?.any (fun c => c.isDigit || c == '_') = false) :
    scanDigits ⟨digits ++ rest, pos⟩ = (digits, ⟨rest, pos + Text.size digits⟩) := by
  have accepted : ∀ digit ∈ digits, (digit.isDigit || digit == '_') = true := by
    intro digit member
    rw [List.all_eq_true.mp areDigits digit member]
    rfl
  obtain ⟨taken, left⟩ := takeWhile_digits accepted stops
  simp only [scanDigits, Cursor.span, taken, left]

/-- A decimal in front of a character that ends it is scanned as a number. -/
theorem scanDecimal_decimal (filled : digits ≠ []) (areDigits : digits.all Char.isDigit = true)
    (areDigits' : fraction.all Char.isDigit = true) (pos : Nat) (rest : List Char)
    (ends : endsWord c = true) :
    ∃ last, scanDecimal ⟨digits ++ (pointed fraction ++ c :: rest), pos⟩ =
      .ok (Number.nearest (Number.ofDigits (digits ++ fraction)) (-(fraction.length : Int)),
        ⟨c :: rest, last⟩) := by
  have stops : (c.isDigit || c == '_') = false := by
    rcases cases_of_endsWord ends with rfl | rfl | rfl | rfl | rfl | rfl <;> decide
  have noName : startsName c = false := not_startsName_of_endsWord ends
  have plain : (digits ++ pointed fraction).filter (· != '_') = digits ++ pointed fraction := by
    rw [List.filter_eq_self]
    intro digit member
    rw [bne_iff_ne]
    rintro rfl
    rw [List.mem_append, pointed] at member
    rcases member with member | member
    · exact absurd (List.all_eq_true.mp areDigits _ member) (by decide)
    · split at member
      · cases member
      · rw [List.mem_cons] at member
        exact member.elim (by decide) fun member =>
          absurd (List.all_eq_true.mp areDigits' _ member) (by decide)
  have read := read?_decimal filled areDigits areDigits'
  have behind : (pointed fraction ++ c :: rest).head?.any (fun c => c.isDigit || c == '_') =
      false := by
    unfold pointed
    split
    · simpa using stops
    · rfl
  unfold scanDecimal
  rw [scanDigits_digits areDigits pos behind]
  cases fraction with
  | nil =>
      refine ⟨pos + Text.size digits, ?_⟩
      simp only [pointed, List.isEmpty_nil, if_true, List.append_nil, List.nil_append]
        at plain read ⊢
      rcases cases_of_endsWord ends with rfl | rfl | rfl | rfl | rfl | rfl <;>
        simp [scanExponent, skipBigSuffix, plain, read, noName, bind, Except.bind]
  | cons first others =>
      refine ⟨pos + Text.size digits + 1 + Text.size (first :: others), ?_⟩
      have point (text : List Char) (pos : Nat) :
          Cursor.skip 1 ⟨'.' :: text, pos⟩ = ⟨text, pos + 1⟩ := rfl
      have inner := scanDigits_digits areDigits' (pos + Text.size digits + 1)
        (show (c :: rest).head?.any (fun c => c.isDigit || c == '_') = false by simpa using stops)
      simp only [pointed, List.isEmpty_cons, Bool.false_eq_true, if_false, List.cons_append]
        at plain read inner ⊢
      rcases cases_of_endsWord ends with rfl | rfl | rfl | rfl | rfl | rfl <;>
        simp [scanExponent, skipBigSuffix, plain, read, noName, point, inner, bind, Except.bind]

/-- A decimal has no letter behind its first digit, so that it has no radix. -/
theorem scanNumber_decimal (filled : digits ≠ []) (areDigits : digits.all Char.isDigit = true)
    (areDigits' : fraction.all Char.isDigit = true) (pos : Nat) (rest : List Char)
    (ends : endsWord c = true) :
    ∃ last, scanNumber ⟨digits ++ (pointed fraction ++ c :: rest), pos⟩ =
      .ok (Number.nearest (Number.ofDigits (digits ++ fraction)) (-(fraction.length : Int)),
        ⟨c :: rest, last⟩) := by
  have noRadix {letter : Char}
      (plain : letter.isDigit = true ∨ letter = '.' ∨ endsWord letter = true) :
      radixOf? letter = none := by
    rcases plain with digit | rfl | ends
    · rcases cases_of_isDigit digit with
        rfl | rfl | rfl | rfl | rfl | rfl | rfl | rfl | rfl | rfl <;> rfl
    · rfl
    · rcases cases_of_endsWord ends with rfl | rfl | rfl | rfl | rfl | rfl <;> rfl
  have scanned := scanDecimal_decimal filled areDigits areDigits' pos rest ends
  rw [scanNumber]
  split
  · rename_i letter others split
    have plain : letter.isDigit = true ∨ letter = '.' ∨ endsWord letter = true := by
      match digits, filled with
      | [first], _ =>
          unfold pointed at split
          split at split
          · cases split
            exact .inr (.inr ends)
          · cases split
            exact .inr (.inl rfl)
      | first :: second :: more, _ =>
          cases split
          rw [List.all_eq_true] at areDigits
          exact .inl (areDigits letter (by simp))
    simp only [noRadix plain]
    exact scanned
  · exact scanned

/-- A decimal is a token. -/
theorem spells_decimal (filled : digits ≠ []) (areDigits : digits.all Char.isDigit = true)
    (areDigits' : fraction.all Char.isDigit = true) (rest : List Char) (ends : endsWord c = true) :
    Spells (digits ++ (pointed fraction ++ c :: rest))
      (.number (Number.nearest (Number.ofDigits (digits ++ fraction)) (-(fraction.length : Int))))
      false (c :: rest) := by
  intro regexMayFollow pos
  obtain ⟨last, scanned⟩ := scanNumber_decimal filled areDigits areDigits' pos rest ends
  obtain ⟨first, more, rfl⟩ := List.exists_cons_of_ne_nil filled
  have digit : first.isDigit = true := List.all_eq_true.mp areDigits first List.mem_cons_self
  have begins : readKind regexMayFollow ⟨first :: (more ++ (pointed fraction ++ c :: rest)), pos⟩
      first (more ++ (pointed fraction ++ c :: rest)) = Except.bind
        (scanNumber ⟨first :: (more ++ (pointed fraction ++ c :: rest)), pos⟩)
          fun found => .ok (.number found.1, found.2) := by
    rcases cases_of_isDigit digit with
      rfl | rfl | rfl | rfl | rfl | rfl | rfl | rfl | rfl | rfl <;> rfl
  have blank : skipTrivia .blank false pos (first :: (more ++ (pointed fraction ++ c :: rest))) =
      .ok (false, ⟨first :: (more ++ (pointed fraction ++ c :: rest)), pos⟩) := by
    rcases cases_of_isDigit digit with rfl | rfl | rfl | rfl | rfl | rfl | rfl | rfl | rfl | rfl <;>
      rfl
  unfold readToken
  rw [List.cons_append, blank]
  change seen? (Except.bind (readKind regexMayFollow _ first _) _) = _
  rw [begins, ← List.cons_append, scanned]
  rfl

end Digits

/-! ## Numerals -/

theorem toList_numeral (count : Nat) : (toString count).toList = Nat.toDigits 10 count :=
  Nat.toList_repr

theorem isDigit_of_mem_numeral {count : Nat} {c : Char} (member : c ∈ (toString count).toList) :
    c.isDigit = true := by
  rw [toList_numeral] at member
  exact Nat.isDigit_of_mem_toDigits (by decide) (by decide) member

/-- A numeral begins with a digit. -/
theorem exists_digit (count : Nat) : ∃ first more, first.isDigit = true ∧
    (toString count).toList = first :: more := by
  have filled : (toString count).toList ≠ [] := by
    rw [toList_numeral]
    exact Nat.toDigits_ne_nil
  obtain ⟨first, more, split⟩ := List.exists_cons_of_ne_nil filled
  exact ⟨first, more, isDigit_of_mem_numeral (split ▸ List.mem_cons_self), split⟩

/-- A sign in front of a numeral is a token of its own. -/
theorem spells_minus (count : Nat) (rest : List Char) :
    Spells ('-' :: ((toString count).toList ++ rest)) (.punct .minus) false
      ((toString count).toList ++ rest) := by
  obtain ⟨first, more, digit, split⟩ := exists_digit count
  rw [split, List.cons_append]
  refine spells_sign (by decide) _ (fun isDot => absurd isDot (by decide)) ?_
  rcases cases_of_isDigit digit with rfl | rfl | rfl | rfl | rfl | rfl | rfl | rfl | rfl | rfl <;>
    decide

/-- The numeral of a natural number is read as the float nearest to it. -/
theorem spells_numeral (count : Nat) {c : Char} (rest : List Char) (ends : endsWord c = true) :
    Spells ((toString count).toList ++ c :: rest) (.number (Number.nearest count 0)) false
      (c :: rest) := by
  have filled : (toString count).toList ≠ [] := by
    rw [toList_numeral]
    exact Nat.toDigits_ne_nil
  have areDigits : (toString count).toList.all Char.isDigit = true :=
    List.all_eq_true.2 fun _ member => isDigit_of_mem_numeral member
  have value : Number.ofDigits ((toString count).toList ++ []) = count := by
    rw [List.append_nil, toList_numeral]
    exact Nat.ofDigitChars_ten_toDigits
  have none : ([] : List Char).all Char.isDigit = true := rfl
  have spells := spells_decimal filled areDigits none rest ends
  rw [value] at spells
  exact spells

/-! ## Strings -/

/-- A quoted string is a token, with the string as its value. -/
theorem spells_quoted (identifier : String) (rest : List Char) :
    Spells ((Text.quoted identifier).toList ++ rest) (.string identifier) false rest := by
  intro regexMayFollow pos
  have spelled : (Text.quoted identifier).toList ++ rest =
      '"' :: (identifier.toList.flatMap Text.escaped ++ '"' :: rest) := by
    simp [Text.quoted]
  have scanned := scanString_quoted pos (pos + 1) [] identifier.toList rest
  rw [List.reverse_nil, List.nil_append, String.ofList_toList] at scanned
  have kind : readKind regexMayFollow
      ⟨'"' :: (identifier.toList.flatMap Text.escaped ++ '"' :: rest), pos⟩ '"'
      (identifier.toList.flatMap Text.escaped ++ '"' :: rest) =
        .ok (.string identifier,
          ⟨rest, pos + 1 + Text.size (identifier.toList.flatMap Text.escaped) + 1⟩) := by
    change Except.bind (scanString '"' pos 0 (pos + 1) [] _) _ = _
    rw [scanned]
    rfl
  rw [spelled]
  change seen? (Except.bind (readKind regexMayFollow _ '"' _) _) = _
  rw [kind]
  rfl

/-- A text that a literal in single quotes holds as it is: none of its characters ends the
literal, begins an escape or ends a line. -/
def IsVerbatim (text : List Char) : Prop :=
  ∀ c ∈ text, c ∉ ['\'', '\\', '\n', '\r']

instance (text : List Char) : Decidable (IsVerbatim text) :=
  inferInstanceAs (Decidable (∀ c ∈ text, c ∉ ['\'', '\\', '\n', '\r']))

theorem scanString_verbatim {text : List Char} (verbatim : IsVerbatim text) (start pos : Nat)
    (read rest : List Char) :
    scanString '\'' start 0 pos read (text ++ '\'' :: rest) =
      .ok (String.ofList (read.reverse ++ text), ⟨rest, pos + Text.size text + 1⟩) := by
  induction text generalizing pos read with
  | nil =>
      simp [scanString]
      rfl
  | cons c text inductionHypothesis =>
      obtain ⟨plain, others⟩ := List.forall_mem_cons.1 verbatim
      simp only [List.mem_cons, List.not_mem_nil, or_false, not_or] at plain
      obtain ⟨noQuote, noEscape, noLine, noReturn⟩ := plain
      rw [List.cons_append, scanString]
      simp only [noLine, noReturn, or_self, if_false, noEscape, noQuote]
      rw [inductionHypothesis others]
      simp [Text.size, Nat.add_assoc]

/-- A verbatim text in single quotes is a token, with the text as its value. -/
theorem spells_verbatim {text : String} (verbatim : IsVerbatim text.toList) (rest : List Char) :
    Spells (("'" ++ text ++ "'").toList ++ rest) (.string text) false rest := by
  intro regexMayFollow pos
  have spelled : ("'" ++ text ++ "'").toList ++ rest = '\'' :: (text.toList ++ '\'' :: rest) := by
    simp
  have scanned := scanString_verbatim verbatim pos (pos + 1) [] rest
  rw [List.reverse_nil, List.nil_append, String.ofList_toList] at scanned
  have kind : readKind regexMayFollow ⟨'\'' :: (text.toList ++ '\'' :: rest), pos⟩ '\''
      (text.toList ++ '\'' :: rest) =
        .ok (.string text, ⟨rest, pos + 1 + Text.size text.toList + 1⟩) := by
    change Except.bind (scanString '\'' pos 0 (pos + 1) [] _) _ = _
    rw [scanned]
    rfl
  rw [spelled]
  change seen? (Except.bind (readKind regexMayFollow _ '\'' _) _) = _
  rw [kind]
  rfl

end StopMotion.Syntax
