import StopMotion.Proofs.Repair.FixedPoint
import StopMotion.Proofs.Repair.Line

/-!
# Steps before a literal

A step looks ahead: at the next character, along a run, for the end of a comment or of a literal.
Two texts are twins when no such look can tell one from the other. A step that ends before a twin
does the same before the other one, so a pass comes to both of them in the same way.
-/

namespace StopMotion.Repair

open Text (size)

/-! ## Places -/

/-- A place that a pass comes to: what it knows there and the text from there on. -/
structure Place where
  contexts : List Context
  last : Last
  offset : Nat
  text : List Char

/-- Where a pass over a text begins. -/
def Place.start (text : List Char) : Place := ⟨[.code 0], .start, 0, text⟩

/-- What a pass finds from a place on. -/
def Place.deletions (place : Place) : List Deletion :=
  scan 0 place.contexts place.last place.offset place.text

/-- Where a step leads. -/
def Step.next (found : Step) (offset : Nat) (c : Char) (rest : List Char) : Place :=
  ⟨found.contexts, found.last, offset + size (c :: rest.take found.behind),
    rest.drop found.behind⟩

/-- A pass that is at the first place comes to the second. -/
inductive Reaches : Place → Place → Prop where
  | here {place} : Reaches place place
  | step {contexts last offset c rest place}
      (later : Reaches ((step contexts last offset c rest).next offset c rest) place) :
      Reaches ⟨contexts, last, offset, c :: rest⟩ place

/-- A pass at a character goes on behind a step. -/
theorem deletions_cons (contexts : List Context) (last : Last) (offset : Nat) (c : Char)
    (rest : List Char) :
    Place.deletions ⟨contexts, last, offset, c :: rest⟩ =
      (step contexts last offset c rest).deletions ++
        ((step contexts last offset c rest).next offset c rest).deletions := by
  rw [Place.deletions, scan, scan_skip, Nat.add_assoc, ← Text.size_cons]
  rfl

theorem Reaches.length_le {place later : Place} (reaches : Reaches place later) :
    later.text.length ≤ place.text.length := by
  induction reaches with
  | here => exact Nat.le_refl _
  | step later inductionHypothesis =>
      refine inductionHypothesis.trans ?_
      rw [Step.next, List.length_drop, List.length_cons]
      omega

/-- A place is as far from the end of a text as its offset says. -/
theorem Reaches.offset_add_size {place later : Place} (reaches : Reaches place later) :
    later.offset + size later.text = place.offset + size place.text := by
  induction reaches with
  | here => rfl
  | @step contexts last offset c rest place behind inductionHypothesis =>
      have parts := Text.size_append
        (rest.take (Repair.step contexts last offset c rest).behind)
        (rest.drop (Repair.step contexts last offset c rest).behind)
      rw [List.take_append_drop] at parts
      rw [inductionHypothesis, Step.next, Text.size_cons, Text.size_cons]
      dsimp only
      omega

theorem Reaches.eq_of_length {place later : Place} (reaches : Reaches place later)
    (same : later.text.length = place.text.length) : later = place := by
  cases reaches with
  | here => rfl
  | step behind =>
      have shorter := behind.length_le
      rw [Step.next, List.length_drop] at shorter
      rw [List.length_cons] at same
      omega

/-- A step on the way to the end of a text stays before that end. -/
theorem Reaches.exists_front {contexts : List Context} {last : Last} {offset : Nat} {c : Char}
    {rest front text : List Char} {place : Place}
    (later : Reaches ((Repair.step contexts last offset c rest).next offset c rest) place)
    (there : place.text = text) (before : c :: rest = front ++ text) :
    ∃ inner, front = c :: inner ∧ rest = inner ++ text ∧
      (Repair.step contexts last offset c rest).behind ≤ inner.length := by
  have shorter := later.length_le
  have fits := (fits_step contexts last offset c rest).1
  rw [there, Step.next, List.length_drop] at shorter
  cases front with
  | nil =>
      have whole := congrArg List.length before
      rw [List.length_cons, List.nil_append] at whole
      omega
  | cons d inner =>
      obtain ⟨rfl, rfl⟩ : c = d ∧ rest = inner ++ text := List.cons_eq_cons.mp before
      rw [List.length_append] at shorter fits
      exact ⟨inner, rfl, rfl, by omega⟩

/-! ## Runs -/

/-- Behind a run stands what is left when it is dropped. -/
theorem drop_takeWhile_length (kind : Char → Bool) (text : List Char) :
    text.drop (text.takeWhile kind).length = text.dropWhile kind := by
  conv_lhs => arg 2; rw [← List.takeWhile_append_dropWhile (p := kind) (l := text)]
  exact List.drop_left

theorem take_takeWhile_length (kind : Char → Bool) (text : List Char) :
    text.take (text.takeWhile kind).length = text.takeWhile kind :=
  ((List.prefix_iff_eq_take).mp (List.takeWhile_prefix kind)).symm

theorem isEmpty_takeWhile_eq (kind : Char → Bool) (text : List Char) :
    (text.takeWhile kind).isEmpty = !text.head?.any kind := by
  cases text with
  | nil => rfl
  | cons c rest => cases belongs : kind c <;> simp [belongs]

/-! ## Twins -/

/-- Texts that no look ahead tells apart. Both begin with the same quote, so the one ends a run,
a line or a comment where the other does; a literal that does not close in the one does not close
in the other; and in neither do quotes that would be behind a literal end a value. -/
structure Twins (text twin : List Char) : Prop where
  first : ∃ quote, IsQuote quote ∧ text.head? = some quote ∧ twin.head? = some quote
  unclosed : ∀ quote, bodyLength? quote false text = none → bodyLength? quote false twin = none
  continues : ∀ quote, endsValue ((text.dropWhile (· == quote)).dropWhile
    fun c => c == ' ' || c == '\t') = false
  twinContinues : ∀ quote, endsValue ((twin.dropWhile (· == quote)).dropWhile
    fun c => c == ' ' || c == '\t') = false

namespace Twins

variable {text twin : List Char}

theorem head?_eq (twins : Twins text twin) : twin.head? = text.head? := by
  obtain ⟨quote, -, first, second⟩ := twins.first
  rw [first, second]

theorem head?_append (twins : Twins text twin) (front : List Char) :
    (front ++ twin).head? = (front ++ text).head? := by
  cases front with
  | nil => exact twins.head?_eq
  | cons c front => rfl

/-- What a character may be that a text begins with only if a quote may. -/
theorem head?_ne (twins : Twins text twin) {c : Char} (other : ¬IsQuote c) :
    text.head? ≠ some c := by
  obtain ⟨quote, isQuote, first, -⟩ := twins.first
  rw [first]
  rintro ⟨rfl⟩
  exact other isQuote

/-- A run that ends before the one ends there before the other. -/
theorem takeWhile_eq (twins : Twins text twin) (kind : Char → Bool) {front : List Char}
    (within : ((front ++ text).takeWhile kind).length ≤ front.length) :
    (front ++ twin).takeWhile kind = (front ++ text).takeWhile kind := by
  obtain ⟨quote, -, first, second⟩ := twins.first
  obtain ⟨rest, rfl⟩ := List.head?_eq_some_iff.mp first
  obtain ⟨others, rfl⟩ := List.head?_eq_some_iff.mp second
  cases ends : kind quote with
  | false => rw [takeWhile_append_cons ends, takeWhile_append_cons ends]
  | true =>
      rw [List.takeWhile_append] at within ⊢
      rw [List.takeWhile_append]
      split
      · rename_i whole
        rw [if_pos whole, List.takeWhile_cons, ends] at within
        simp only [List.length_append, if_true, List.length_cons] at within
        omega
      · rfl

/-- A run begins before both or before neither. -/
theorem isEmpty_takeWhile (twins : Twins text twin) (kind : Char → Bool) (front : List Char) :
    ((front ++ twin).takeWhile kind).isEmpty = ((front ++ text).takeWhile kind).isEmpty := by
  rw [isEmpty_takeWhile_eq, isEmpty_takeWhile_eq, twins.head?_append]

theorem lineLength_eq (twins : Twins text twin) {front : List Char}
    (within : lineLength (front ++ text) ≤ front.length) :
    lineLength (front ++ twin) = lineLength (front ++ text) :=
  congrArg List.length (twins.takeWhile_eq _ within)

/-- A comment that ends before the one ends there before the other. -/
theorem commentLength_eq (twins : Twins text twin) {front : List Char}
    (within : commentLength (front ++ text) ≤ front.length) :
    commentLength (front ++ twin) = commentLength (front ++ text) := by
  induction front with
  | nil =>
      obtain ⟨quote, -, first, -⟩ := twins.first
      obtain ⟨rest, rfl⟩ := List.head?_eq_some_iff.mp first
      rw [List.nil_append, commentLength] at within
      split at within <;> simp at within
  | cons c front inductionHypothesis =>
      simp only [List.cons_append, commentLength, twins.head?_append] at within ⊢
      split
      · rfl
      · rename_i goesOn
        rw [if_neg goesOn, List.length_cons] at within
        rw [inductionHypothesis (by omega)]

/-- A regular expression that ends before the one ends there before the other. -/
theorem regexLength_eq (twins : Twins text twin) {front : List Char} {escaped inClass : Bool}
    (within : regexLength escaped inClass (front ++ text) ≤ front.length) :
    regexLength escaped inClass (front ++ twin) =
      regexLength escaped inClass (front ++ text) := by
  induction front generalizing escaped inClass with
  | nil =>
      obtain ⟨quote, isQuote, first, -⟩ := twins.first
      obtain ⟨rest, rfl⟩ := List.head?_eq_some_iff.mp first
      have inLine : ¬(quote = '\n' ∨ quote = '\r') := by
        rcases isQuote with rfl | rfl <;> decide
      rw [List.nil_append, regexLength, if_neg inLine] at within
      split_ifs at within <;> simp at within
  | cons c front inductionHypothesis =>
      simp only [List.cons_append, regexLength] at within ⊢
      split_ifs at within ⊢ with escape line escapes opens closes ends
      · rw [inductionHypothesis (by simpa using within)]
      · rfl
      · rw [inductionHypothesis (by simpa using within)]
      · rw [inductionHypothesis (by simpa using within)]
      · rw [inductionHypothesis (by simpa using within)]
      · rw [twins.takeWhile_eq _ (by simpa using within)]
      · rw [inductionHypothesis (by simpa using within)]

end Twins

/-! ## Literals -/

/-- The literal behind a run of quotes that does open one. -/
def opened? (quote : Char) (following : List Char) : Option Nat :=
  if beginsContent following then bodyLength? quote false following else none

/-- A run of quotes ends before another character. -/
theorem takeWhile_replicate_append {quote : Char} {text : List Char} (count : Nat)
    (single : text.takeWhile (· == quote) = []) :
    (List.replicate count quote ++ text).takeWhile (· == quote) = List.replicate count quote := by
  rw [List.takeWhile_append_of_pos (by simp), single, List.append_nil]

/-- A text goes on with some quotes and with what does not begin with one. -/
theorem exists_single (quote : Char) (text : List Char) :
    ∃ count behind, text = List.replicate count quote ++ behind ∧
      behind.takeWhile (· == quote) = [] := by
  obtain ⟨count, behind, rfl, run⟩ := exists_run quote text
  rw [List.takeWhile_append_of_pos (by simp)] at run
  exact ⟨count, behind, rfl, List.append_right_eq_self.mp run⟩

/-- A value behind one quote. -/
theorem valueString_single {quote : Char} {rest : List Char}
    (single : rest.takeWhile (· == quote) = []) (offset : Nat) :
    valueString quote offset rest =
      match bodyLength? quote false rest with
      | some body =>
        let behind := trailing quote offset (quote :: rest.take (body + 1)) (rest.drop (body + 1))
        (1 + body + behind.1, behind.2)
      | none => (lineLength rest, []) := by
  unfold valueString
  simp only [single, List.length_singleton, Nat.sub_self, List.drop_zero, true_or, if_true,
    List.take_zero, Text.size_nil, Nat.add_zero, List.nil_append]
  rfl

/-- A value behind a run of quotes. -/
theorem valueString_run {quote : Char} {count : Nat} (positive : 0 < count)
    {following : List Char} (single : following.takeWhile (· == quote) = []) (offset : Nat) :
    valueString quote offset (List.replicate count quote ++ following) =
      match opened? quote following with
      | some body =>
        let behind := trailing quote (offset + size (List.replicate count quote))
          (quote :: following.take (body + 1)) (following.drop (body + 1))
        (count + 1 + body + behind.1,
          collapse offset count
            (List.replicate count quote ++ quote :: following.take (body + 1))
            (if count = 1 then .doubledOpeningQuote else .quoteRun) :: behind.2)
      | none =>
        if count = 1 then (1, [])
        else if beginsContent following then
          (count + lineLength following,
            [collapse offset count (List.replicate (count + 1) quote) .quoteRun])
        else
          (count,
            [collapse offset (count - 1) (List.replicate (count + 1) quote) .quoteRun]) := by
  have run := takeWhile_replicate_append count single
  have behindRun : (List.replicate count quote ++ following).drop count = following :=
    List.drop_left' List.length_replicate
  have several : ¬count + 1 = 1 := by omega
  have pair : (count + 1 = 2) = (count = 1) := propext ⟨by omega, by omega⟩
  have fewer : count + 1 - 2 = count - 1 := by omega
  have moved (text : List Char) : quote :: List.replicate count quote ++ text =
      List.replicate count quote ++ quote :: text := by
    simpa using cons_replicate_append quote count text
  unfold valueString opened?
  simp only [run, List.length_cons, List.length_replicate, Nat.add_sub_cancel, behindRun, several,
    false_or, if_false, moved, List.take_left' List.length_replicate,
    List.drop_left' List.length_replicate, pair, fewer]
  cases (if beginsContent following then bodyLength? quote false following else none) <;> rfl

/-- Where nothing is deleted behind a literal, nothing is passed over. -/
theorem trailing_nothing {quote : Char} {offset : Nat} {kept following : List Char}
    (nothing : (trailing quote offset kept following).2 = []) :
    trailing quote offset kept following = (0, []) := by
  unfold trailing at nothing ⊢
  dsimp only at nothing ⊢
  split at nothing
  · cases nothing
  · rename_i still
    exact if_neg still

/-- A literal that closes does so whatever stands behind its closing quote. -/
theorem bodyLength?_front {quote : Char} {escaped : Bool} {front text : List Char} {body : Nat}
    (closes : bodyLength? quote escaped (front ++ text) = some body) (within : body < front.length)
    (other : List Char) : bodyLength? quote escaped (front ++ other) = some body := by
  induction front generalizing escaped body with
  | nil => exact absurd within (Nat.not_lt_zero _)
  | cons c front inductionHypothesis =>
      have goesOn {escaped : Bool}
          (found : (bodyLength? quote escaped (front ++ text)).map (· + 1) = some body) :
          (bodyLength? quote escaped (front ++ other)).map (· + 1) = some body := by
        obtain ⟨inner, answered, rfl⟩ := Option.map_eq_some_iff.mp found
        rw [inductionHypothesis answered (by simpa using within)]
        rfl
      simp only [List.cons_append, bodyLength?] at closes ⊢
      split_ifs at closes ⊢
      · exact goesOn closes
      · exact goesOn closes
      · exact closes
      · exact goesOn closes

/-- A text behind which nothing is escaped. -/
def EndsBare (front : List Char) : Prop := front.getLast? ≠ some '\\'

theorem EndsBare.nil : EndsBare [] := by
  simp [EndsBare]

theorem EndsBare.tail {c : Char} {front : List Char} (bare : EndsBare (c :: front)) :
    EndsBare front := by
  cases front with
  | nil => exact .nil
  | cons d front => simpa [EndsBare] using bare

theorem EndsBare.drop {front : List Char} (bare : EndsBare front) (count : Nat) :
    EndsBare (front.drop count) := by
  induction count generalizing front with
  | zero => exact bare
  | succ count inductionHypothesis =>
      cases front with
      | nil => exact .nil
      | cons c front => exact inductionHypothesis bare.tail

namespace Twins

variable {text twin : List Char}

/-- A literal that does not close with the one behind it does not close with the other. -/
theorem bodyLength?_none (twins : Twins text twin) {quote : Char} {escaped : Bool}
    {front : List Char} (bare : EndsBare front) (still : front = [] → escaped = false)
    (unclosed : bodyLength? quote escaped (front ++ text) = none) :
    bodyLength? quote escaped (front ++ twin) = none := by
  induction front generalizing escaped with
  | nil =>
      rw [still rfl] at unclosed ⊢
      exact twins.unclosed quote unclosed
  | cons c front inductionHypothesis =>
      have goesOn {escaped : Bool} (still : front = [] → escaped = false)
          (found : (bodyLength? quote escaped (front ++ text)).map (· + 1) = none) :
          (bodyLength? quote escaped (front ++ twin)).map (· + 1) = none := by
        rw [Option.map_eq_none_iff] at found ⊢
        exact inductionHypothesis bare.tail still found
      simp only [List.cons_append, bodyLength?] at unclosed ⊢
      split_ifs at unclosed ⊢ with isEscaped escapes
      · exact goesOn (fun _ => rfl) unclosed
      · refine goesOn (fun last => ?_) unclosed
        subst last escapes
        exact absurd rfl bare
      · rfl
      · exact goesOn (fun _ => rfl) unclosed

/-- Quotes behind a literal end a value before the one if they do before the other. -/
theorem endsValue_eq (twins : Twins text twin) (quote : Char) (front : List Char) :
    endsValue (((front ++ twin).dropWhile (· == quote)).dropWhile
        fun c => c == ' ' || c == '\t') =
      endsValue (((front ++ text).dropWhile (· == quote)).dropWhile
        fun c => c == ' ' || c == '\t') := by
  have blanks (front : List Char) :
      endsValue ((front ++ twin).dropWhile fun c => c == ' ' || c == '\t') =
        endsValue ((front ++ text).dropWhile fun c => c == ' ' || c == '\t') := by
    obtain ⟨opening, isQuote, first, second⟩ := twins.first
    obtain ⟨rest, rfl⟩ := List.head?_eq_some_iff.mp first
    obtain ⟨others, rfl⟩ := List.head?_eq_some_iff.mp second
    have noBlank : (opening == ' ' || opening == '\t') = false := by
      rcases isQuote with rfl | rfl <;> decide
    rw [List.dropWhile_append, List.dropWhile_append]
    split
    · rw [List.dropWhile_cons, List.dropWhile_cons, noBlank]
      rfl
    · rename_i goesOn
      cases left : front.dropWhile fun c => c == ' ' || c == '\t' with
      | nil => simp [left] at goesOn
      | cons c left => rfl
  rw [List.dropWhile_append, List.dropWhile_append]
  split
  · rw [twins.continues, twins.twinContinues]
  · exact blanks _

/-- Where nothing is deleted behind a literal before the one, nothing is before the other. -/
theorem trailing_eq (twins : Twins text twin) {quote : Char} {offset : Nat}
    {kept front : List Char} (nothing : (trailing quote offset kept (front ++ text)).2 = []) :
    trailing quote offset kept (front ++ twin) = (0, []) := by
  have stray := twins.isEmpty_takeWhile (· == quote) front
  have ends := twins.endsValue_eq quote front
  unfold trailing at nothing ⊢
  simp only [drop_takeWhile_length, stray, ends] at nothing ⊢
  split at nothing
  · cases nothing
  · rename_i still
    exact if_neg still

/-- Quotes that open no literal before the one open none before the other. -/
theorem opened?_none (twins : Twins text twin) {quote : Char} {front : List Char}
    (bare : EndsBare front) (unopened : opened? quote (front ++ text) = none) :
    opened? quote (front ++ twin) = none := by
  have same : beginsContent (front ++ twin) = beginsContent (front ++ text) := by
    simp only [beginsContent, endsValue, twins.head?_append]
  unfold opened? at unopened ⊢
  rw [same]
  split at unopened
  · rename_i begins
    rw [if_pos begins]
    exact twins.bodyLength?_none bare (fun _ => rfl) unopened
  · rename_i begins
    exact if_neg begins

/-- A value that ends before the one without a deletion does so before the other. -/
theorem valueString_eq (twins : Twins text twin) {quote : Char} {offset : Nat}
    {front : List Char} (bare : EndsBare front)
    (within : (valueString quote offset (front ++ text)).1 ≤ front.length)
    (nothing : (valueString quote offset (front ++ text)).2 = []) :
    valueString quote offset (front ++ twin) = valueString quote offset (front ++ text) := by
  obtain ⟨count, behind, joined, single⟩ := exists_single quote (front ++ text)
  obtain rfl | positive := Nat.eq_zero_or_pos count
  · -- One quote: a literal that closes, or the rest of a line.
    obtain rfl : front ++ text = behind := joined
    have alone := twins.isEmpty_takeWhile (· == quote) front
    rw [single] at alone
    rw [valueString_single single] at within nothing ⊢
    rw [valueString_single (List.isEmpty_iff.mp alone)]
    cases closes : bodyLength? quote false (front ++ text) with
    | none =>
        simp only [closes] at within ⊢
        rw [twins.bodyLength?_none bare (fun _ => rfl) closes, twins.lineLength_eq within]
    | some body =>
        simp only [closes] at within nothing ⊢
        have inside : body + 1 ≤ front.length := by omega
        rw [List.drop_append_of_le_length inside, List.take_append_of_le_length inside] at nothing
        simp only [bodyLength?_front closes inside, List.take_append_of_le_length inside,
          List.drop_append_of_le_length inside, trailing_nothing nothing,
          twins.trailing_eq nothing]
  · -- Two quotes: an empty literal. Of more than two some would be deleted.
    rw [joined, valueString_run positive single] at within nothing ⊢
    cases opens : opened? quote behind with
    | some body => simp [opens] at nothing
    | none =>
        have pair : count = 1 := by
          by_contra several
          simp only [opens, if_neg several] at nothing
          split at nothing <;> simp at nothing
        subst pair
        simp only [opens, if_true] at within ⊢
        cases front with
        | nil => simp at within
        | cons c front =>
            obtain ⟨rfl, rfl⟩ : c = quote ∧ front ++ text = behind := by simpa using joined
            have alone := twins.isEmpty_takeWhile (· == c) front
            rw [single] at alone
            have answer := valueString_run (Nat.one_pos) (List.isEmpty_iff.mp alone) offset
            rw [twins.opened?_none bare.tail opens] at answer
            exact answer

theorem plainLength_eq (twins : Twins text twin) {quote : Char} {front : List Char}
    (bare : EndsBare front) (within : plainLength quote (front ++ text) ≤ front.length) :
    plainLength quote (front ++ twin) = plainLength quote (front ++ text) := by
  unfold plainLength at within ⊢
  cases closes : bodyLength? quote false (front ++ text) with
  | none =>
      simp only [closes] at within ⊢
      rw [twins.bodyLength?_none bare (fun _ => rfl) closes, twins.lineLength_eq within]
  | some body =>
      simp only [closes] at within ⊢
      rw [bodyLength?_front closes within]

end Twins

/-! ## Steps -/

/-- A step that ends before a text of some length, without a deletion, is the other one too. -/
def Follows (length : Nat) (found other : Step) : Prop :=
  found.behind ≤ length → found.deletions = [] → other = found

theorem Follows.refl (length : Nat) (found : Step) : Follows length found found :=
  fun _ _ => rfl

theorem Follows.ite {length : Nat} {condition : Prop} [Decidable condition]
    {found found' other other' : Step} (yes : condition → Follows length found other)
    (no : ¬condition → Follows length found' other') :
    Follows length (if condition then found else found') (if condition then other else other') := by
  split
  · exact yes ‹_›
  · exact no ‹_›

namespace Twins

variable {text twin : List Char}

theorem templateStep_eq (twins : Twins text twin) (contexts : List Context) (last : Last)
    (c : Char) (front : List Char) :
    templateStep contexts last c (front ++ twin) = templateStep contexts last c (front ++ text) := by
  have something : min 1 (front ++ twin).length = min 1 (front ++ text).length := by
    have same := twins.head?_append front
    cases one : front ++ text <;> cases other : front ++ twin <;> simp_all
  simp only [templateStep, twins.head?_append, something]

/-- A step in code that ends before the one without a deletion is that before the other. -/
theorem codeStep_follows (twins : Twins text twin) (depth : Nat) (outer : List Context)
    (last : Last) (offset : Nat) {c : Char} {front : List Char} (bare : EndsBare (c :: front)) :
    Follows front.length (codeStep depth outer last offset c (front ++ text))
      (codeStep depth outer last offset c (front ++ twin)) := by
  unfold codeStep
  dsimp only
  rw [twins.head?_append]
  refine .ite (fun _ => .refl _ _) fun _ => .ite (fun _ => ?lineComment) fun _ =>
    .ite (fun comment => ?comment) fun _ => .ite (fun _ => ?regex) fun _ =>
    .ite (fun _ => .refl _ _) fun _ =>
    .ite (fun _ => .ite (fun _ => ?value) fun _ => ?plain) fun _ =>
    .ite (fun _ => .refl _ _) fun _ => .ite (fun _ => .refl _ _) fun _ =>
    .ite (fun _ => ?word) fun _ => .refl _ _
  case lineComment =>
    intro within _
    rw [twins.lineLength_eq within]
  case comment =>
    -- The comment begins before the one, as no quote is a star.
    intro within _
    cases front with
    | nil => exact absurd comment.2 (twins.head?_ne (by decide))
    | cons d front =>
        simp only [List.cons_append, List.drop_succ_cons, List.drop_zero, List.length_cons]
          at within ⊢
        rw [twins.commentLength_eq (by omega)]
  case regex =>
    intro within _
    rw [twins.regexLength_eq within]
  case value =>
    intro within nothing
    rw [twins.valueString_eq bare.tail within nothing]
  case plain =>
    intro within _
    rw [twins.plainLength_eq bare.tail within]
  case word =>
    intro within _
    rw [List.length_cons, Nat.add_sub_cancel] at within
    rw [twins.takeWhile_eq _ within]

/-- A step that ends before the one without a deletion does the same before the other. -/
theorem step_eq (twins : Twins text twin) {contexts : List Context} {last : Last} {offset : Nat}
    {c : Char} {front : List Char} (bare : EndsBare (c :: front))
    (within : (step contexts last offset c (front ++ text)).behind ≤ front.length)
    (nothing : (step contexts last offset c (front ++ text)).deletions = []) :
    step contexts last offset c (front ++ twin) = step contexts last offset c (front ++ text) := by
  rcases contexts with - | ⟨depth | -, outer⟩
  · exact twins.codeStep_follows 0 [] last offset bare within nothing
  · exact twins.codeStep_follows _ outer last offset bare within nothing
  · exact twins.templateStep_eq _ last c front

/-- Where a pass comes to the one without a deletion, it comes to the other in the same way. -/
theorem reaches (twins : Twins text twin) {place later : Place} {front : List Char}
    (reaches : Reaches place later) (before : place.text = front ++ text)
    (there : later.text = text) (bare : EndsBare front) (nothing : place.deletions = []) :
    later.deletions = [] ∧
      Place.deletions ⟨place.contexts, place.last, place.offset, front ++ twin⟩ =
        Place.deletions ⟨later.contexts, later.last, later.offset, twin⟩ := by
  induction reaches generalizing front with
  | here =>
      obtain rfl : front = [] := by
        rw [there] at before
        exact List.self_eq_append_left.mp before
      exact ⟨nothing, rfl⟩
  | @step contexts last offset c rest place later inductionHypothesis =>
      obtain ⟨inner, rfl, rfl, within⟩ := later.exists_front there before
      rw [deletions_cons, List.append_eq_nil_iff] at nothing
      have same := twins.step_eq bare within nothing.1
      obtain ⟨settled, later⟩ := inductionHypothesis (List.drop_append_of_le_length within)
        there (bare.tail.drop _) nothing.2
      refine ⟨settled, later ▸ ?_⟩
      rw [List.cons_append, deletions_cons, same, nothing.1, List.nil_append, Step.next,
        Step.next, List.drop_append_of_le_length within,
        List.take_append_of_le_length within, List.take_append_of_le_length within]

end Twins

/-! ## Where values stand -/

/-- A place where a string literal would be a value. -/
structure Place.AtValue (place : Place) : Prop where
  inCode : place.contexts.head? ≠ some .template
  beforeValue : place.last.beforeValue = true

/-- A comment that ends does so at a slash. -/
theorem commentLength_ends (text : List Char) :
    text.drop (commentLength text) = [] ∨
      (text.take (commentLength text)).getLast? = some '/' := by
  induction text with
  | nil => exact .inl rfl
  | cons c rest inductionHypothesis =>
      unfold commentLength
      split
      · rename_i closes
        obtain ⟨behind, rfl⟩ := List.head?_eq_some_iff.mp closes.2
        exact .inr rfl
      · rw [List.drop_succ_cons, List.take_succ_cons, List.getLast?_cons]
        refine inductionHypothesis.imp_right fun ends => ?_
        rw [ends]
        rfl

/-- Behind a step nothing is escaped where the literal of a value begins. -/
def Settles (c : Char) (rest : List Char) (found : Step) : Prop :=
  ∀ quote behind, IsQuote quote → rest.drop found.behind = quote :: behind →
    found.contexts.head? ≠ some .template → found.last.beforeValue = true →
    EndsBare (c :: rest.take found.behind)

theorem Settles.of_ne {c : Char} (other : c ≠ '\\') (rest : List Char) (contexts : List Context)
    (last : Last) : Settles c rest ⟨0, contexts, last, []⟩ := by
  intro _ _ _ _ _ _
  simpa [EndsBare] using other

theorem settles_codeStep (depth : Nat) (outer : List Context) (last : Last) (offset : Nat)
    (c : Char) (rest : List Char) :
    Settles c rest (codeStep depth outer last offset c rest) := by
  unfold codeStep
  dsimp only
  split_ifs with blank lineComment comment regex template quotes value opens closes outermost word
  · exact .of_ne (by rintro rfl; simp at blank) _ _ _
  · -- Behind a line comment its line ends.
    intro quote behind isQuote there _ _
    dsimp only [lineLength] at there
    rw [drop_takeWhile_length] at there
    have ends := List.head?_dropWhile_not (· != '\n') rest
    rw [there] at ends
    rcases isQuote with rfl | rfl <;> simp at ends
  · intro quote behind _ there _ _
    obtain ⟨inner, rfl⟩ := List.head?_eq_some_iff.mp comment.2
    simp only [List.drop_succ_cons, List.drop_zero, List.take_succ_cons] at there ⊢
    have ends := (commentLength_ends inner).resolve_left (by simp [there])
    simp [EndsBare, List.getLast?_cons, ends]
  · intro _ _ _ _ _ value
    cases value
  · intro _ _ _ _ inCode _
    exact absurd rfl inCode
  · intro _ _ _ _ _ value
    cases value
  · intro _ _ _ _ _ value
    cases value
  · exact .of_ne (by rintro rfl; simp at opens) _ _ _
  · cases depth <;> exact .of_ne (by rintro rfl; simp at closes) _ _ _
  · cases depth <;> exact .of_ne (by rintro rfl; simp at closes) _ _ _
  · -- A word ends with a character of a word.
    intro _ _ _ _ _ _ ends
    rw [List.length_cons, Nat.add_sub_cancel, take_takeWhile_length] at ends
    rcases List.mem_cons.mp (List.mem_of_getLast? ends) with rfl | member
    · exact absurd word (by decide)
    · exact absurd (List.all_eq_true.mp List.all_takeWhile _ member) (by decide)
  · intro quote behind isQuote there inCode value
    refine Settles.of_ne ?_ rest _ _ quote behind isQuote there inCode value
    rintro rfl
    cases value

theorem settles_templateStep (contexts : List Context) (last : Last) (c : Char)
    (rest : List Char) :
    Settles c rest (templateStep (.template :: contexts) last c rest) := by
  unfold templateStep
  split_ifs with escape closes opens
  · intro _ _ _ _ inCode _
    exact absurd rfl inCode
  · exact .of_ne escape _ _ _
  · intro _ _ _ _ _ _
    obtain ⟨behind, rfl⟩ := List.head?_eq_some_iff.mp opens.2
    simp [EndsBare]
  · intro _ _ _ _ inCode _
    exact absurd rfl inCode

theorem settles_step (contexts : List Context) (last : Last) (offset : Nat) (c : Char)
    (rest : List Char) : Settles c rest (step contexts last offset c rest) := by
  rcases contexts with - | ⟨depth | -, outer⟩
  · exact settles_codeStep 0 [] last offset c rest
  · exact settles_codeStep _ outer last offset c rest
  · exact settles_templateStep outer last c rest

theorem EndsBare.append {front behind : List Char} (bare : EndsBare behind) (some : behind ≠ []) :
    EndsBare (front ++ behind) := by
  rwa [EndsBare, List.getLast?_append_of_ne_nil _ some]

/-- Where a pass over a text comes to the literal of a value, nothing is escaped. -/
theorem Reaches.endsBare {place later : Place} {front behind : List Char} {quote : Char}
    (reaches : Reaches place later) (isQuote : IsQuote quote)
    (before : place.text = front ++ quote :: behind) (there : later.text = quote :: behind)
    (value : later.AtValue) : EndsBare front := by
  induction reaches generalizing front with
  | here =>
      obtain rfl : front = [] := by
        rw [there] at before
        exact List.self_eq_append_left.mp before
      exact .nil
  | @step contexts last offset c rest place later inductionHypothesis =>
      obtain ⟨inner, rfl, rfl, within⟩ := later.exists_front there before
      have next : (inner ++ quote :: behind).drop
          (Repair.step contexts last offset c (inner ++ quote :: behind)).behind =
          inner.drop (Repair.step contexts last offset c (inner ++ quote :: behind)).behind ++
            quote :: behind :=
        List.drop_append_of_le_length within
      by_cases whole : inner.drop
          (Repair.step contexts last offset c (inner ++ quote :: behind)).behind = []
      · -- The step ends where the literal begins.
        rw [whole, List.nil_append] at next
        obtain rfl := later.eq_of_length (by rw [there, Step.next, next])
        have bare := settles_step contexts last offset c (inner ++ quote :: behind) _ _ isQuote next
          value.inCode value.beforeValue
        rw [List.take_append_of_le_length within] at bare
        rwa [List.take_of_length_le (List.drop_eq_nil_iff.mp whole)] at bare
      · have bare := inductionHypothesis next there value
        rw [← List.take_append_drop (Repair.step contexts last offset c
          (inner ++ quote :: behind)).behind inner, ← List.cons_append]
        exact bare.append whole

end StopMotion.Repair
