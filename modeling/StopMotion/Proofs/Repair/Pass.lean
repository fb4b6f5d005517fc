import StopMotion.Proofs.Repair.Thinning
import StopMotion.Repair.Quotes

/-!
# A pass over a text

A pass is a run of steps. Each goes on by a character at least and stays in the text, so a pass
ends; and what a step deletes are quotes of runs within the stretch that it passes over, so a pass
thins runs of its text.
-/

namespace StopMotion.Repair

open Text (size)

/-! ## Lengths of what is passed over -/

theorem commentLength_le (text : List Char) : commentLength text ≤ text.length := by
  induction text with
  | nil => exact Nat.le_refl 0
  | cons c rest inductionHypothesis =>
      unfold commentLength
      split
      · rename_i closes
        obtain ⟨behind, rfl⟩ := List.head?_eq_some_iff.mp closes.2
        simp
      · simpa using inductionHypothesis

theorem regexLength_le (escaped inClass : Bool) (text : List Char) :
    regexLength escaped inClass text ≤ text.length := by
  induction text generalizing escaped inClass with
  | nil => exact Nat.le_refl 0
  | cons c rest inductionHypothesis =>
      have goesOn (escaped inClass : Bool) :
          regexLength escaped inClass rest + 1 ≤ (c :: rest).length := by
        simpa using inductionHypothesis escaped inClass
      have flags : (rest.takeWhile Char.isAlphanum).length ≤ rest.length :=
        (List.takeWhile_prefix _).length_le
      unfold regexLength
      split_ifs
      · exact goesOn false inClass
      · exact Nat.zero_le _
      · exact goesOn true inClass
      · exact goesOn false true
      · exact goesOn false false
      · simpa using flags
      · exact goesOn false inClass

theorem lineLength_le (text : List Char) : lineLength text ≤ text.length :=
  (List.takeWhile_prefix _).length_le

/-- The body of a literal that closes stands before a closing quote. -/
theorem exists_of_bodyLength? {quote : Char} {escaped : Bool} {text : List Char} {body : Nat}
    (found : bodyLength? quote escaped text = some body) :
    ∃ content behind, text = content ++ quote :: behind ∧ content.length = body := by
  induction text generalizing escaped body with
  | nil => cases found
  | cons c rest inductionHypothesis =>
      have goesOn {escaped : Bool}
          (found : (bodyLength? quote escaped rest).map (· + 1) = some body) :
          ∃ content behind, c :: rest = content ++ quote :: behind ∧ content.length = body := by
        obtain ⟨inner, answered, rfl⟩ := Option.map_eq_some_iff.mp found
        obtain ⟨content, behind, joined, length⟩ := inductionHypothesis answered
        exact ⟨c :: content, behind, by rw [joined, List.cons_append], by rw [List.length_cons, length]⟩
      unfold bodyLength? at found
      split_ifs at found with _ _ _ closes
      · exact goesOn found
      · exact goesOn found
      · cases found
        exact ⟨[], rest, by rw [closes]; rfl, rfl⟩
      · exact goesOn found

theorem plainLength_le (quote : Char) (text : List Char) :
    plainLength quote text ≤ text.length := by
  unfold plainLength
  split
  · rename_i body found
    obtain ⟨content, behind, rfl, rfl⟩ := exists_of_bodyLength? found
    simp
  · exact lineLength_le text

/-! ## Runs of a quote -/

/-- A text goes on with some quotes and what stands behind them. -/
theorem exists_run (quote : Char) (text : List Char) :
    ∃ count behind, text = List.replicate count quote ++ behind ∧
      text.takeWhile (· == quote) = List.replicate count quote := by
  have same : text.takeWhile (· == quote) =
      List.replicate (text.takeWhile (· == quote)).length quote :=
    List.eq_replicate_of_mem fun c member => by
      simpa using List.all_eq_true.mp List.all_takeWhile c member
  refine ⟨_, text.dropWhile (· == quote), ?_, same⟩
  rw [← same, List.takeWhile_append_dropWhile]

/-- Deleting the first quotes of a literal is told by its fix. -/
theorem exists_collapse {quote : Char} (isQuote : IsQuote quote) (offset count : Nat)
    (behind : List Char) (rule : Rule) :
    ∃ fix : Fix, fix.saving = count ∧
      collapse offset count (List.replicate count quote ++ behind) rule =
        ⟨⟨offset, offset + count⟩, fix⟩ := by
  have cut : (List.replicate count quote ++ behind).take count = List.replicate count quote :=
    List.take_left' List.length_replicate
  have kept : (List.replicate count quote ++ behind).drop count = behind :=
    List.drop_left' List.length_replicate
  refine ⟨(collapse offset count (List.replicate count quote ++ behind) rule).fix, ?_, ?_⟩
  · simp only [collapse, Fix.saving, kept, String.toList_ofList, Text.size_append,
      isQuote.size_replicate]
    omega
  · simp only [collapse, cut, isQuote.size_replicate]

/-! ## String literals -/

/-- The deletions thin the stretch of a character and some characters behind it. -/
def Fits (offset : Nat) (c : Char) (rest : List Char) (behind : Nat)
    (deletions : List Deletion) : Prop :=
  behind ≤ rest.length ∧ ∃ result, Thins offset (c :: rest.take behind) deletions result

theorem Fits.of_thins {offset behind : Nat} {c : Char} {rest front result : List Char}
    {deletions : List Deletion} (back : List Char) (joined : rest = front ++ back)
    (length : front.length = behind) (thins : Thins offset (c :: front) deletions result) :
    Fits offset c rest behind deletions := by
  subst joined
  refine ⟨by simp [← length], result, ?_⟩
  rwa [List.take_left' length]

/-- Where nothing is deleted it is enough to stay in the text. -/
theorem Fits.of_le {offset behind : Nat} {c : Char} {rest : List Char}
    (within : behind ≤ rest.length) : Fits offset c rest behind [] :=
  ⟨within, _, .refl offset _⟩

variable {quote : Char}

/-- Behind a closing quote only quotes that follow it are deleted. -/
theorem thins_trailing (isQuote : IsQuote quote) (offset : Nat) (content following : List Char) :
    (trailing quote offset (content ++ [quote]) following).1 ≤ following.length ∧
      Thins (offset + size content)
        (quote :: following.take (trailing quote offset (content ++ [quote]) following).1)
        (trailing quote offset (content ++ [quote]) following).2 [quote] := by
  obtain ⟨count, behind, rfl, strays⟩ := exists_run quote following
  unfold trailing
  simp only [strays, List.length_replicate]
  split
  · rename_i ends
    have positive : 0 < count := by
      cases count with
      | zero => simp at ends
      | succ count => omega
    have kept : size (content ++ [quote]) = size content + 1 := by
      rw [Text.size_append, Text.size_cons, isQuote.utf8Size, Text.size_nil]
    refine ⟨by simp, ?_⟩
    rw [List.take_left' List.length_replicate, ← List.replicate_succ, List.replicate_succ',
      isQuote.size_replicate, kept]
    refine .thin isQuote positive (.inr (by omega)) ?_ .done
    simp only [Fix.saving, String.toList_ofList, Text.size_append, isQuote.size_replicate]
    omega
  · exact ⟨Nat.zero_le _, .keep .done⟩

/-- Of a run of quotes that opens a literal the last one is left. -/
theorem thins_opening (isQuote : IsQuote quote) {offset count : Nat} {text result : List Char}
    {deletions : List Deletion} (behind : List Char) (rule : Rule)
    (thins : Thins (offset + count + 1) text deletions result) :
    Thins offset (List.replicate count quote ++ quote :: text)
      ((if count + 1 = 1 then []
        else [collapse offset count (List.replicate count quote ++ behind) rule]) ++ deletions)
      (quote :: result) := by
  split
  · rename_i single
    obtain rfl : count = 0 := by omega
    refine .keep ?_
    rwa [isQuote.utf8Size]
  · obtain ⟨fix, told, deletion⟩ := exists_collapse isQuote offset count behind rule
    rw [deletion]
    exact .thin isQuote (by omega) (.inl rfl) told thins

/-- A literal that closes is thinned at its quotes. -/
theorem fits_closed (isQuote : IsQuote quote) (offset count : Nat) (content after : List Char)
    (rule : Rule) :
    Fits offset quote (List.replicate count quote ++ (content ++ quote :: after))
      (count + 1 + content.length +
        (trailing quote (offset + count) (quote :: content ++ [quote]) after).1)
      ((if count + 1 = 1 then []
        else [collapse offset count
          (List.replicate count quote ++ (quote :: content ++ [quote])) rule]) ++
        (trailing quote (offset + count) (quote :: content ++ [quote]) after).2) := by
  obtain ⟨within, closing⟩ := thins_trailing isQuote (offset + count) (quote :: content) after
  generalize trailing quote (offset + count) (quote :: content ++ [quote]) after = answer
    at within closing ⊢
  rw [Text.size_cons, isQuote.utf8Size, ← Nat.add_assoc] at closing
  have body := (Thins.refl (offset + count + 1) content).append closing
  have whole := thins_opening isQuote (quote :: content ++ [quote]) rule body
  rw [List.nil_append, ← cons_replicate_append] at whole
  refine .of_thins (after.drop answer.1) ?_ ?_ whole
  · rw [List.append_assoc, List.append_assoc, List.cons_append, List.take_append_drop]
  · simp only [List.length_append, List.length_replicate, List.length_cons, List.length_take]
    omega

/-- Of a run that opens a literal which does not close on its line the last quote is left. -/
theorem fits_unclosed (isQuote : IsQuote quote) (offset : Nat) {count : Nat} (positive : 0 < count)
    (following : List Char) :
    Fits offset quote (List.replicate count quote ++ following) (count + lineLength following)
      [collapse offset count (List.replicate count quote ++ [quote]) .quoteRun] := by
  obtain ⟨fix, told, deletion⟩ := exists_collapse isQuote offset count [quote] .quoteRun
  have whole := Thins.thin isQuote positive (.inl rfl) told
    (Thins.refl (offset + count + 1) (following.take (lineLength following)))
  rw [deletion]
  rw [← cons_replicate_append] at whole
  apply Fits.of_thins (following.drop (lineLength following)) _ _ whole
  · rw [List.append_assoc, List.take_append_drop]
  · have within := lineLength_le following
    simp only [List.length_append, List.length_replicate, List.length_take]
    omega

/-- Of a run with nothing to quote behind it two quotes are left, an empty literal. -/
theorem fits_emptied (isQuote : IsQuote quote) (offset : Nat) {count : Nat} (positive : 0 < count)
    (following : List Char) :
    Fits offset quote (List.replicate (count + 1) quote ++ following) (count + 1)
      [collapse offset count (List.replicate (count + 1) quote ++ [quote]) .quoteRun] := by
  obtain ⟨fix, told, deletion⟩ := exists_collapse isQuote offset count [quote, quote] .quoteRun
  have whole := Thins.thin isQuote positive (.inl rfl) told
    (Thins.refl (offset + count + 1) [quote])
  simp only [List.replicate_succ', List.append_assoc, List.singleton_append]
  rw [deletion]
  rw [← cons_replicate_append] at whole
  apply Fits.of_thins following _ _ whole
  · simp
  · simp

/-- A string literal where a value begins is thinned at its quotes. -/
theorem fits_valueString (isQuote : IsQuote quote) (offset : Nat) (rest : List Char) :
    Fits offset quote rest (valueString quote offset rest).1
      (valueString quote offset rest).2 := by
  obtain ⟨count, following, rfl, quotes⟩ := exists_run quote rest
  have behindRun : (List.replicate count quote ++ following).drop count = following :=
    List.drop_left' List.length_replicate
  have run : quote :: List.replicate count quote = List.replicate count quote ++ [quote] := by
    simpa using cons_replicate_append quote count []
  unfold valueString
  simp only [quotes, List.length_cons, List.length_replicate, Nat.add_sub_cancel, behindRun]
  split
  · rename_i body found
    have closes : bodyLength? quote false following = some body := by
      split at found
      · exact found
      · cases found
    obtain ⟨content, after, rfl, rfl⟩ := exists_of_bodyLength? closes
    have literal : quote :: List.replicate count quote ++
        (content ++ quote :: after).take (content.length + 1) =
          List.replicate count quote ++ (quote :: content ++ [quote]) := by
      rw [run, List.take_append, List.take_of_length_le (by omega)]
      simp
    have behind : (content ++ quote :: after).drop (content.length + 1) = after := by
      simp
    rw [literal, behind, List.take_left' List.length_replicate,
      List.drop_left' List.length_replicate, isQuote.size_replicate]
    exact fits_closed isQuote offset count content after _
  · split_ifs with single pair opens
    · exact .of_le (lineLength_le _)
    · refine .of_le ?_
      simp
      omega
    · rw [run]
      exact fits_unclosed isQuote offset (by omega) following
    · obtain ⟨fewer, rfl⟩ : ∃ fewer, count = fewer + 1 := ⟨count - 1, by omega⟩
      rw [run, show fewer + 1 + 1 - 2 = fewer by omega]
      exact fits_emptied isQuote offset (by omega) following

/-! ## Steps -/

/-- A step in template text deletes nothing. -/
theorem fits_templateStep (contexts : List Context) (last : Last) (offset : Nat) (c : Char)
    (rest : List Char) :
    Fits offset c rest (templateStep contexts last c rest).behind
      (templateStep contexts last c rest).deletions := by
  unfold templateStep
  split_ifs with escape closes opens
  · exact .of_le (Nat.min_le_right 1 rest.length)
  · exact .of_le (Nat.zero_le _)
  · obtain ⟨behind, rfl⟩ := List.head?_eq_some_iff.mp opens.2
    exact .of_le (by simp)
  · exact .of_le (Nat.zero_le _)

/-- A step in code deletes nothing but quotes of a value. -/
theorem fits_codeStep (depth : Nat) (outer : List Context) (last : Last) (offset : Nat) (c : Char)
    (rest : List Char) :
    Fits offset c rest (codeStep depth outer last offset c rest).behind
      (codeStep depth outer last offset c rest).deletions := by
  unfold codeStep
  dsimp only
  split_ifs with blank lineComment comment regex template quotes value opens closes outermost word
  · exact .of_le (Nat.zero_le _)
  · exact .of_le (lineLength_le rest)
  · obtain ⟨behind, rfl⟩ := List.head?_eq_some_iff.mp comment.2
    exact .of_le (by simpa using commentLength_le behind)
  · exact .of_le (regexLength_le false false rest)
  · exact .of_le (Nat.zero_le _)
  · exact fits_valueString quotes offset rest
  · exact .of_le (plainLength_le c rest)
  · exact .of_le (Nat.zero_le _)
  · cases depth <;> exact .of_le (Nat.zero_le _)
  · cases depth <;> exact .of_le (Nat.zero_le _)
  · have within : (rest.takeWhile isWordChar).length ≤ rest.length :=
      (List.takeWhile_prefix _).length_le
    exact .of_le (by simpa using within)
  · exact .of_le (Nat.zero_le _)

/-- Every step stays in the text, and what it deletes it passes over. -/
theorem fits_step (contexts : List Context) (last : Last) (offset : Nat) (c : Char)
    (rest : List Char) :
    Fits offset c rest (step contexts last offset c rest).behind
      (step contexts last offset c rest).deletions := by
  unfold step
  split
  · exact fits_templateStep _ last offset c rest
  · exact fits_codeStep _ _ last offset c rest
  · exact fits_codeStep 0 [] last offset c rest

/-! ## Passes -/

/-- A run of steps over a text: each begins where the one before it ended, and the run ends with
the text. -/
inductive Steps : List Context → Last → Nat → List Char → List Deletion → Prop where
  | ended {contexts last offset} : Steps contexts last offset [] []
  | step {contexts last offset c rest deletions} {found : Step}
      (here : step contexts last offset c rest = found) (within : found.behind ≤ rest.length)
      (later : Steps found.contexts found.last (offset + size (c :: rest.take found.behind))
        (rest.drop found.behind) deletions) :
      Steps contexts last offset (c :: rest) (found.deletions ++ deletions)

/-- What a step passes over is skipped. -/
theorem scan_skip (skip : Nat) (contexts : List Context) (last : Last) (offset : Nat)
    (text : List Char) :
    scan skip contexts last offset text =
      scan 0 contexts last (offset + size (text.take skip)) (text.drop skip) := by
  induction skip generalizing offset text with
  | zero => rfl
  | succ skip inductionHypothesis =>
      cases text with
      | nil => rfl
      | cons c rest =>
          rw [scan, inductionHypothesis]
          simp only [List.take_succ_cons, List.drop_succ_cons, Text.size_cons, Nat.add_assoc]

/-- A pass is a run of steps. -/
theorem steps_scan (contexts : List Context) (last : Last) (offset : Nat) (text : List Char) :
    Steps contexts last offset text (scan 0 contexts last offset text) := by
  induction bytes : text.length using Nat.strong_induction_on
    generalizing contexts last offset text with
  | _ length inductionHypothesis =>
      cases text with
      | nil => exact .ended
      | cons c rest =>
          have within := (fits_step contexts last offset c rest).1
          rw [scan, scan_skip]
          rw [Nat.add_assoc, ← Text.size_cons]
          refine .step rfl within (inductionHypothesis _ ?_ _ _ _ _ rfl)
          rw [← bytes, List.length_drop, List.length_cons]
          omega

/-- The deletions of a run of steps thin runs of quotes. -/
theorem Steps.thins {contexts : List Context} {last : Last} {offset : Nat} {text : List Char}
    {deletions : List Deletion} (steps : Steps contexts last offset text deletions) :
    ∃ result, Thins offset text deletions result := by
  induction steps with
  | ended => exact ⟨[], .done⟩
  | @step contexts last offset c rest deletions found here within later inductionHypothesis =>
      subst here
      obtain ⟨_, first, thinsFirst⟩ := fits_step contexts last offset c rest
      obtain ⟨second, thinsSecond⟩ := inductionHypothesis
      have whole := thinsFirst.append thinsSecond
      rw [List.cons_append, List.take_append_drop] at whole
      exact ⟨first ++ second, whole⟩

/-- A pass thins runs of quotes, and applying its deletions leaves the rest. -/
theorem thins_pass (text : List Char) : Thins 0 text (pass text) (apply (pass text) text) := by
  obtain ⟨result, thins⟩ := (steps_scan [.code 0] .start 0 text).thins
  have left : apply (pass text) text = result := thins.applyFrom_eq
  rw [left]
  exact thins

end StopMotion.Repair
