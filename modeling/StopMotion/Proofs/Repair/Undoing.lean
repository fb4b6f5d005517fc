import StopMotion.Proofs.Repair.Twin

/-!
# Quotes that were put in

Repair takes back what it is meant for: more quotes before a literal, or more behind one that ends
its value. The text before the literal is passed over as it was, since the damaged text is a twin
of the whole one there; the literal is thinned to what it was; and behind it the pass finds
nothing, as before.
-/

namespace StopMotion.Repair

open Text (size)

/-! ## Offsets -/

/-- Where nothing is deleted behind a literal, nothing is where it stands elsewhere. -/
theorem trailing_offset {quote : Char} {offset : Nat} {kept following : List Char}
    (nothing : (trailing quote offset kept following).2 = []) (offset' : Nat) :
    trailing quote offset' kept following = (0, []) := by
  apply trailing_nothing
  unfold trailing at nothing ⊢
  dsimp only at nothing ⊢
  split at nothing
  · cases nothing
  · rename_i still
    rw [if_neg still]

theorem valueString_offset {quote : Char} {offset : Nat} {rest : List Char}
    (nothing : (valueString quote offset rest).2 = []) (offset' : Nat) :
    valueString quote offset' rest = valueString quote offset rest := by
  obtain ⟨count, behind, rfl, single⟩ := exists_single quote rest
  obtain rfl | positive := Nat.eq_zero_or_pos count
  · rw [List.replicate_zero, List.nil_append, valueString_single single] at nothing ⊢
    rw [valueString_single single]
    cases closes : bodyLength? quote false behind with
    | none => rfl
    | some body =>
        simp only [closes] at nothing ⊢
        rw [trailing_offset nothing, trailing_nothing nothing]
  · rw [valueString_run positive single] at nothing ⊢
    rw [valueString_run positive single]
    cases opens : opened? quote behind with
    | some body => simp [opens] at nothing
    | none =>
        simp only [opens] at nothing ⊢
        split_ifs at nothing ⊢
        rfl

theorem codeStep_offset (depth : Nat) (outer : List Context) (last : Last) (offset offset' : Nat)
    (c : Char) (rest : List Char) :
    Follows rest.length (codeStep depth outer last offset c rest)
      (codeStep depth outer last offset' c rest) := by
  unfold codeStep
  dsimp only
  refine .ite (fun _ => .refl _ _) fun _ => .ite (fun _ => .refl _ _) fun _ =>
    .ite (fun _ => .refl _ _) fun _ => .ite (fun _ => .refl _ _) fun _ =>
    .ite (fun _ => .refl _ _) fun _ =>
    .ite (fun _ => .ite (fun _ => ?value) fun _ => .refl _ _) fun _ => .refl _ _
  case value =>
    intro _ nothing
    rw [valueString_offset nothing]

theorem step_offset {contexts : List Context} {last : Last} {offset : Nat} {c : Char}
    {rest : List Char} (nothing : (step contexts last offset c rest).deletions = [])
    (offset' : Nat) :
    step contexts last offset' c rest = step contexts last offset c rest := by
  have within := (fits_step contexts last offset c rest).1
  rcases contexts with - | ⟨depth | -, outer⟩
  · exact codeStep_offset 0 [] last offset offset' c rest within nothing
  · exact codeStep_offset _ outer last offset offset' c rest within nothing
  · rfl

/-- A pass that finds nothing from a place on finds nothing where the text stands elsewhere. -/
theorem deletions_offset {contexts : List Context} {last : Last} {offset : Nat}
    {text : List Char} (nothing : Place.deletions ⟨contexts, last, offset, text⟩ = [])
    (offset' : Nat) : Place.deletions ⟨contexts, last, offset', text⟩ = [] := by
  induction length : text.length using Nat.strong_induction_on
    generalizing contexts last offset offset' text with
  | _ bound inductionHypothesis =>
      subst length
      cases text with
      | nil => rfl
      | cons c rest =>
          rw [deletions_cons, List.append_eq_nil_iff] at nothing
          rw [deletions_cons, step_offset nothing.1, nothing.1, List.nil_append]
          have shorter : (rest.drop (step contexts last offset c rest).behind).length <
              (c :: rest).length := by
            rw [List.length_drop, List.length_cons]
            omega
          exact inductionHypothesis _ shorter nothing.2 _ rfl

/-! ## The literal of a value -/

/-- The body of a literal: it begins with content, so there is some, and ends before the first
quote that closes it. -/
structure IsBody (quote : Char) (body following : List Char) : Prop where
  begins : beginsContent body = true
  closes : bodyLength? quote false (body ++ quote :: following) = some body.length

/-- What surrounds a value. -/
def Place.inside (place : Place) : List Context :=
  if place.contexts = [] then [.code 0] else place.contexts

/-- What a pass deletes from the literal of a value on. -/
theorem Place.AtValue.deletions_eq {place : Place} (value : place.AtValue) {quote : Char}
    (isQuote : IsQuote quote) (rest : List Char) :
    Place.deletions ⟨place.contexts, place.last, place.offset, quote :: rest⟩ =
      (valueString quote place.offset rest).2 ++
        Place.deletions ⟨place.inside, .operand,
          place.offset + size (quote :: rest.take (valueString quote place.offset rest).1),
          rest.drop (valueString quote place.offset rest).1⟩ := by
  have found (depth : Nat) (outer : List Context) :
      codeStep depth outer place.last place.offset quote rest =
        ⟨(valueString quote place.offset rest).1, .code depth :: outer, .operand,
          (valueString quote place.offset rest).2⟩ := by
    have isValue := value.beforeValue
    rcases isQuote with rfl | rfl <;> simp [codeStep, isValue]
  have step : Repair.step place.contexts place.last place.offset quote rest =
      ⟨(valueString quote place.offset rest).1, place.inside, .operand,
        (valueString quote place.offset rest).2⟩ := by
    obtain ⟨inCode, -⟩ := value
    rcases place with ⟨- | ⟨depth | -, outer⟩, last, offset, text⟩
    · exact found 0 []
    · exact found depth outer
    · exact absurd rfl inCode
  rw [deletions_cons, step]
  rfl

namespace IsBody

variable {quote : Char} {body following : List Char}

/-- A body begins with what is neither a blank nor a quote of its literal. -/
theorem exists_cons (isBody : IsBody quote body following) (isQuote : IsQuote quote) :
    ∃ c rest, body = c :: rest ∧ c ≠ quote ∧ (c == ' ' || c == '\t') = false := by
  obtain ⟨begins, closes⟩ := isBody
  cases body with
  | nil => cases begins
  | cons c rest =>
      refine ⟨c, rest, rfl, ?_, ?_⟩
      · rintro rfl
        rcases isQuote with rfl | rfl <;> simp [bodyLength?] at closes
      · by_contra blank
        rcases Bool.or_eq_true_iff.mp ((Bool.not_eq_false _).mp blank) with isBlank | isBlank
        all_goals
          rw [beq_iff_eq.mp isBlank] at begins
          simp [beginsContent] at begins

/-- What stands behind a literal does not matter to where it closes. -/
theorem bodyLength?_eq (isBody : IsBody quote body following) (behind : List Char) :
    bodyLength? quote false (body ++ quote :: behind) = some body.length := by
  have closes := isBody.closes
  rw [List.append_cons] at closes ⊢
  exact bodyLength?_front closes (by simp) behind

theorem takeWhile_eq_nil (isBody : IsBody quote body following) (isQuote : IsQuote quote)
    (behind : List Char) : (body ++ behind).takeWhile (· == quote) = [] := by
  obtain ⟨c, rest, rfl, other, -⟩ := isBody.exists_cons isQuote
  simp [other]

/-- Quotes before a body end no value. -/
theorem continues (isBody : IsBody quote body following) (isQuote : IsQuote quote)
    (behind : List Char) (count : Nat) (other : Char) :
    endsValue (((List.replicate count quote ++ quote :: (body ++ behind)).dropWhile
      (· == other)).dropWhile fun c => c == ' ' || c == '\t') = false := by
  obtain ⟨c, rest, rfl, apart, noBlank⟩ := isBody.exists_cons isQuote
  by_cases same : other = quote
  · -- The quotes are dropped, and content ends no value.
    subst same
    have ends : endsValue (c :: rest) = false := by
      have begins := isBody.begins
      rw [beginsContent, Bool.and_eq_true, Bool.not_eq_true'] at begins
      exact begins.1
    rw [List.dropWhile_append_of_pos (by simp), List.dropWhile_cons_of_pos (by simp),
      List.cons_append, List.dropWhile_cons_of_neg (by simpa using apart),
      List.dropWhile_cons_of_neg (by simp [noBlank])]
    exact ends
  · -- The first quote is left, and a quote ends no value.
    have first : (List.replicate count quote ++ quote :: (c :: rest ++ behind)).head? =
        some quote := by
      cases count <;> rfl
    obtain ⟨others, joined⟩ := List.head?_eq_some_iff.mp first
    rw [joined, List.dropWhile_cons_of_neg (by simpa using Ne.symm same)]
    rcases isQuote with rfl | rfl <;> rfl

end IsBody

/-- Quotes of another kind close nothing. -/
theorem bodyLength?_replicate {quote other : Char} (isQuote : IsQuote quote) (apart : quote ≠ other)
    (count : Nat) (text : List Char) :
    bodyLength? other false (List.replicate count quote ++ text) =
      (bodyLength? other false text).map (· + count) := by
  induction count with
  | zero => simp
  | succ count inductionHypothesis =>
      have plain : quote ≠ '\\' ∧ ¬(quote = '\n' ∨ quote = '\r') := by
        rcases isQuote with rfl | rfl <;> decide
      rw [List.replicate_succ, List.cons_append, bodyLength?, if_neg Bool.false_ne_true,
        if_neg plain.1, if_neg plain.2, if_neg apart, inductionHypothesis, Option.map_map]
      rfl

/-- Behind a literal more of its quotes close nothing that did not close before. -/
theorem bodyLength?_behind {quote other : Char} (isQuote : IsQuote quote) (apart : quote ≠ other)
    {escaped : Bool} {body following : List Char} (count : Nat)
    (closes : bodyLength? quote escaped (body ++ quote :: following) = some body.length)
    (unclosed : bodyLength? other escaped (body ++ quote :: following) = none) :
    bodyLength? other escaped (body ++ quote :: (List.replicate count quote ++ following)) =
      none := by
  induction body generalizing escaped with
  | nil =>
      cases escaped with
      | true => simp [bodyLength?] at closes
      | false =>
          have one := bodyLength?_replicate isQuote apart 1 following
          have more := bodyLength?_replicate isQuote apart (count + 1) following
          rw [List.replicate_one, List.singleton_append] at one
          rw [List.nil_append, one, Option.map_eq_none_iff] at unclosed
          rw [List.nil_append, ← List.cons_append, ← List.replicate_succ, more, unclosed]
          rfl
  | cons c body inductionHypothesis =>
      have goesOn {escaped : Bool}
          (closes : (bodyLength? quote escaped (body ++ quote :: following)).map (· + 1) =
            some (body.length + 1))
          (unclosed : (bodyLength? other escaped (body ++ quote :: following)).map (· + 1) = none) :
          (bodyLength? other escaped
            (body ++ quote :: (List.replicate count quote ++ following))).map (· + 1) = none := by
        obtain ⟨inner, answered, same⟩ := Option.map_eq_some_iff.mp closes
        obtain rfl := Nat.add_right_cancel same
        rw [inductionHypothesis answered (Option.map_eq_none_iff.mp unclosed)]
        rfl
      simp only [List.cons_append, bodyLength?, List.length_cons] at closes unclosed ⊢
      split_ifs at closes unclosed ⊢ with isEscaped escapes ends first second
      · exact goesOn closes unclosed
      · exact goesOn closes unclosed
      · cases closes
      · exact goesOn closes unclosed

/-- More quotes before a literal make a twin of the text from the literal on. -/
theorem twins_opening {quote : Char} {body following : List Char} (isQuote : IsQuote quote)
    (isBody : IsBody quote body following) (count : Nat) :
    Twins (quote :: (body ++ quote :: following))
      (List.replicate count quote ++ quote :: (body ++ quote :: following)) where
  first := ⟨quote, isQuote, rfl, by cases count <;> rfl⟩
  unclosed other unclosed := by
    have apart : quote ≠ other := by
      rintro rfl
      rcases isQuote with rfl | rfl <;> cases unclosed
    rw [bodyLength?_replicate isQuote apart, unclosed]
    rfl
  continues := isBody.continues isQuote _ 0
  twinContinues := isBody.continues isQuote _ count

/-- More quotes behind a literal make a twin of the text from the literal on. -/
theorem twins_closing {quote : Char} {body following : List Char} (isQuote : IsQuote quote)
    (isBody : IsBody quote body following) (count : Nat) :
    Twins (quote :: (body ++ quote :: following))
      (quote :: (body ++ quote :: (List.replicate count quote ++ following))) where
  first := ⟨quote, isQuote, rfl, rfl⟩
  unclosed other unclosed := by
    have apart : quote ≠ other := by
      rintro rfl
      rcases isQuote with rfl | rfl <;> cases unclosed
    have one (text : List Char) := bodyLength?_replicate isQuote apart 1 text
    simp only [List.replicate_one, List.singleton_append] at one
    rw [one, Option.map_eq_none_iff] at unclosed
    rw [one, bodyLength?_behind isQuote apart count isBody.closes unclosed]
    rfl
  continues := isBody.continues isQuote _ 0
  twinContinues := isBody.continues isQuote _ 0

/-! ## The damaged literal -/

/-- Stray quotes behind a literal that ends its value go. -/
theorem exists_trailing {quote : Char} (isQuote : IsQuote quote) {count : Nat}
    (positive : 0 < count) (offset : Nat) (kept : List Char) {following : List Char}
    (ends : endsValue (following.dropWhile fun c => c == ' ' || c == '\t') = true) :
    ∃ fix : Fix, fix.saving = count ∧
      trailing quote offset kept (List.replicate count quote ++ following) =
        (count, [⟨⟨offset + size kept, offset + size kept + count⟩, fix⟩]) := by
  have single : following.takeWhile (· == quote) = [] := by
    cases following with
    | nil => rfl
    | cons c rest =>
        rw [List.takeWhile_cons_of_neg]
        intro same
        rw [beq_iff_eq.mp same] at ends
        rcases isQuote with rfl | rfl <;> cases ends
  have some : (List.replicate count quote).isEmpty = false := by
    cases count with
    | zero => exact absurd positive (Nat.lt_irrefl 0)
    | succ count => rfl
  refine ⟨⟨offset + size kept, String.ofList (kept ++ List.replicate count quote),
    String.ofList kept, .strayTrailingQuote⟩, ?_, ?_⟩
  · simp only [Fix.saving, String.toList_ofList, Text.size_append, isQuote.size_replicate]
    omega
  · unfold trailing
    simp only [takeWhile_replicate_append count single, some, List.length_replicate,
      List.drop_left' List.length_replicate, ends, isQuote.size_replicate, Bool.not_false,
      Bool.and_self, if_true]

namespace IsBody

variable {quote : Char} {body following : List Char}

/-- A value ends with its literal, and with the quotes behind it that are deleted. -/
theorem valueString_eq (isBody : IsBody quote body following) (isQuote : IsQuote quote)
    (offset : Nat) (behind : List Char) :
    valueString quote offset (body ++ quote :: behind) =
      (1 + body.length + (trailing quote offset (quote :: (body ++ [quote])) behind).1,
        (trailing quote offset (quote :: (body ++ [quote])) behind).2) := by
  rw [valueString_single (isBody.takeWhile_eq_nil isQuote _), isBody.bodyLength?_eq]
  simp only [List.take_length_add_append, List.drop_length_add_append, List.take_succ_cons,
    List.take_zero, List.drop_succ_cons, List.drop_zero]

/-- Of more quotes before a literal all but the last are deleted. -/
theorem valueString_opening (isBody : IsBody quote body following) (isQuote : IsQuote quote)
    {count : Nat} (positive : 0 < count) (offset : Nat)
    (nothing : (trailing quote offset (quote :: (body ++ [quote])) following).2 = []) :
    valueString quote offset (List.replicate count quote ++ (body ++ quote :: following)) =
      (count + 1 + body.length,
        [collapse offset count (List.replicate count quote ++ quote :: (body ++ [quote]))
          (if count = 1 then .doubledOpeningQuote else .quoteRun)]) := by
  have opens : opened? quote (body ++ quote :: following) = some body.length := by
    have begins : beginsContent (body ++ quote :: following) = true := by
      obtain ⟨c, rest, rfl, -⟩ := isBody.exists_cons isQuote
      exact isBody.begins
    rw [opened?, if_pos begins, isBody.closes]
  rw [valueString_run positive (isBody.takeWhile_eq_nil isQuote _), opens]
  simp only [List.take_length_add_append, List.drop_length_add_append, List.take_succ_cons,
    List.take_zero, List.drop_succ_cons, List.drop_zero, trailing_offset nothing]
  rfl

end IsBody

/-! ## Repair -/

/-- What is left of a text with one deletion, where what is left needs none. -/
theorem repair_of_single {text left : List Char} {deletion : Deletion}
    (found : pass text = [deletion]) (thins : Thins 0 text [deletion] left)
    (settled : pass left = []) : repair text = ⟨left, [deletion.fix]⟩ := by
  have rest : passes text.length left = ⟨left, []⟩ := by
    cases text.length with
    | zero => rfl
    | succ bound => rw [passes, settled]
  rw [repair, passes, found]
  simp only [apply, thins.applyFrom_eq, rest]
  rfl

theorem pass_eq_nil_of_fixCount {text : List Char} (settled : (repair text).fixCount = 0) :
    pass text = [] := by
  have none := List.eq_nil_of_length_eq_zero settled
  rw [repair, passes] at none
  split at none
  · assumption
  · simp_all

section

variable {before body following : List Char} {quote : Char} {place : Place} {count : Nat}

theorem Reaches.offset_eq {behind : List Char}
    (reached : Reaches (.start (before ++ behind)) place) (there : place.text = behind) :
    place.offset = size before := by
  have far := reached.offset_add_size
  rw [there, Place.start, Text.size_append] at far
  dsimp only at far
  omega

/-- At the literal of a value where a pass deletes nothing, and behind it, it deletes nothing. -/
theorem Place.AtValue.settled (value : place.AtValue) (isQuote : IsQuote quote)
    (isBody : IsBody quote body following)
    (there : place.text = quote :: (body ++ quote :: following))
    (nothing : place.deletions = []) (offset : Nat) :
    (trailing quote offset (quote :: (body ++ [quote])) following).2 = [] ∧
      Place.deletions ⟨place.inside, .operand, offset, following⟩ = [] := by
  have literal := value.deletions_eq isQuote (body ++ quote :: following)
  rw [← there, isBody.valueString_eq isQuote] at literal
  obtain ⟨closing, behind⟩ := List.append_eq_nil_iff.mp (literal.symm.trans nothing)
  have left : (body ++ quote :: following).drop (1 + body.length + 0) = following := by
    rw [Nat.add_zero, Nat.add_comm]
    exact List.drop_length_add_append 1
  rw [trailing_nothing closing] at behind
  rw [left] at behind
  rw [trailing_offset closing]
  exact ⟨rfl, deletions_offset behind offset⟩

/-- Quotes put before the literal of a value are what a pass deletes. -/
theorem repair_opening (settled : pass (before ++ quote :: (body ++ quote :: following)) = [])
    (reached : Reaches (.start (before ++ quote :: (body ++ quote :: following))) place)
    (there : place.text = quote :: (body ++ quote :: following)) (value : place.AtValue)
    (isQuote : IsQuote quote) (isBody : IsBody quote body following) (positive : 0 < count) :
    ∃ fix, repair (before ++
        (List.replicate count quote ++ quote :: (body ++ quote :: following))) =
      ⟨before ++ quote :: (body ++ quote :: following), [fix]⟩ := by
  obtain ⟨nothing, found⟩ := (twins_opening isQuote isBody count).reaches reached rfl there
    (reached.endsBare isQuote rfl there value) settled
  obtain ⟨closing, -⟩ := value.settled isQuote isBody there nothing place.offset
  obtain ⟨fix, told, deletion⟩ := exists_collapse isQuote place.offset count
    (quote :: (body ++ [quote])) (if count = 1 then .doubledOpeningQuote else .quoteRun)
  have left : (List.replicate count quote ++ (body ++ quote :: following)).drop
      (count + 1 + body.length) = following := by
    rw [Nat.add_assoc, Nat.add_comm 1, List.drop_append, List.length_replicate]
    simp
  rw [← cons_replicate_append] at found ⊢
  rw [value.deletions_eq isQuote, isBody.valueString_opening isQuote positive _ closing, left, deletion,
    (value.settled isQuote isBody there nothing _).2, List.append_nil] at found
  refine ⟨fix, repair_of_single found ?_ settled⟩
  rw [cons_replicate_append, reached.offset_eq there, ← Nat.zero_add (size before)]
  exact (Thins.refl 0 before).append (.thin isQuote positive (.inl rfl) told (.refl _ _))

/-- Quotes put behind a literal that ends a value are what a pass deletes. -/
theorem repair_closing (settled : pass (before ++ quote :: (body ++ quote :: following)) = [])
    (reached : Reaches (.start (before ++ quote :: (body ++ quote :: following))) place)
    (there : place.text = quote :: (body ++ quote :: following)) (value : place.AtValue)
    (isQuote : IsQuote quote) (isBody : IsBody quote body following) (positive : 0 < count)
    (ends : endsValue (following.dropWhile fun c => c == ' ' || c == '\t') = true) :
    ∃ fix, repair (before ++
        quote :: (body ++ quote :: (List.replicate count quote ++ following))) =
      ⟨before ++ quote :: (body ++ quote :: following), [fix]⟩ := by
  obtain ⟨nothing, found⟩ := (twins_closing isQuote isBody count).reaches reached rfl there
    (reached.endsBare isQuote rfl there value) settled
  obtain ⟨fix, told, closing⟩ := exists_trailing isQuote positive place.offset
    (quote :: (body ++ [quote])) ends
  have left : (body ++ quote :: (List.replicate count quote ++ following)).drop
      (1 + body.length + count) = following := by
    rw [Nat.add_comm 1, Nat.add_assoc, List.drop_length_add_append, Nat.add_comm,
      List.drop_succ_cons]
    exact List.drop_left' List.length_replicate
  rw [value.deletions_eq isQuote, isBody.valueString_eq isQuote, closing, left,
    (value.settled isQuote isBody there nothing _).2, List.append_nil] at found
  refine ⟨fix, repair_of_single found ?_ settled⟩
  have start : place.offset + size (quote :: (body ++ [quote])) =
      0 + size before + size (quote :: body) + 1 := by
    rw [reached.offset_eq there, ← List.cons_append, Text.size_append, Text.size_cons quote [],
      isQuote.utf8Size, Text.size_nil]
    omega
  rw [cons_replicate_append, start]
  exact (Thins.refl 0 before).append ((Thins.refl _ (quote :: body)).append
    (.thin isQuote positive (.inr rfl) told (.refl _ _)))

/-- Repair takes back quotes that were put into a text in which it finds nothing to do: before a
literal that a pass comes to where a value stands, or behind one that ends the value. -/
theorem repair_undoes
    (settled : (repair (before ++ quote :: (body ++ quote :: following))).fixCount = 0)
    (reached : Reaches (.start (before ++ quote :: (body ++ quote :: following))) place)
    (there : place.text = quote :: (body ++ quote :: following)) (value : place.AtValue)
    (isQuote : IsQuote quote) (isBody : IsBody quote body following) (positive : 0 < count) :
    (∃ fix, repair (before ++
        (List.replicate count quote ++ quote :: (body ++ quote :: following))) =
      ⟨before ++ quote :: (body ++ quote :: following), [fix]⟩) ∧
    (endsValue (following.dropWhile fun c => c == ' ' || c == '\t') = true →
      ∃ fix, repair (before ++
          quote :: (body ++ quote :: (List.replicate count quote ++ following))) =
        ⟨before ++ quote :: (body ++ quote :: following), [fix]⟩) := by
  have nothing := pass_eq_nil_of_fixCount settled
  exact ⟨repair_opening nothing reached there value isQuote isBody positive,
    repair_closing nothing reached there value isQuote isBody positive⟩

end

/-- Two quotes put before a literal, or behind it, are taken back. -/
theorem repair_undoes_pair :
    (∃ fix, repair "x = '''a';".toList = ⟨"x = 'a';".toList, [fix]⟩) ∧
      ∃ fix, repair "x = 'a''';".toList = ⟨"x = 'a';".toList, [fix]⟩ := by
  obtain ⟨opening, closing⟩ := @repair_undoes "x = ".toList ['a'] [';'] '\''
    ⟨[.code 0], .punct '=', 4, "'a';".toList⟩ 2 (by decide +kernel)
    (.step (.step (.step (.step .here)))) rfl ⟨by decide, by decide⟩ (.inl rfl)
    ⟨by decide, by decide⟩ (by decide)
  exact ⟨opening, closing (by decide)⟩

end StopMotion.Repair
