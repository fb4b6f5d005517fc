import StopMotion.Proofs.Repair.Pass

/-!
# Repair to a fixed point

Passes follow one another until one finds nothing. Each that finds something leaves a shorter text,
so the bound on their number is never reached; what a pass does to runs of quotes and tells in its
fixes holds of all of them together.
-/

namespace StopMotion.Repair

open Text (size)

/-! ## The deletions of a pass -/

/-- Deletions that a text can be cut at: each takes whole characters, they stand in the order of
the text and do not overlap. -/
structure InOrder (text : List Char) (deletions : List Deletion) : Prop where
  nonempty : ∀ deletion ∈ deletions, deletion.span.start < deletion.span.stop
  inside : ∀ deletion ∈ deletions, deletion.span.stop ≤ size text
  boundaries : ∀ deletion ∈ deletions, Text.isBoundary text deletion.span.start = true ∧
    Text.isBoundary text deletion.span.stop = true
  ordered : deletions.Pairwise fun first second =>
    first.span.start < second.span.start ∧ first.span.stop ≤ second.span.start

/-- A cut at the size of a beginning of a text is at a character. -/
theorem isBoundary_append (before behind : List Char) :
    Text.isBoundary (before ++ behind) (size before) = true := by
  rw [Text.isBoundary, Text.splitAt?_append]
  rfl

theorem Thins.inOrder {text result : List Char} {deletions : List Deletion}
    (thins : Thins 0 text deletions result) : InOrder text deletions where
  nonempty := thins.start_lt_stop
  inside := by
    intro deletion member
    obtain ⟨before, cut, behind, rfl, start, stop⟩ := thins.exists_cut deletion member
    rw [stop, start]
    simp only [Text.size_append]
    omega
  boundaries := by
    intro deletion member
    obtain ⟨before, cut, behind, rfl, start, stop⟩ := thins.exists_cut deletion member
    rw [Nat.zero_add] at start
    constructor
    · rw [start]
      exact isBoundary_append before (cut ++ behind)
    · rw [stop, start, ← Text.size_append, ← List.append_assoc]
      exact isBoundary_append (before ++ cut) behind
  ordered := thins.ordered

/-- A pass that finds something leaves fewer bytes. -/
theorem size_apply_pass_lt {text : List Char} (found : pass text ≠ []) :
    size (apply (pass text) text) < size text := by
  have shorter := (thins_pass text).size_add_length_le
  have atLeastOne := List.length_pos_of_ne_nil found
  omega

/-- A pass that finds something leaves fewer characters. -/
theorem length_apply_pass_lt {text : List Char} (found : pass text ≠ []) :
    (apply (pass text) text).length < text.length := by
  have kept := apply_sublist (pass text) text
  apply Nat.lt_of_le_of_ne kept.length_le
  intro same
  have whole := kept.eq_of_length same
  have shorter := size_apply_pass_lt found
  rw [whole] at shorter
  exact Nat.lt_irrefl _ shorter

/-! ## Passes without a bound -/

/-- Passes over a text, each over what the one before it left, until one finds nothing. -/
inductive Repairs : List Char → Outcome → Prop where
  | settled {text} (nothing : pass text = []) : Repairs text ⟨text, []⟩
  | again {text outcome} (found : pass text ≠ [])
      (later : Repairs (apply (pass text) text) outcome) :
      Repairs text ⟨outcome.text, (pass text).map (·.fix) ++ outcome.fixes⟩

/-- As many passes as the text has characters, and one more, are enough. -/
theorem repairs_passes {bound : Nat} {text : List Char} (enough : text.length < bound) :
    Repairs text (passes bound text) := by
  induction bound generalizing text with
  | zero => exact absurd enough (Nat.not_lt_zero _)
  | succ bound inductionHypothesis =>
      by_cases found : pass text = []
      · rw [passes, found]
        exact .settled found
      · have shorter := length_apply_pass_lt found
        have later := Repairs.again found (inductionHypothesis (by omega))
        unfold passes
        split
        · contradiction
        · exact later

theorem repairs_repair (text : List Char) : Repairs text (repair text) :=
  repairs_passes (Nat.lt_succ_self _)

/-- A text in which a pass finds nothing is its own repair. -/
theorem repair_of_pass_eq_nil {text : List Char} (nothing : pass text = []) :
    repair text = ⟨text, []⟩ := by
  rw [repair, passes, nothing]

namespace Repairs

variable {text : List Char} {outcome : Outcome}

/-- In what is left a pass finds nothing. -/
theorem pass_eq_nil (repairs : Repairs text outcome) : pass outcome.text = [] := by
  induction repairs with
  | settled nothing => exact nothing
  | again found later inductionHypothesis => exact inductionHypothesis

theorem sublist (repairs : Repairs text outcome) : outcome.text.Sublist text := by
  induction repairs with
  | settled nothing => exact .refl _
  | @again text _ found later inductionHypothesis =>
      exact inductionHypothesis.trans (apply_sublist (pass text) text)

/-- No run of quotes is lost and nothing else is changed. -/
theorem singled_eq (repairs : Repairs text outcome) : singled outcome.text = singled text := by
  induction repairs with
  | settled nothing => rfl
  | @again text _ found later inductionHypothesis =>
      exact inductionHypothesis.trans (thins_pass text).singled_eq.symm

/-- The fixes tell how many bytes all passes took. -/
theorem sum_saving (repairs : Repairs text outcome) :
    (outcome.fixes.map Fix.saving).sum = (size text : Int) - size outcome.text := by
  induction repairs with
  | settled nothing => simp
  | @again text _ found later inductionHypothesis =>
      have first := (thins_pass text).sum_saving
      rw [List.map_append, List.sum_append, inductionHypothesis, List.map_map]
      simp only [Function.comp_def]
      omega

end Repairs

/-! ## Repair -/

/-- A pass goes on through its text in steps that lead further, up to the end; its deletions can be
applied, and make the text shorter if there are any. So passes come to a text in which one finds
nothing, and that text is its own repair. -/
theorem repair_settles (text : List Char) :
    Steps [.code 0] .start 0 text (pass text) ∧ InOrder text (pass text) ∧
      (pass text ≠ [] → size (apply (pass text) text) < size text) ∧
      Repairs text (repair text) ∧ (repair (repair text).text).text = (repair text).text ∧
      (repair (repair text).text).fixCount = 0 := by
  have again := repair_of_pass_eq_nil (repairs_repair text).pass_eq_nil
  refine ⟨steps_scan _ _ _ text, (thins_pass text).inOrder, size_apply_pass_lt,
    repairs_repair text, ?_, ?_⟩
  · rw [again]
  · rw [again]
    rfl

/-- Repair makes runs of a quote shorter, to one quote at the least, and leaves all else as it is;
its fixes account for every byte that is gone. -/
theorem repair_thins_runs (text : List Char) :
    (repair text).text.Sublist text ∧ singled (repair text).text = singled text ∧
      (repair text).fixCount = (repair text).fixes.length ∧
      ((repair text).fixes.map Fix.saving).sum = (size text : Int) - size (repair text).text := by
  have repairs := repairs_repair text
  exact ⟨repairs.sublist, repairs.singled_eq, rfl, repairs.sum_saving⟩

/-- A text in which no quote stands twice in a row is its own repair. -/
theorem repair_of_isChain {text : List Char} (single : text.IsChain Apart) :
    repair text = ⟨text, []⟩ :=
  repair_of_pass_eq_nil ((thins_pass text).eq_nil_of_isChain single)

/-- Quotes that stand twice are not always told from prose: here they stand in the text of an
element. -/
example : (repair "x = <p>a: ''b' c</p>;".toList).text = "x = <p>a: 'b' c</p>;".toList := by
  decide +kernel

end StopMotion.Repair
