import Mathlib.Algebra.Ring.Int.Defs
import Mathlib.Data.List.Destutter
import StopMotion.Repair.Fix

/-!
# Thinned runs of quotes

What a pass does to a text: each of its deletions takes quotes of a run and leaves one of them
standing. `Thins` relates a text, the deletions and what is left; that the deletions are in order,
that their fixes tell how much shorter the text becomes, and that no run is lost are read off it.
-/

namespace StopMotion.Repair

open Text (size)

/-- The characters that open and close a string literal. -/
def IsQuote (c : Char) : Prop := c = '\'' ∨ c = '"'

instance : DecidablePred IsQuote :=
  fun c => inferInstanceAs (Decidable (c = '\'' ∨ c = '"'))

/-- Neighbours that are not the same quote. -/
def Apart (first second : Char) : Prop := ¬(first = second ∧ IsQuote first)

instance : DecidableRel Apart :=
  fun first second => inferInstanceAs (Decidable ¬(first = second ∧ IsQuote first))

/-- A text in which every run of the same quote is one quote. -/
def singled (text : List Char) : List Char := text.destutter Apart

/-- What is no quote may stand twice. -/
example : singled "a''''\"\"bb".toList = "a'\"bb".toList := by
  decide

/-- The number of bytes by which a fix makes its literal shorter. -/
def Fix.saving (fix : Fix) : Int := size fix.before.toList - size fix.after.toList

theorem IsQuote.utf8Size {quote : Char} (isQuote : IsQuote quote) : quote.utf8Size = 1 := by
  rcases isQuote with rfl | rfl <;> rfl

theorem IsQuote.not_apart {quote : Char} (isQuote : IsQuote quote) : ¬Apart quote quote :=
  fun apart => apart ⟨rfl, isQuote⟩

/-- A run of quotes has a byte for each. -/
theorem IsQuote.size_replicate {quote : Char} (isQuote : IsQuote quote) (count : Nat) :
    size (List.replicate count quote) = count := by
  induction count with
  | zero => rfl
  | succ count inductionHypothesis =>
      rw [List.replicate_succ, Text.size_cons, isQuote.utf8Size, inductionHypothesis]
      omega

/-- A quote may stand before the others of its kind or behind them. -/
theorem cons_replicate_append (quote : Char) (count : Nat) (text : List Char) :
    quote :: (List.replicate count quote ++ text) = List.replicate count quote ++ quote :: text := by
  rw [← List.cons_append, ← List.replicate_succ, List.replicate_succ', List.append_assoc,
    List.singleton_append]

/-- `Thins offset text deletions result`: from a text that starts at `offset` the deletions leave
`result`. Each deletion takes some quotes, behind or before one of the same kind that stays, and
its fix tells how many they are. -/
inductive Thins : Nat → List Char → List Deletion → List Char → Prop where
  | done {offset} : Thins offset [] [] []
  | keep {offset c text deletions result}
      (behind : Thins (offset + c.utf8Size) text deletions result) :
      Thins offset (c :: text) deletions (c :: result)
  | thin {offset start count : Nat} {quote : Char} {fix : Fix} {text deletions result}
      (isQuote : IsQuote quote) (positive : 0 < count) (places : start = offset ∨ start = offset + 1)
      (told : fix.saving = count) (behind : Thins (offset + count + 1) text deletions result) :
      Thins offset (List.replicate count quote ++ quote :: text)
        (⟨⟨start, start + count⟩, fix⟩ :: deletions) (quote :: result)

namespace Thins

variable {offset : Nat} {text result : List Char} {deletions : List Deletion}

/-- Where nothing is deleted, all is left. -/
theorem refl (offset : Nat) (text : List Char) : Thins offset text [] text := by
  induction text generalizing offset with
  | nil => exact .done
  | cons c rest inductionHypothesis => exact .keep (inductionHypothesis _)

/-- Two stretches of a text are thinned one after the other. -/
theorem append {more moreResult : List Char} {moreDeletions : List Deletion}
    (first : Thins offset text deletions result)
    (second : Thins (offset + size text) more moreDeletions moreResult) :
    Thins offset (text ++ more) (deletions ++ moreDeletions) (result ++ moreResult) := by
  induction first with
  | done => exact second
  | keep behind inductionHypothesis =>
      refine .keep (inductionHypothesis ?_)
      rwa [Nat.add_assoc, ← Text.size_cons]
  | @thin offset start count quote fix text _ _ isQuote positive places told behind
      inductionHypothesis =>
      rw [List.append_assoc, List.cons_append]
      refine .thin isQuote positive places told (inductionHypothesis ?_)
      have bytes : size (List.replicate count quote ++ quote :: text) = count + 1 + size text := by
        rw [Text.size_append, Text.size_cons, isQuote.size_replicate, isQuote.utf8Size]
        omega
      rw [bytes] at second
      rwa [show offset + count + 1 + size text = offset + (count + 1 + size text) by omega]

/-! ## Order -/

/-- No deletion begins before the text. -/
theorem le_start (thins : Thins offset text deletions result) :
    ∀ deletion ∈ deletions, offset ≤ deletion.span.start := by
  induction thins with
  | done => simp
  | keep behind inductionHypothesis =>
      intro deletion member
      have later := inductionHypothesis deletion member
      omega
  | thin isQuote positive places told behind inductionHypothesis =>
      intro deletion member
      rcases List.mem_cons.mp member with rfl | member
      · simp only
        omega
      · have later := inductionHypothesis deletion member
        omega

/-- A deletion takes something. -/
theorem start_lt_stop (thins : Thins offset text deletions result) :
    ∀ deletion ∈ deletions, deletion.span.start < deletion.span.stop := by
  induction thins with
  | done => simp
  | keep behind inductionHypothesis => exact inductionHypothesis
  | thin isQuote positive places told behind inductionHypothesis =>
      intro deletion member
      rcases List.mem_cons.mp member with rfl | member
      · simp only
        omega
      · exact inductionHypothesis deletion member

/-- Deletions are in the order of the text and do not overlap. -/
theorem ordered (thins : Thins offset text deletions result) :
    deletions.Pairwise fun first second =>
      first.span.start < second.span.start ∧ first.span.stop ≤ second.span.start := by
  induction thins with
  | done => exact .nil
  | keep behind inductionHypothesis => exact inductionHypothesis
  | thin isQuote positive places told behind inductionHypothesis =>
      refine .cons (fun deletion member => ?_) inductionHypothesis
      have later := behind.le_start deletion member
      simp only
      omega

/-- Each deletion cuts whole characters out of the text. -/
theorem exists_cut (thins : Thins offset text deletions result) :
    ∀ deletion ∈ deletions, ∃ before cut behind, text = before ++ (cut ++ behind) ∧
      deletion.span.start = offset + size before ∧
      deletion.span.stop = deletion.span.start + size cut := by
  induction thins with
  | done => simp
  | @keep offset c text _ _ _ inductionHypothesis =>
      intro deletion member
      obtain ⟨before, cut, behind, joined, start, stop⟩ := inductionHypothesis deletion member
      refine ⟨c :: before, cut, behind, by rw [joined]; rfl, ?_, stop⟩
      rw [start, Text.size_cons, Nat.add_assoc]
  | @thin offset start count quote fix text _ _ isQuote _ places _ _ inductionHypothesis =>
      intro deletion member
      rcases List.mem_cons.mp member with rfl | member
      · rcases places with rfl | rfl
        · refine ⟨[], List.replicate count quote, quote :: text, rfl, rfl, ?_⟩
          rw [isQuote.size_replicate]
        · refine ⟨[quote], List.replicate count quote, text, ?_, ?_, ?_⟩
          · exact (cons_replicate_append quote count text).symm
          · rw [Text.size_cons, isQuote.utf8Size]
            rfl
          · rw [isQuote.size_replicate]
      · obtain ⟨before, cut, behind, joined, start, stop⟩ := inductionHypothesis deletion member
        refine ⟨List.replicate count quote ++ quote :: before, cut, behind, ?_, ?_, stop⟩
        · rw [joined, List.append_assoc, List.cons_append]
        · rw [start, Text.size_append, Text.size_cons, isQuote.size_replicate, isQuote.utf8Size]
          omega

/-! ## What is left -/

/-- What stands behind a deletion is not touched by it. -/
theorem applyFrom_cons {deletion : Deletion} (deletions : List Deletion) {offset : Nat}
    (passed : deletion.span.stop ≤ offset) (text : List Char) :
    applyFrom (deletion :: deletions) offset text = applyFrom deletions offset text := by
  induction text generalizing offset with
  | nil => rfl
  | cons c rest inductionHypothesis =>
      have outside : deletes (deletion :: deletions) offset = deletes deletions offset := by
        simp only [deletes, List.any_cons]
        simp [Nat.not_lt.mpr passed]
      simp only [applyFrom, outside]
      rw [inductionHypothesis (by omega)]

/-- A character that stands before all deletions stays. -/
theorem applyFrom_keep {deletions : List Deletion} {offset : Nat} (c : Char) (text : List Char)
    (before : ∀ deletion ∈ deletions, offset < deletion.span.start) :
    applyFrom deletions offset (c :: text) =
      c :: applyFrom deletions (offset + c.utf8Size) text := by
  have kept : deletes deletions offset = false := by
    simp only [deletes, List.any_eq_false, Bool.and_eq_true, decide_eq_true_eq, not_and]
    intro deletion member starts
    have := before deletion member
    omega
  simp [applyFrom, kept]

/-- Quotes that a deletion covers go. -/
theorem applyFrom_run {deletion : Deletion} (deletions : List Deletion) {offset count : Nat}
    {quote : Char} (isQuote : IsQuote quote) (starts : deletion.span.start ≤ offset)
    (stops : offset + count ≤ deletion.span.stop) (text : List Char) :
    applyFrom (deletion :: deletions) offset (List.replicate count quote ++ text) =
      applyFrom (deletion :: deletions) (offset + count) text := by
  induction count generalizing offset with
  | zero => rfl
  | succ count inductionHypothesis =>
      have covered : deletes (deletion :: deletions) offset = true := by
        simp only [deletes, List.any_cons, Bool.or_eq_true, Bool.and_eq_true, decide_eq_true_eq]
        exact .inl ⟨starts, by omega⟩
      rw [List.replicate_succ, List.cons_append]
      simp only [applyFrom, covered, if_true, isQuote.utf8Size]
      rw [inductionHypothesis (by omega) (by omega)]
      congr 1
      omega

/-- The deletions leave what they are said to leave. -/
theorem applyFrom_eq (thins : Thins offset text deletions result) :
    applyFrom deletions offset text = result := by
  induction thins with
  | done => rfl
  | @keep offset c _ _ _ behind inductionHypothesis =>
      have positive := c.utf8Size_pos
      rw [applyFrom_keep c _ fun deletion member => ?_, inductionHypothesis]
      have later := behind.le_start deletion member
      omega
  | @thin offset start count quote fix text deletions result isQuote positive places _ behind
      inductionHypothesis =>
      have later := behind.le_start
      rcases places with rfl | rfl
      · -- The last quote of the run stays.
        rw [applyFrom_run deletions isQuote (by simp) (by simp), applyFrom_cons _ (by simp),
          applyFrom_keep quote text fun deletion member => by
            have := later deletion member
            omega,
          isQuote.utf8Size, inductionHypothesis]
      · -- The first quote of the run stays.
        rw [← cons_replicate_append, applyFrom_keep quote _ fun deletion member => ?_, isQuote.utf8Size,
          applyFrom_run deletions isQuote (by simp) (by simp), applyFrom_cons _ (by simp)]
        · rw [show offset + 1 + count = offset + count + 1 by omega, inductionHypothesis]
        · rcases List.mem_cons.mp member with rfl | member
          · simp
          · have := later deletion member
            omega

/-- Each deletion makes the text shorter. -/
theorem size_add_length_le (thins : Thins offset text deletions result) :
    size result + deletions.length ≤ size text := by
  induction thins with
  | done => simp
  | keep behind inductionHypothesis =>
      simp only [Text.size_cons]
      omega
  | thin isQuote positive places told behind inductionHypothesis =>
      rw [Text.size_append, isQuote.size_replicate]
      simp only [Text.size_cons, List.length_cons]
      omega

/-- The fixes tell how many bytes are gone. -/
theorem sum_saving (thins : Thins offset text deletions result) :
    (deletions.map (·.fix.saving)).sum = (size text : Int) - size result := by
  induction thins with
  | done => simp
  | keep behind inductionHypothesis =>
      rw [inductionHypothesis, Text.size_cons, Text.size_cons]
      omega
  | thin isQuote positive places told behind inductionHypothesis =>
      rw [List.map_cons, List.sum_cons, inductionHypothesis, told, Text.size_append,
        isQuote.size_replicate, Text.size_cons, Text.size_cons]
      omega

/-! ## Runs -/

/-- More of a quote before that quote make no other text of single quotes. -/
theorem destutter'_replicate_append {quote : Char} (isQuote : IsQuote quote) (before : Char)
    (count : Nat) (text : List Char) :
    (List.replicate count quote ++ quote :: text).destutter' Apart before =
      (quote :: text).destutter' Apart before := by
  induction count generalizing before with
  | zero => rfl
  | succ count inductionHypothesis =>
      rw [List.replicate_succ, List.cons_append]
      by_cases apart : Apart before quote
      · rw [List.destutter'_cons_pos _ apart, inductionHypothesis,
          List.destutter'_cons_neg _ isQuote.not_apart, List.destutter'_cons_pos _ apart]
      · rw [List.destutter'_cons_neg _ apart, inductionHypothesis]

/-- Behind any character, what is left has the runs of the text. -/
theorem destutter'_eq (thins : Thins offset text deletions result) (before : Char) :
    text.destutter' Apart before = result.destutter' Apart before := by
  induction thins generalizing before with
  | done => rfl
  | @keep _ c _ _ _ behind inductionHypothesis =>
      simp only [List.destutter'_cons, inductionHypothesis]
  | thin isQuote positive places told behind inductionHypothesis =>
      rw [destutter'_replicate_append isQuote]
      simp only [List.destutter'_cons, inductionHypothesis]

/-- What is left has the runs of the text, each with a quote at least. -/
theorem singled_eq (thins : Thins offset text deletions result) :
    singled text = singled result := by
  cases thins with
  | done => rfl
  | keep behind =>
      rw [singled, singled, List.destutter_cons', List.destutter_cons', behind.destutter'_eq]
  | @thin _ _ count quote _ text _ result isQuote positive _ _ behind =>
      obtain ⟨count, rfl⟩ := Nat.exists_eq_succ_of_ne_zero (Nat.ne_of_gt positive)
      rw [singled, singled, List.replicate_succ, List.cons_append, List.destutter_cons',
        List.destutter_cons', destutter'_replicate_append isQuote,
        List.destutter'_cons_neg _ isQuote.not_apart, behind.destutter'_eq]

/-- Where no quote stands twice there is nothing to delete. -/
theorem eq_nil_of_isChain (thins : Thins offset text deletions result)
    (single : text.IsChain Apart) : deletions = [] := by
  induction thins with
  | done => rfl
  | keep behind inductionHypothesis => exact inductionHypothesis single.tail
  | @thin _ _ count quote _ text _ _ isQuote positive _ _ _ _ =>
      obtain ⟨count, rfl⟩ := Nat.exists_eq_succ_of_ne_zero (Nat.ne_of_gt positive)
      rw [List.replicate_succ, List.cons_append, cons_replicate_append] at single
      have behind := (List.isChain_append.mp single).2.1
      exact absurd (List.isChain_cons_cons.mp behind).1 isQuote.not_apart

end Thins

end StopMotion.Repair
