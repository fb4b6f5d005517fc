import StopMotion.Text.Edit
import StopMotion.Text.Pieces

/-!
# What an edited text is made of

Where the spans of edits lie beside or inside one another, an edit is taken or lies inside
one that is. What is copied then touches none of them, and the text is woven from stretches
of the source that no edit replaces and from the texts of the edits.
-/

namespace StopMotion

namespace Span

/-- Two spans without a byte in common. -/
def Apart (first second : Span) : Prop :=
  first.stop ≤ second.start ∨ second.stop ≤ first.start

/-- Two spans beside each other, or one inside the other. -/
def Nests (first second : Span) : Prop :=
  first.Apart second ∨ first.contains second = true ∨ second.contains first = true

theorem contains_iff {outer inner : Span} :
    outer.contains inner = true ↔ outer.start ≤ inner.start ∧ inner.stop ≤ outer.stop := by
  simp [contains]

theorem contains_refl (span : Span) : span.contains span = true :=
  contains_iff.mpr ⟨Nat.le_refl _, Nat.le_refl _⟩

theorem contains_trans {outer middle inner : Span} (first : outer.contains middle = true)
    (second : middle.contains inner = true) : outer.contains inner = true := by
  rw [contains_iff] at first second ⊢
  omega

theorem Apart.symm {first second : Span} (apart : first.Apart second) : second.Apart first :=
  Or.symm apart

/-- What lies inside of a span is apart from whatever the span is apart from. -/
theorem Apart.of_contains {outer inner other : Span} (apart : outer.Apart other)
    (inside : outer.contains inner = true) : inner.Apart other := by
  rw [contains_iff] at inside
  unfold Apart at apart ⊢
  omega

theorem Nests.symm {first second : Span} (nests : first.Nests second) : second.Nests first := by
  rcases nests with apart | around | inside
  · exact .inl apart.symm
  · exact .inr (.inr around)
  · exact .inr (.inl inside)

end Span

/-- A text put together from stretches of a source that may be copied and from words that
may be said. Blanks may be cut off at the ends of what is put together. -/
inductive Woven (source : List Char) (copies : Span → Prop) (words : String → Prop) :
    List Char → Prop where
  | nothing : Woven source copies words []
  | copied {span : Span} {text : List Char} (may : copies span)
      (cut : Text.cut? source span.start span.stop = some text) : Woven source copies words text
  | said {word : String} (may : words word) : Woven source copies words word.toList
  | append {first second : List Char} (before : Woven source copies words first)
      (behind : Woven source copies words second) : Woven source copies words (first ++ second)
  | trimmedStart {text : List Char} (woven : Woven source copies words text) :
      Woven source copies words (Text.trimStart text)
  | trimmedEnd {text : List Char} (woven : Woven source copies words text) :
      Woven source copies words (Text.trimEnd text)

namespace Woven

variable {source : List Char} {copies copies' : Span → Prop} {words words' : String → Prop}

/-- More may be copied and said. -/
theorem mono {text : List Char} (woven : Woven source copies words text)
    (moreCopies : ∀ span, copies span → copies' span)
    (moreWords : ∀ word, words word → words' word) : Woven source copies' words' text := by
  induction woven with
  | nothing => exact .nothing
  | copied may cut => exact .copied (moreCopies _ may) cut
  | said may => exact .said (moreWords _ may)
  | append _ _ before behind => exact .append before behind
  | trimmedStart _ inductionHypothesis => exact .trimmedStart inductionHypothesis
  | trimmedEnd _ inductionHypothesis => exact .trimmedEnd inductionHypothesis

/-- A text without the blanks at both ends. -/
theorem trimmed {text : List Char} (woven : Woven source copies words text) :
    Woven source copies words (Text.trim text) :=
  .trimmedEnd (.trimmedStart woven)

/-- Two strings in a row. -/
theorem join {first second : String} (before : Woven source copies words first.toList)
    (behind : Woven source copies words second.toList) :
    Woven source copies words (first ++ second).toList := by
  rw [String.toList_append]
  exact .append before behind

/-- The text of a span that may be copied. -/
theorem of_cut {start stop : Nat} (may : copies ⟨start, stop⟩) :
    Woven source copies words ((Text.cut? source start stop).getD []) := by
  cases cut : Text.cut? source start stop with
  | none => exact .nothing
  | some text => exact @copied source copies words ⟨start, stop⟩ text may cut

end Woven

namespace Edit

variable {source : List Char} {copies : Span → Prop} {words : String → Prop}

/-! ## The order of edits -/

theorem precedes_total (first second : Edit) :
    (precedes first second || precedes second first) = true := by
  unfold precedes
  by_cases starts : first.span.start = second.span.start
  · cases first.isInsertion <;> cases second.isInsertion <;> simp [starts] <;> omega
  · have different := Nat.lt_or_gt_of_ne starts
    simp only [bne_iff_ne, ne_eq, starts, Ne.symm starts, not_false_eq_true, if_true,
      Bool.or_eq_true, decide_eq_true_eq]
    exact different

/-- An edit that is taken first starts first; of two replacements that start together it ends
last. -/
theorem precedes_iff {first second : Edit} :
    precedes first second = true ↔
      first.span.start < second.span.start ∨
        (first.span.start = second.span.start ∧
          (first.isInsertion = true ∧ second.isInsertion = false ∨
            first.isInsertion = second.isInsertion ∧ second.span.stop ≤ first.span.stop)) := by
  unfold precedes
  by_cases starts : first.span.start = second.span.start
  · cases first.isInsertion <;> cases second.isInsertion <;> simp [starts]
  · simp [starts]

theorem precedes_trans (first second third : Edit) (before : precedes first second = true)
    (behind : precedes second third = true) : precedes first third = true := by
  rw [precedes_iff] at before behind ⊢
  grind

/-- The edits of a text are taken in order. -/
theorem sorted_mergeSort (edits : List Edit) :
    (edits.mergeSort precedes).Pairwise fun first second => precedes first second = true :=
  List.pairwise_mergeSort precedes_trans precedes_total edits

/-- The order of edits, of which no two different ones stand equally early, is the only one. -/
theorem mergeSort_eq_of_perm {edits sorted : List Edit} (perm : sorted.Perm edits)
    (pairwise : sorted.Pairwise fun first second => precedes first second = true)
    (strict : ∀ first ∈ sorted, ∀ second ∈ sorted, precedes first second = true →
      precedes second first = true → first = second) :
    edits.mergeSort precedes = sorted :=
  ((List.mergeSort_perm edits precedes).trans perm.symm).eq_of_pairwise
    (fun first second isFirst isSecond =>
      strict first (perm.mem_iff.mpr (List.mem_mergeSort.mp isFirst)) second isSecond)
    (sorted_mergeSort edits) pairwise

/-! ## What is copied -/

/-- Edits whose spans do not go back, and of which no two replacements overlap without one
being inside the other. -/
structure Nested (edits : List Edit) : Prop where
  ordered : ∀ edit ∈ edits, edit.span.start ≤ edit.span.stop
  nests : ∀ first ∈ edits, ∀ second ∈ edits, first.isInsertion = false →
    second.isInsertion = false → first.span.Nests second.span

theorem Nested.subset {edits fewer : List Edit} (nested : Nested edits)
    (among : ∀ edit ∈ fewer, edit ∈ edits) : Nested fewer :=
  ⟨fun edit member => nested.ordered edit (among edit member),
    fun first isFirst second isSecond =>
      nested.nests first (among first isFirst) second (among second isSecond)⟩

/-- A replacement that starts inside of one before it ends inside of it. -/
theorem Nested.stop_le {edits : List Edit} {first second : Edit} (nested : Nested edits)
    (isFirst : first ∈ edits) (isSecond : second ∈ edits)
    (replaces : second.isInsertion = false) (before : precedes first second = true)
    (inside : second.span.start < first.span.stop) : second.span.stop ≤ first.span.stop := by
  have ordered := nested.ordered first isFirst
  rw [precedes_iff] at before
  have firstReplaces : first.isInsertion = false := by
    cases isInsertion : first.isInsertion with
    | false => rfl
    | true =>
        have empty : first.span.start = first.span.stop := by
          simpa [Edit.isInsertion] using isInsertion
        omega
  rcases nested.nests first isFirst second isSecond firstReplaces replaces with
    (apart | apart) | around | within
  · omega
  · omega
  · exact (Span.contains_iff.mp around).2
  · rw [Span.contains_iff] at within
    simp only [firstReplaces, replaces, Bool.false_eq_true, false_and, true_and,
      false_or] at before
    omega

/-- The text from a cursor on is woven, if all edits are taken care of that do not end before
it. -/
theorem woven_splice {all edits : List Edit} {range : Span} {cursor : Nat}
    (nested : Nested all)
    (inRange : ∀ edit ∈ all, range.contains edit.span = true)
    (copied : ∀ span : Span, range.contains span = true →
      (∀ edit ∈ all, edit.isInsertion = false → edit.span.Apart span) → copies span)
    (texts : ∀ edit ∈ all, Woven source copies words edit.text.toList)
    (sorted : edits.Pairwise fun first second => precedes first second = true)
    (among : ∀ edit ∈ edits, edit ∈ all)
    (reached : range.start ≤ cursor)
    (passed : ∀ edit ∈ all, edit.isInsertion = false → edit.span.stop ≤ cursor ∨ edit ∈ edits)
    (straddles : ∀ edit ∈ edits, edit.isInsertion = false → edit.span.start < cursor →
      edit.span.stop ≤ cursor) :
    Woven source copies words (splice source range.stop cursor (taken cursor edits)) := by
  induction edits generalizing cursor with
  | nil =>
      refine .of_cut (copied _ (Span.contains_iff.mpr ⟨reached, Nat.le_refl _⟩)
        fun edit member replaces => ?_)
      rcases passed edit member replaces with before | listed
      · exact .inl before
      · cases listed
  | cons edit rest inductionHypothesis =>
      obtain ⟨first, sortedRest⟩ := List.pairwise_cons.mp sorted
      have isEdit : edit ∈ all := among edit (by simp)
      have amongRest : ∀ other ∈ rest, other ∈ all := fun other member =>
        among other (by simp [member])
      by_cases before : edit.span.start < cursor
      · -- The edit is dropped, and lies before the cursor if it replaces anything.
        rw [taken, if_pos before]
        refine inductionHypothesis sortedRest amongRest reached (fun other member replaces => ?_)
          fun other member => straddles other (by simp [member])
        rcases passed other member replaces with isPassed | listed
        · exact .inl isPassed
        · rcases List.mem_cons.mp listed with rfl | more
          · exact .inl (straddles other (by simp) replaces before)
          · exact .inr more
      · rw [taken, if_neg before, splice]
        have bounds := Span.contains_iff.mp (inRange edit isEdit)
        have ordered := nested.ordered edit isEdit
        refine .append (.append (.of_cut (copied _ ?_ fun other member replaces => ?_))
          (texts edit isEdit)) ?_
        · exact Span.contains_iff.mpr ⟨reached, by simp only; omega⟩
        · rcases passed other member replaces with isPassed | listed
          · exact .inl isPassed
          · refine .inr ?_
            rcases List.mem_cons.mp listed with rfl | more
            · exact Nat.le_refl _
            · have := precedes_iff.mp (first other more)
              simp only
              omega
        · refine inductionHypothesis sortedRest amongRest (by omega)
            (fun other member replaces => ?_) fun other member replaces inside =>
              nested.stop_le isEdit (amongRest other member) replaces (first other member) inside
          rcases passed other member replaces with isPassed | listed
          · exact .inl (by omega)
          · rcases List.mem_cons.mp listed with rfl | more
            · exact .inl (Nat.le_refl _)
            · exact .inr more

/-- A range with the wanted edits in it is woven from the texts of the edits and from what
none of them replaces. -/
theorem woven_spliced {edits : List Edit} {range : Span} {wanted : Edit → Bool}
    (nested : Nested edits)
    (copied : ∀ span : Span, range.contains span = true →
      (∀ edit ∈ edits, edit.isInsertion = false → range.contains edit.span = true →
        wanted edit = true → edit.span.Apart span) → copies span)
    (texts : ∀ edit ∈ edits, range.contains edit.span = true → wanted edit = true →
      Woven source copies words edit.text.toList) :
    Woven source copies words (spliced edits source range wanted) := by
  have split {edit : Edit} (member : edit ∈ edits.filter fun edit =>
      range.contains edit.span && wanted edit) :
      edit ∈ edits ∧ range.contains edit.span = true ∧ wanted edit = true := by
    simpa using member
  refine woven_splice (nested.subset fun edit member => (split member).1)
    (fun edit member => (split member).2.1) (fun span inside apart => ?_)
    (fun edit member => texts edit (split member).1 (split member).2.1 (split member).2.2)
    (sorted_mergeSort _) (fun edit member => List.mem_mergeSort.mp member) (Nat.le_refl _)
    (fun edit member _ => .inr (List.mem_mergeSort.mpr member)) fun edit member _ before => ?_
  · apply copied span inside
    intro edit member replaces contained isWanted
    exact apart edit (by simp [member, contained, isWanted]) replaces
  · have := Span.contains_iff.mp (split (List.mem_mergeSort.mp member)).2.1
    omega

end Edit

end StopMotion
