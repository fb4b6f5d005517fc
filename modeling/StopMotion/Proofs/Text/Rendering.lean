import StopMotion.Proofs.Text.Selection

/-!
# Rendering a range of a text

A range of a text can be rendered with the edits inside of it first and then be replaced by what
came of that. Which edits inside of the range are kept does not depend on what is around it: the
edits before it end where it begins, or before that, and those behind it begin where it ends, or
behind that. So sorted edits fall into three stretches, each of which is spliced on its own.
-/

namespace StopMotion

open Text (size Whole)

namespace Edit

variable {source : List Char} {cursor middle stop : Nat} {edit : Edit}
  {edits first second : List Edit} {range : Span}

/-! ## Stretches of edits -/

/-- Sorted edits are those that start before an offset and those that do not. -/
theorem filter_append_filter (sorted : edits.Pairwise fun first second =>
    precedes first second = true) (offset : Nat) :
    edits.filter (fun edit => edit.span.start < offset) ++
      edits.filter (fun edit => offset ≤ edit.span.start) = edits := by
  induction edits with
  | nil => rfl
  | cons edit rest inductionHypothesis =>
      obtain ⟨before, sortedRest⟩ := List.pairwise_cons.mp sorted
      by_cases early : edit.span.start < offset
      · simp [early, Nat.not_le.mpr early, inductionHypothesis sortedRest]
      · have late : ∀ other ∈ rest, ¬ other.span.start < offset := fun other isIn => by
          have := precedes_iff.mp (before other isIn)
          omega
        have nothing : rest.filter (fun edit => edit.span.start < offset) = [] :=
          List.filter_eq_nil_iff.mpr (by simpa using late)
        have onwards := inductionHypothesis sortedRest
        rw [nothing, List.nil_append] at onwards
        simp [early, Nat.not_lt.mp early, nothing, onwards]

/-- What was taken before does not matter to edits that all start behind it. -/
theorem taken_of_le_start (reached : cursor ≤ middle)
    (behind : ∀ edit ∈ edits, middle ≤ edit.span.start) :
    taken cursor edits = taken middle edits := by
  cases edits with
  | nil => rfl
  | cons edit rest =>
      have starts := behind edit (.head _)
      rw [taken, taken, if_neg (by omega), if_neg (by omega)]

/-- Of edits up to an offset and edits from it on, those are taken that are taken of each. -/
theorem taken_append (reached : cursor ≤ middle) (upTo : ∀ edit ∈ first, edit.span.stop ≤ middle)
    (behind : ∀ edit ∈ second, middle ≤ edit.span.start) :
    taken cursor (first ++ second) = taken cursor first ++ taken middle second := by
  induction first generalizing cursor with
  | nil => exact taken_of_le_start reached behind
  | cons edit rest inductionHypothesis =>
      obtain ⟨ends, upToRest⟩ := List.forall_mem_cons.mp upTo
      rw [List.cons_append, taken, taken]
      by_cases early : edit.span.start < cursor
      · simp [early, inductionHypothesis reached upToRest]
      · simp [early, inductionHypothesis ends upToRest]

/-- Edits that start before the cursor are passed over. -/
theorem taken_append_of_start_lt (before : ∀ edit ∈ first, edit.span.start < cursor) :
    taken cursor (first ++ second) = taken cursor second := by
  induction first with
  | nil => rfl
  | cons edit rest inductionHypothesis =>
      obtain ⟨early, beforeRest⟩ := List.forall_mem_cons.mp before
      rw [List.cons_append, taken, if_pos early, inductionHypothesis beforeRest]

/-- A stretch before all edits is copied. -/
theorem splice_gap (before front back behind : List Char) (inLine : InLine stop middle edits)
    (whole : ∀ edit ∈ edits, Whole source edit.span)
    (joined : source = before ++ front ++ back ++ behind) (begins : size before = cursor)
    (meets : cursor + size front = middle) (ends : middle + size back = stop) :
    splice source stop cursor edits = front ++ splice source stop middle edits := by
  have isMiddle : size (before ++ front) = middle := by rw [Text.size_append, begins, meets]
  cases edits with
  | nil =>
      have cutBack : Text.cut? source middle stop = some back := by
        rw [joined, ← ends, ← isMiddle]
        exact Text.cut?_append ..
      have cutAll : Text.cut? source cursor stop = some (front ++ back) := by
        have copied := Text.cut?_append before (front ++ back) behind
        rwa [Text.size_append, begins, ← Nat.add_assoc, meets, ends, ← List.append_assoc, ← joined]
          at copied
      rw [splice, splice, cutAll, cutBack]
      rfl
  | cons edit rest =>
      obtain ⟨reached, ordered, inLineRest⟩ := inLine
      have upTo := inLineRest.le
      obtain ⟨gap, inner, more, rfl, starts, stops⟩ :=
        Text.exists_parts (whole edit (.head _)) joined (by omega) (by omega)
      rw [splice_at edit rest (before ++ front) gap (inner ++ more ++ behind) (by simp [joined])
          isMiddle (by omega),
        splice_at edit rest before (front ++ gap) (inner ++ more ++ behind) (by simp [joined])
          begins (by simp only [Text.size_append]; omega)]
      simp only [List.append_assoc]

/-- Edits up to an offset and edits from it on are spliced each into their own stretch. -/
theorem splice_append_splice (before front back behind : List Char)
    (inLineFirst : InLine middle cursor first) (inLineSecond : InLine stop middle second)
    (wholeFirst : ∀ edit ∈ first, Whole source edit.span)
    (wholeSecond : ∀ edit ∈ second, Whole source edit.span)
    (joined : source = before ++ front ++ back ++ behind) (begins : size before = cursor)
    (meets : cursor + size front = middle) (ends : middle + size back = stop) :
    splice source stop cursor (first ++ second) =
      splice source middle cursor first ++ splice source stop middle second := by
  induction first generalizing cursor before front with
  | nil =>
      have cut : Text.cut? source cursor middle = some front := by
        rw [joined, ← meets, ← begins, List.append_assoc (before ++ front)]
        exact Text.cut?_append ..
      rw [List.nil_append, splice, cut, Option.getD_some]
      exact splice_gap before front back behind inLineSecond wholeSecond joined begins meets ends
  | cons edit rest inductionHypothesis =>
      obtain ⟨reached, ordered, inLineRest⟩ := inLineFirst
      obtain ⟨wholeEdit, wholeRest⟩ := List.forall_mem_cons.mp wholeFirst
      have upTo := inLineRest.le
      have joinedHere : source = before ++ front ++ (back ++ behind) := by simpa using joined
      obtain ⟨gap, inner, more, rfl, starts, stops⟩ :=
        Text.exists_parts wholeEdit joinedHere (by omega) (by omega)
      simp only [Text.size_append] at meets
      have onwards := inductionHypothesis (before ++ gap ++ inner) more inLineRest wholeRest
        (by simp [joined]) (by simp only [Text.size_append]; omega) (by omega)
      have speaks (stop : Nat) (edits : List Edit) : splice source stop cursor (edit :: edits) =
          gap ++ edit.text.toList ++ splice source stop edit.span.stop edits :=
        splice_at edit edits before gap (inner ++ more ++ back ++ behind) (by simp [joined]) begins
          (by omega)
      rw [List.cons_append, speaks, speaks, onwards]
      simp only [List.append_assoc]

/-! ## Edits around a range -/

/-- An edit that leaves a range to be rendered on its own: it is beside the range or inside of it,
does not replace just the range, and says nothing at its edges. -/
structure Spares (edit : Edit) (range : Span) : Prop where
  side : edit.span.Apart range ∨ range.contains edit.span = true
  differs : edit.span ≠ range
  noEdge (inserts : edit.isInsertion = true) :
    edit.span.start ≠ range.start ∧ edit.span.start ≠ range.stop

namespace Spares

variable (spares : edit.Spares range) (ordered : edit.span.start ≤ edit.span.stop)

include spares

theorem isInner_eq_true : isInner range edit = true :=
  isInner_iff.mpr ⟨spares.differs, fun same => spares.noEdge (by simpa [isInsertion] using same)⟩

include ordered

/-- Nothing is said at the edges of the range. -/
theorem off_edge (stops : edit.span.stop ≤ edit.span.start) :
    edit.span.start ≠ range.start ∧ edit.span.start ≠ range.stop :=
  spares.noEdge (by simpa [isInsertion] using Nat.le_antisymm ordered stops)

/-- An edit inside of the range starts before the range ends. -/
theorem start_lt (inside : range.contains edit.span = true) : edit.span.start < range.stop := by
  obtain ⟨starts, stops⟩ := Span.contains_iff.mp inside
  by_contra late
  exact (spares.off_edge ordered (by omega)).2 (by omega)

/-- An edit that starts in the range ends in it. -/
theorem contains_of_start (late : range.start ≤ edit.span.start)
    (early : edit.span.start < range.stop) : range.contains edit.span = true := by
  rcases spares.side with (before | behind) | inside
  · exact absurd (Nat.le_antisymm (by omega) late) (spares.off_edge ordered (by omega)).1
  · omega
  · exact inside

omit ordered in
/-- An edit that starts before the range ends before it. -/
theorem stop_le (filled : range.start < range.stop) (early : edit.span.start < range.start) :
    edit.span.stop ≤ range.start := by
  rcases spares.side with (before | behind) | inside
  · exact before
  · omega
  · have := (Span.contains_iff.mp inside).1
    omega

/-- A replacement of the range stands before what starts in it, or behind it. -/
theorem precedes_replacement (text : String) (late : range.start ≤ edit.span.start)
    (filled : range.start < range.stop) : precedes ⟨range, text⟩ edit = true := by
  rw [precedes_iff]
  rcases Nat.lt_or_eq_of_le late with later | same
  · exact .inl later
  · have inside := spares.contains_of_start ordered late (by omega)
    have stops := (Span.contains_iff.mp inside).2
    have speaks : edit.isInsertion = false := by
      rw [Bool.eq_false_iff]
      exact fun inserts => (spares.noEdge inserts).1 same.symm
    refine .inr ⟨same, .inr ⟨?_, stops⟩⟩
    rw [speaks]
    simpa [isInsertion] using Nat.ne_of_lt filled

end Spares

theorem ofSpan_append (span : Span) (first second : List Edit) :
    ofSpan span (first ++ second) = ofSpan span first ++ ofSpan span second :=
  List.filter_append ..

/-- Where an edit stands among edits of other spans does not matter to the edits of each span. -/
theorem ofSpan_middle (differs : ∀ other ∈ first ++ second, other.span ≠ edit.span) (span : Span) :
    ofSpan span (first ++ edit :: second) = ofSpan span (first ++ second ++ [edit]) := by
  by_cases isSpan : edit.span = span
  · have nothing : ofSpan span (first ++ second) = [] := by
      rw [ofSpan, List.filter_eq_nil_iff]
      simpa [isSpan] using differs
    obtain ⟨noFirst, noSecond⟩ := List.append_eq_nil_iff.mp (ofSpan_append .. ▸ nothing)
    rw [ofSpan_append, ofSpan_append, nothing, noFirst]
    rw [ofSpan, List.filter_cons_of_pos (by simpa using isSpan), ← ofSpan, noSecond]
    simp [ofSpan, isSpan]
  · simp [ofSpan, isSpan]

/-- The edits that start before an offset. -/
abbrev startingBefore (offset : Nat) (edits : List Edit) : List Edit :=
  edits.filter fun edit => edit.span.start < offset

/-- The edits that start at an offset or behind it. -/
abbrev startingFrom (offset : Nat) (edits : List Edit) : List Edit :=
  edits.filter fun edit => offset ≤ edit.span.start

/-- The edits inside of a range. -/
abbrev inside (range : Span) (edits : List Edit) : List Edit :=
  edits.filter fun edit => range.contains edit.span

/-- The edits inside of a range and those from its end on. -/
abbrev onwards (range : Span) (edits : List Edit) : List Edit :=
  inside range edits ++ startingFrom range.stop edits

section Range

variable (filled : range.start < range.stop) (spares : ∀ edit ∈ edits, edit.Spares range)
  (ordered : ∀ edit ∈ edits, edit.span.start ≤ edit.span.stop)

include filled

theorem le_start_of_mem_onwards (isIn : edit ∈ onwards range edits) :
    edit ∈ edits ∧ range.start ≤ edit.span.start := by
  rcases List.mem_append.mp isIn with isInside | isBehind
  · obtain ⟨isEdit, isInside⟩ := List.mem_filter.mp isInside
    exact ⟨isEdit, (Span.contains_iff.mp isInside).1⟩
  · obtain ⟨isEdit, isBehind⟩ := List.mem_filter.mp isBehind
    have := of_decide_eq_true isBehind
    exact ⟨isEdit, by omega⟩

include spares ordered

/-- Sorted edits are those before a range, those inside of it and those behind it. -/
theorem startingBefore_append_onwards (sorted : edits.Pairwise fun first second =>
    precedes first second = true) :
    startingBefore range.start edits ++ onwards range edits = edits := by
  have within :
      startingBefore range.stop (startingFrom range.start edits) = inside range edits := by
    rw [startingBefore, List.filter_filter]
    refine List.filter_congr fun edit isIn => ?_
    have spared := spares edit isIn
    have isOrdered := ordered edit isIn
    rw [Bool.eq_iff_iff]
    simp only [Bool.and_eq_true, decide_eq_true_eq]
    constructor
    · rintro ⟨early, late⟩
      exact spared.contains_of_start isOrdered late early
    · intro isInside
      exact ⟨spared.start_lt isOrdered isInside, (Span.contains_iff.mp isInside).1⟩
  have behind : startingFrom range.stop (startingFrom range.start edits) =
      startingFrom range.stop edits := by
    rw [startingFrom, List.filter_filter]
    refine List.filter_congr fun edit _ => ?_
    simp only [Bool.and_eq_left_iff_imp, decide_eq_true_eq]
    omega
  have later := filter_append_filter (sorted.filter fun edit => range.start ≤ edit.span.start)
    range.stop
  rw [onwards, ← within, ← behind, later]
  exact filter_append_filter sorted range.start

/-- A replacement of the range stands between the edits before it and the others. -/
theorem mergeSort_concat (text : String) :
    (edits ++ [Edit.mk range text]).mergeSort precedes =
      startingBefore range.start (edits.mergeSort precedes) ++
        ⟨range, text⟩ :: onwards range (edits.mergeSort precedes) := by
  have sparesSorted (edit : Edit) (isIn : edit ∈ edits.mergeSort precedes) : edit.Spares range :=
    spares edit (List.mem_mergeSort.mp isIn)
  have orderedSorted (edit : Edit) (isIn : edit ∈ edits.mergeSort precedes) :
      edit.span.start ≤ edit.span.stop := ordered edit (List.mem_mergeSort.mp isIn)
  have sorted := sorted_mergeSort edits
  have split := startingBefore_append_onwards filled sparesSorted orderedSorted sorted
  have sortedOnwards : (onwards range (edits.mergeSort precedes)).Pairwise fun first second =>
      precedes first second = true := by
    rw [← split] at sorted
    exact (List.pairwise_append.mp sorted).2.1
  refine eq_of_ofSpan (sorted_mergeSort _) ?_ fun span => ?_
  · rw [List.pairwise_append]
    refine ⟨sorted.filter _, List.pairwise_cons.mpr ⟨fun edit isIn => ?_, sortedOnwards⟩,
      fun first isFirst second isSecond => ?_⟩
    · obtain ⟨isEdit, late⟩ := le_start_of_mem_onwards filled isIn
      exact (sparesSorted edit isEdit).precedes_replacement (orderedSorted edit isEdit) text late
        filled
    · have early := of_decide_eq_true (List.mem_filter.mp isFirst).2
      rw [precedes_iff]
      rcases List.mem_cons.mp isSecond with rfl | later
      · exact .inl early
      · have := (le_start_of_mem_onwards filled later).2
        omega
  · have differs (edit : Edit) (isIn : edit ∈ startingBefore range.start
        (edits.mergeSort precedes) ++ onwards range (edits.mergeSort precedes)) :
        edit.span ≠ range := (sparesSorted edit (split ▸ isIn)).differs
    calc ofSpan span ((edits ++ [Edit.mk range text]).mergeSort precedes)
        = ofSpan span (edits ++ [Edit.mk range text]) := ofSpan_mergeSort ..
      _ = ofSpan span (edits.mergeSort precedes ++ [Edit.mk range text]) := by
        rw [ofSpan_append, ofSpan_append, ofSpan_mergeSort]
      _ = ofSpan span (startingBefore range.start (edits.mergeSort precedes) ++
            onwards range (edits.mergeSort precedes) ++ [Edit.mk range text]) := by rw [split]
      _ = _ := (ofSpan_middle differs span).symm

omit ordered in
theorem stop_le_of_mem_startingBefore (isIn : edit ∈ startingBefore range.start edits) :
    edit.span.stop ≤ range.start := by
  obtain ⟨isEdit, early⟩ := List.mem_filter.mp isIn
  exact (spares edit isEdit).stop_le filled (of_decide_eq_true early)

/-- Before a range, inside of it and behind it edits are taken on their own. -/
theorem taken_eq_append (sorted : edits.Pairwise fun first second => precedes first second = true) :
    taken 0 edits = taken 0 (startingBefore range.start edits) ++
      (taken range.start (inside range edits) ++
        taken range.stop (startingFrom range.stop edits)) := by
  have insideStops (edit : Edit) (isIn : edit ∈ inside range edits) :
      edit.span.stop ≤ range.stop :=
    (Span.contains_iff.mp (List.mem_filter.mp isIn).2).2
  have behindStarts (edit : Edit) (isIn : edit ∈ startingFrom range.stop edits) :
      range.stop ≤ edit.span.start := of_decide_eq_true (List.mem_filter.mp isIn).2
  calc taken 0 edits
      = taken 0 (startingBefore range.start edits ++ onwards range edits) := by
        rw [startingBefore_append_onwards filled spares ordered sorted]
    _ = taken 0 (startingBefore range.start edits) ++ taken range.start (onwards range edits) :=
        taken_append (Nat.zero_le _)
          (fun edit isIn => stop_le_of_mem_startingBefore filled spares isIn)
          fun edit isIn => (le_start_of_mem_onwards filled isIn).2
    _ = _ := by rw [onwards, taken_append (Nat.le_of_lt filled) insideStops behindStarts]

/-- Where the range is replaced, nothing inside of it is taken. -/
theorem taken_replacement (text : String) :
    taken 0 (startingBefore range.start edits ++ Edit.mk range text :: onwards range edits) =
      taken 0 (startingBefore range.start edits) ++
        Edit.mk range text :: taken range.stop (startingFrom range.stop edits) := by
  have starts (edit : Edit) (isIn : edit ∈ Edit.mk range text :: onwards range edits) :
      range.start ≤ edit.span.start := by
    rcases List.mem_cons.mp isIn with rfl | later
    · exact Nat.le_refl _
    · exact (le_start_of_mem_onwards filled later).2
  have insideStarts (edit : Edit) (isIn : edit ∈ inside range edits) :
      edit.span.start < range.stop := by
    obtain ⟨isEdit, isInside⟩ := List.mem_filter.mp isIn
    exact (spares edit isEdit).start_lt (ordered edit isEdit) isInside
  rw [taken_append (Nat.zero_le _)
    (fun edit isIn => stop_le_of_mem_startingBefore filled spares isIn) starts]
  rw [taken, if_neg (Nat.lt_irrefl _), onwards, taken_append_of_start_lt insideStarts]

end Range

/-! ## Rendering -/

/-- A span of whole characters, or one that does not lie in the text. -/
def Aligned (source : List Char) (span : Span) : Prop :=
  (Span.mk 0 (size source)).contains span = true → Whole source span

/-- What a range is rendered to is what the edits inside of it make of the range. -/
theorem render_eq (spares : ∀ edit ∈ edits, edit.Spares range)
    (isIn : (Span.mk 0 (size source)).contains range = true) :
    (render edits source range).toList = splice source range.stop range.start
      (taken range.start (inside range ((edits.filter fun edit =>
        (Span.mk 0 (size source)).contains edit.span && true).mergeSort precedes))) := by
  rw [render, String.toList_ofList, spliced, inside, ← mergeSort_filter, List.filter_filter]
  congr 3
  refine List.filter_congr fun edit isEdit => ?_
  rw [(spares edit isEdit).isInner_eq_true, Bool.and_true, Bool.and_true, Bool.eq_iff_iff,
    Bool.and_eq_true]
  exact ⟨fun inside => ⟨inside, Span.contains_trans isIn inside⟩, And.left⟩

theorem InLine.append (inLineFirst : InLine middle cursor first)
    (inLineSecond : InLine stop middle second) : InLine stop cursor (first ++ second) := by
  induction first generalizing cursor with
  | nil =>
      have reached := inLineFirst.le
      cases second with
      | nil => exact Nat.le_trans reached inLineSecond
      | cons edit rest => exact ⟨Nat.le_trans reached inLineSecond.1, inLineSecond.2⟩
  | cons edit rest inductionHypothesis =>
      obtain ⟨begins, ordered, inLineRest⟩ := inLineFirst
      exact ⟨begins, ordered, inductionHypothesis inLineRest⟩

/-- Edits are spliced the same if the range is replaced by what is spliced into it. -/
theorem splice_replacement {text : String} (filled : range.start < range.stop)
    (whole : Whole source range) (wholeEdits : ∀ edit ∈ edits, Whole source edit.span)
    (spares : ∀ edit ∈ edits, edit.Spares range)
    (rendered : text.toList = splice source range.stop range.start
      (taken range.start (inside range (edits.mergeSort precedes)))) :
    splice source (size source) 0 (taken 0 ((edits ++ [Edit.mk range text]).mergeSort precedes)) =
      splice source (size source) 0 (taken 0 (edits.mergeSort precedes)) := by
  have ordered (edit : Edit) (isIn : edit ∈ edits) : edit.span.start ≤ edit.span.stop :=
    (wholeEdits edit isIn).le
  rw [mergeSort_concat filled spares ordered]
  have sorted := sorted_mergeSort edits
  replace ordered (edit : Edit) (isIn : edit ∈ edits.mergeSort precedes) :=
    ordered edit (List.mem_mergeSort.mp isIn)
  replace spares (edit : Edit) (isIn : edit ∈ edits.mergeSort precedes) :=
    spares edit (List.mem_mergeSort.mp isIn)
  replace wholeEdits (edit : Edit) (isIn : edit ∈ edits.mergeSort precedes) :=
    wholeEdits edit (List.mem_mergeSort.mp isIn)
  generalize edits.mergeSort precedes = edits at rendered sorted ordered spares wholeEdits ⊢
  rw [taken_replacement filled spares ordered, taken_eq_append filled spares ordered sorted,
    splice_append, rendered]
  have wholeTaken (cursor : Nat) (wanted : Edit → Bool) (edit : Edit)
      (isTaken : edit ∈ taken cursor (edits.filter wanted)) : Whole source edit.span :=
    wholeEdits edit (List.mem_filter.mp (mem_of_mem_taken isTaken)).1
  have inLineBefore : InLine range.start 0 (taken 0 (startingBefore range.start edits)) :=
    inLine_taken (fun edit isIn => ⟨ordered edit (List.mem_filter.mp isIn).1,
      stop_le_of_mem_startingBefore filled spares isIn⟩) (Nat.zero_le _)
  have inLineInside : InLine range.stop range.start (taken range.start (inside range edits)) :=
    inLine_taken (fun edit isIn => ⟨ordered edit (List.mem_filter.mp isIn).1,
      (Span.contains_iff.mp (List.mem_filter.mp isIn).2).2⟩) (Nat.le_of_lt filled)
  have inLineBehind : InLine (size source) range.stop
      (taken range.stop (startingFrom range.stop edits)) :=
    inLine_taken (fun edit isIn => ⟨ordered edit (List.mem_filter.mp isIn).1,
      (wholeEdits edit (List.mem_filter.mp isIn).1).le_size⟩) whole.le_size
  obtain ⟨front, middle, back, joined, starts, stops, -⟩ := whole
  have ends : range.stop + size back = size source := by
    rw [joined, ← stops]
    simp only [Text.size_append]
  have later := splice_append_splice front middle back [] inLineInside inLineBehind
    (wholeTaken _ _) (wholeTaken _ _) (by simp [joined]) starts (by omega) ends
  have all := splice_append_splice [] front (middle ++ back) [] inLineBefore
    (inLineInside.append inLineBehind) (wholeTaken _ _)
    (fun edit isIn => (List.mem_append.mp isIn).elim (wholeTaken _ _ edit) (wholeTaken _ _ edit))
    (by simp [joined]) rfl (by omega) (by simp only [Text.size_append]; omega)
  rw [all, later, List.append_assoc]

/-- Replacing a range by what it is rendered to changes nothing. -/
theorem apply_render (filled : range.start < range.stop) (aligned : Aligned source range)
    (alignedEdits : ∀ edit ∈ edits, Aligned source edit.span)
    (spares : ∀ edit ∈ edits, edit.Spares range) :
    apply (edits ++ [⟨range, render edits source range⟩]) source = apply edits source := by
  rw [apply_eq, apply_eq, takenIn, takenIn, List.filter_append]
  by_cases isIn : (Span.mk 0 (size source)).contains range = true
  · rw [List.filter_cons_of_pos (by simpa using isIn), List.filter_nil]
    refine splice_replacement filled (aligned isIn) (fun edit isEdit => ?_) (fun edit isEdit => ?_)
      (render_eq spares isIn)
    · obtain ⟨isEdit, isWithin⟩ := List.mem_filter.mp isEdit
      exact alignedEdits edit isEdit (by simpa using isWithin)
    · exact spares edit (List.mem_filter.mp isEdit).1
  · rw [List.filter_cons_of_neg (by simpa using isIn), List.filter_nil, List.append_nil]

/-- Edits before, inside of and behind what stands in brackets. -/
def bracketed : List Edit := [⟨⟨4, 5⟩, "B"⟩, insertion 6 "+", ⟨⟨0, 1⟩, "A"⟩, insertion 9 "!"]

/-- What stands in brackets may be rendered first. -/
theorem apply_render_bracketed :
    Aligned "aé(bcd)f".toList ⟨3, 8⟩ ∧
    (∀ edit ∈ bracketed, Aligned "aé(bcd)f".toList edit.span) ∧
    (∀ edit ∈ bracketed, edit.Spares ⟨3, 8⟩) ∧
    apply (bracketed ++ [⟨⟨3, 8⟩, render bracketed "aé(bcd)f".toList ⟨3, 8⟩⟩]) "aé(bcd)f".toList =
      apply bracketed "aé(bcd)f".toList := by
  have aligned : Aligned "aé(bcd)f".toList ⟨3, 8⟩ := fun _ =>
    ⟨"aé".toList, "(bcd)".toList, ['f'], by decide, by decide, by decide, by simp⟩
  have alignedEdits : ∀ edit ∈ bracketed, Aligned "aé(bcd)f".toList edit.span := by
    simp only [bracketed, List.forall_mem_cons]
    refine ⟨fun _ => ?_, fun _ => ?_, fun _ => ?_, fun _ => ?_, nofun⟩
    · exact ⟨"aé(".toList, ['b'], "cd)f".toList, by decide, by decide, by decide, by simp⟩
    · exact ⟨"aé(bc".toList, [], "d)f".toList, by decide, by decide, by decide, by simp⟩
    · exact ⟨[], ['a'], "é(bcd)f".toList, by decide, by decide, by decide, by simp⟩
    · exact ⟨"aé(bcd)f".toList, [], [], by decide, by decide, by decide, by simp⟩
  have spares : ∀ edit ∈ bracketed, edit.Spares ⟨3, 8⟩ := by
    simp only [bracketed, List.forall_mem_cons]
    refine ⟨⟨.inr (by decide), by decide, by decide⟩, ⟨.inr (by decide), by decide, by decide⟩,
      ⟨.inl (.inl (by decide)), by decide, by decide⟩,
      ⟨.inl (.inr (by decide)), by decide, by decide⟩, nofun⟩
  exact ⟨aligned, alignedEdits, spares, apply_render (by decide) aligned alignedEdits spares⟩

end Edit

end StopMotion
