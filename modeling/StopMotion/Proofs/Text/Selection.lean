import Mathlib.Data.Prod.Lex
import StopMotion.Proofs.Text.Kept

/-!
# Which edits of a text are kept

Edits are gone through by their start, insertions first, then wider ones, then as they were
added, and one is kept if it starts where the last kept one ends, or behind that. The edited
text says character by character what this leaves: what the kept edits say that start there, and
the character itself unless a kept edit replaces it. Sorting is the only place where the order
in which edits were added matters, and it matters only among edits of one span; an edit inside
of a kept one starts before that one ends, so it is never looked at twice.
-/

namespace StopMotion

/-- Whether a byte lies in a span. -/
def Span.holds (span : Span) (offset : Nat) : Bool :=
  span.start ≤ offset && offset < span.stop

theorem Span.eq_of_ends {first second : Span} (starts : first.start = second.start)
    (stops : first.stop = second.stop) : first = second := by
  cases first
  cases second
  simp_all

/-- The characters of a text with their offsets, the first one at `offset`. -/
def Text.offsets : (offset : Nat) → List Char → List (Nat × Char)
  | _, [] => []
  | offset, c :: rest => (offset, c) :: offsets (offset + c.utf8Size) rest

/-- A character of an edited text. -/
inductive Mark where
  /-- A character of the source that stands at an offset. -/
  | copied (offset : Nat) (c : Char)
  /-- A character that an edit says. -/
  | said (c : Char)
  deriving DecidableEq, Repr

namespace Mark

/-- The character of a mark. -/
def char : Mark → Char
  | copied _ c => c
  | said c => c

/-- Where a character that is copied stands in the source. -/
def origin? : Mark → Option (Nat × Char)
  | copied offset c => some (offset, c)
  | said _ => none

end Mark

namespace Edit

open Text (size Whole offsets)

variable {source : List Char} {cursor stop offset : Nat} {edit : Edit} {edits others : List Edit}

/-! ## The edited text that is meant -/

/-- How late an edit is gone through that was added at a position: by its start, insertions
first, then wider ones, then as they were added. -/
def rank (added : Edit × Nat) : Nat ×ₗ Bool ×ₗ Natᵒᵈ ×ₗ Nat :=
  toLex (added.1.span.start, toLex (!added.1.isInsertion,
    toLex (OrderDual.toDual added.1.span.stop, added.2)))

/-- Edits in the order in which they are gone through. -/
def inOrder (edits : List Edit) : List Edit :=
  (edits.zipIdx.mergeSort fun first second => rank first ≤ rank second).map Prod.fst

/-- Where the last of some edits ends; the start of the text if there are none. -/
def lastStop (kept : List Edit) : Nat := (kept.getLast?.map (·.span.stop)).getD 0

/-- The kept edits with one more if it starts where the last of them ends, or behind that. -/
def keep (kept : List Edit) (edit : Edit) : List Edit :=
  if lastStop kept ≤ edit.span.start then kept ++ [edit] else kept

/-- The edits that are kept. -/
def kept (edits : List Edit) : List Edit := (inOrder edits).foldl keep []

/-- What edits say that start at an offset. -/
def wordsAt (edits : List Edit) (offset : Nat) : List Mark :=
  (edits.filter fun edit => edit.span.start == offset).flatMap fun edit =>
    edit.text.toList.map .said

/-- Whether an edit replaces the byte at an offset. -/
def replacesAt (edits : List Edit) (offset : Nat) : Bool :=
  edits.any fun edit => edit.span.holds offset

/-- A text that begins at an offset, with the spans of some edits replaced. -/
def replaced (edits : List Edit) : (offset : Nat) → List Char → List Mark
  | offset, [] => wordsAt edits offset
  | offset, c :: rest =>
    wordsAt edits offset ++ (if replacesAt edits offset then [] else [.copied offset c]) ++
      replaced edits (offset + c.utf8Size) rest

/-- The edits of one span, as they were added. -/
def ofSpan (span : Span) (edits : List Edit) : List Edit :=
  edits.filter fun edit => edit.span == span

/-! ## The order -/

/-- Of two edits of one span either stands before the other. -/
theorem precedes_of_span_eq {first second : Edit} (same : first.span = second.span) :
    precedes first second = true := by
  simp [precedes, isInsertion, same]

/-- Two edits that stand before each other have one span. -/
theorem span_eq_of_precedes {first second : Edit} (before : precedes first second = true)
    (behind : precedes second first = true) : first.span = second.span := by
  rw [precedes_iff] at before behind
  have starts : first.span.start = second.span.start := by omega
  have stops : first.span.stop = second.span.stop := by grind
  exact Span.eq_of_ends starts stops

theorem mem_ofSpan {span : Span} : edit ∈ ofSpan span edits ↔ edit ∈ edits ∧ edit.span = span := by
  simp [ofSpan]

/-- Two sorted lists are one if they have the same edits of each span in the same order. -/
theorem eq_of_ofSpan {first second : List Edit}
    (sortedFirst : first.Pairwise fun first second => precedes first second = true)
    (sortedSecond : second.Pairwise fun first second => precedes first second = true)
    (same : ∀ span, ofSpan span first = ofSpan span second) : first = second := by
  induction first generalizing second with
  | nil =>
      cases second with
      | nil => rfl
      | cons other _ => simpa [ofSpan] using same other.span
  | cons edit first inductionHypothesis =>
      have isIn : edit ∈ second :=
        (mem_ofSpan.mp (same edit.span ▸ mem_ofSpan.mpr ⟨.head _, rfl⟩)).1
      cases second with
      | nil => cases isIn
      | cons other second =>
          have isOther : other ∈ edit :: first :=
            (mem_ofSpan.mp (same other.span ▸ mem_ofSpan.mpr ⟨.head _, rfl⟩)).1
          obtain ⟨before, restFirst⟩ := List.pairwise_cons.mp sortedFirst
          obtain ⟨beforeOther, restSecond⟩ := List.pairwise_cons.mp sortedSecond
          have sameSpan : edit.span = other.span := by
            apply span_eq_of_precedes
            · rcases List.mem_cons.mp isOther with rfl | later
              · exact precedes_of_span_eq rfl
              · exact before other later
            · rcases List.mem_cons.mp isIn with rfl | later
              · exact precedes_of_span_eq rfl
              · exact beforeOther edit later
          have heads := same edit.span
          simp only [ofSpan, List.filter_cons, sameSpan, BEq.rfl, if_true, List.cons.injEq] at heads
          obtain ⟨rfl, -⟩ := heads
          congr 1
          refine inductionHypothesis restFirst restSecond fun span => ?_
          have tails := same span
          simp only [ofSpan, List.filter_cons] at tails
          split at tails
          · exact (List.cons.inj tails).2
          · exact tails

/-- Sorting leaves the edits of a span as they were added. -/
theorem ofSpan_mergeSort (span : Span) (edits : List Edit) :
    ofSpan span (edits.mergeSort precedes) = ofSpan span edits := by
  have alike : (ofSpan span edits).Pairwise fun first second => precedes first second = true :=
    List.pairwise_of_forall_mem_list fun first isFirst second isSecond =>
      precedes_of_span_eq ((mem_ofSpan.mp isFirst).2.trans (mem_ofSpan.mp isSecond).2.symm)
  have sublist := List.sublist_mergeSort precedes_trans precedes_total alike List.filter_sublist
  have inside : (ofSpan span edits).Sublist (ofSpan span (edits.mergeSort precedes)) := by
    have filtered := sublist.filter fun edit => edit.span == span
    simpa only [ofSpan, List.filter_filter, Bool.and_self] using filtered
  have lengths := ((edits.mergeSort_perm precedes).filter fun edit => edit.span == span).length_eq
  exact (inside.eq_of_length lengths.symm).symm

/-- Sorting does not depend on the order of edits of different spans. -/
theorem mergeSort_congr (same : ∀ span, ofSpan span others = ofSpan span edits) :
    others.mergeSort precedes = edits.mergeSort precedes :=
  eq_of_ofSpan (sorted_mergeSort others) (sorted_mergeSort edits) fun span => by
    rw [ofSpan_mergeSort, ofSpan_mergeSort, same]

theorem ofSpan_filter (span : Span) (wanted : Edit → Bool) (edits : List Edit) :
    ofSpan span (edits.filter wanted) = (ofSpan span edits).filter wanted := by
  simp only [ofSpan, List.filter_filter, Bool.and_comm]

/-- Edits may be sorted before or after some are left out. -/
theorem mergeSort_filter (wanted : Edit → Bool) (edits : List Edit) :
    (edits.filter wanted).mergeSort precedes = (edits.mergeSort precedes).filter wanted :=
  eq_of_ofSpan (sorted_mergeSort _) ((sorted_mergeSort edits).filter wanted) fun span => by
    rw [ofSpan_mergeSort, ofSpan_filter, ofSpan_filter, ofSpan_mergeSort]

/-- An edit is gone through as its rank says. -/
theorem zipIdxLE_precedes (first second : Edit × Nat) :
    List.zipIdxLE precedes first second = decide (rank first ≤ rank second) := by
  rw [Bool.eq_iff_iff, decide_eq_true_iff]
  simp only [rank, Prod.Lex.toLex_le_toLex, OrderDual.toDual_lt_toDual, OrderDual.toDual_inj,
    List.zipIdxLE, precedes_iff]
  rcases Nat.lt_trichotomy first.1.span.start second.1.span.start with earlier | same | later
  · simp [earlier, Nat.lt_asymm earlier, Nat.ne_of_gt earlier]
  · cases first.1.isInsertion <;> cases second.1.isInsertion <;> simp [same] <;> omega
  · simp [Nat.lt_asymm later, Nat.ne_of_gt later]

theorem mergeSort_eq_inOrder (edits : List Edit) : edits.mergeSort precedes = inOrder edits := by
  rw [inOrder, ← List.mergeSort_zipIdx]
  congr
  funext first second
  exact zipIdxLE_precedes first second

/-! ## The selection -/

theorem lastStop_concat (front : List Edit) (edit : Edit) :
    lastStop (front ++ [edit]) = edit.span.stop := by
  simp [lastStop]

theorem foldl_keep (front edits : List Edit) :
    edits.foldl keep front = front ++ taken (lastStop front) edits := by
  induction edits generalizing front with
  | nil => simp [taken]
  | cons edit rest inductionHypothesis =>
      rw [List.foldl_cons, inductionHypothesis, keep, taken]
      by_cases reached : lastStop front ≤ edit.span.start
      · simp [reached, lastStop_concat, Nat.not_lt.mpr reached]
      · simp [reached, Nat.lt_of_not_le reached]

/-- The edits that are kept are those that are taken from the sorted ones. -/
theorem kept_eq (edits : List Edit) : kept edits = taken 0 (edits.mergeSort precedes) := by
  rw [kept, foldl_keep, mergeSort_eq_inOrder]
  rfl

theorem mem_of_mem_kept (isKept : edit ∈ kept edits) : edit ∈ edits := by
  rw [kept_eq] at isKept
  exact List.mem_mergeSort.mp (mem_of_mem_taken isKept)

theorem takenIn_eq_kept (whole : ∀ edit ∈ edits, Whole source edit.span) :
    takenIn edits source = kept edits := by
  have all : (edits.filter fun edit =>
      (Span.mk 0 (size source)).contains edit.span && true) = edits :=
    List.filter_eq_self.mpr fun edit isIn => by
      simpa [Span.contains_iff] using (whole edit isIn).le_size
  rw [takenIn, all, kept_eq]

/-- Nothing changes if edits are left out that are not looked at once `outer` is kept: none of
them stands before it, and they start before it ends. -/
theorem taken_filter {outer : Edit} {wanted : Edit → Bool}
    (sorted : edits.Pairwise fun first second => precedes first second = true)
    (ordered : ∀ edit ∈ edits, edit.span.start ≤ edit.span.stop)
    (behind : ∀ edit ∈ edits, wanted edit = false →
      precedes edit outer = false ∧ edit.span.start < outer.span.stop)
    (reached : outer ∈ taken cursor edits ∨ outer ∈ taken cursor (edits.filter wanted) ∨
      outer.span.stop ≤ cursor) :
    taken cursor (edits.filter wanted) = taken cursor edits := by
  induction edits generalizing cursor with
  | nil => rfl
  | cons edit rest inductionHypothesis =>
      obtain ⟨before, sortedRest⟩ := List.pairwise_cons.mp sorted
      obtain ⟨orderedEdit, orderedRest⟩ := List.forall_mem_cons.mp ordered
      obtain ⟨behindEdit, behindRest⟩ := List.forall_mem_cons.mp behind
      cases isWanted : wanted edit with
      | false =>
          obtain ⟨notBefore, starts⟩ := behindEdit isWanted
          have notLater : outer ∉ edit :: rest := by
            intro isIn
            rcases List.mem_cons.mp isIn with rfl | later
            · simp [precedes_of_span_eq rfl] at notBefore
            · simp [before outer later] at notBefore
          have passed : outer.span.stop ≤ cursor := by
            rcases reached with isTaken | isTaken | passed
            · exact absurd (mem_of_mem_taken isTaken) notLater
            · exact absurd (List.mem_filter.mp (mem_of_mem_taken isTaken)).1 notLater
            · exact passed
          rw [List.filter_cons_of_neg (by simp [isWanted]), taken, if_pos (by omega)]
          exact inductionHypothesis sortedRest orderedRest behindRest (.inr (.inr passed))
      | true =>
          rw [List.filter_cons_of_pos isWanted] at reached ⊢
          simp only [taken] at reached ⊢
          by_cases early : edit.span.start < cursor
          · simp only [early, if_true] at reached ⊢
            exact inductionHypothesis sortedRest orderedRest behindRest reached
          · simp only [early, if_false, List.mem_cons] at reached ⊢
            have reachedNext : outer ∈ taken edit.span.stop rest ∨
                outer ∈ taken edit.span.stop (rest.filter wanted) ∨
                  outer.span.stop ≤ edit.span.stop := by
              rcases reached with (rfl | later) | (rfl | later) | passed
              · exact .inr (.inr (Nat.le_refl _))
              · exact .inl later
              · exact .inr (.inr (Nat.le_refl _))
              · exact .inr (.inl later)
              · exact .inr (.inr (by omega))
            rw [inductionHypothesis sortedRest orderedRest behindRest reachedNext]

/-- An edit is strictly inside of a range unless it is the whole range or says something at its
edge. -/
theorem isInner_iff {range : Span} : isInner range edit = true ↔
    edit.span ≠ range ∧ (edit.span.start = edit.span.stop →
      edit.span.start ≠ range.start ∧ edit.span.start ≠ range.stop) := by
  by_cases inserts : edit.span.start = edit.span.stop <;> simp [isInner, isInsertion, inserts]

/-- An edit strictly inside of another one does not stand before it, and starts before it ends. -/
theorem behind_of_isInner {outer : Edit} (ordered : edit.span.start ≤ edit.span.stop)
    (inside : outer.span.contains edit.span = true) (strict : isInner outer.span edit = true) :
    precedes edit outer = false ∧ edit.span.start < outer.span.stop := by
  obtain ⟨starts, stops⟩ := Span.contains_iff.mp inside
  obtain ⟨differs, noEdge⟩ := isInner_iff.mp strict
  constructor
  · rw [Bool.eq_false_iff, ne_eq]
    intro before
    rcases precedes_iff.mp before with earlier | ⟨same, ⟨inserts, -⟩ | ⟨-, wider⟩⟩
    · omega
    · exact (noEdge (by simpa [isInsertion] using inserts)).1 same
    · exact differs (Span.eq_of_ends same (Nat.le_antisymm stops wider))
  · by_contra late
    exact (noEdge (by omega)).2 (by omega)

/-- What lies strictly inside of an edit that is kept may be left out. -/
theorem kept_filter {outer : Edit} {wanted : Edit → Bool}
    (ordered : ∀ edit ∈ edits, edit.span.start ≤ edit.span.stop)
    (inside : ∀ edit ∈ edits, wanted edit = false →
      outer.span.contains edit.span = true ∧ isInner outer.span edit = true)
    (isKept : outer ∈ kept edits ∨ outer ∈ kept (edits.filter wanted)) :
    kept (edits.filter wanted) = kept edits := by
  simp only [kept_eq, mergeSort_filter] at isKept ⊢
  refine taken_filter (sorted_mergeSort edits)
    (fun edit isIn => ordered edit (List.mem_mergeSort.mp isIn)) (fun edit isIn isUnwanted => ?_)
    (isKept.imp_right .inl)
  obtain ⟨within, strict⟩ := inside edit (List.mem_mergeSort.mp isIn) isUnwanted
  exact behind_of_isInner (ordered edit (List.mem_mergeSort.mp isIn)) within strict

/-- An edit that lies strictly inside of one that is kept changes nothing. -/
theorem kept_without {before behind : List Edit} {outer inner : Edit}
    (ordered : ∀ edit ∈ before ++ inner :: behind, edit.span.start ≤ edit.span.stop)
    (isKept : outer ∈ kept (before ++ inner :: behind))
    (inside : outer.span.contains inner.span = true) (strict : isInner outer.span inner = true) :
    kept (before ++ behind) = kept (before ++ inner :: behind) := by
  let wanted (edit : Edit) : Bool := edit.span != inner.span
  have unwanted (edit : Edit) (isUnwanted : wanted edit = false) :
      outer.span.contains edit.span = true ∧ isInner outer.span edit = true := by
    have same : edit.span = inner.span := by simpa [wanted] using isUnwanted
    rw [isInner_iff, same, ← isInner_iff]
    exact ⟨inside, strict⟩
  have rest : (before ++ behind).filter wanted = (before ++ inner :: behind).filter wanted := by
    simp [wanted]
  have keptWith := kept_filter ordered (fun edit _ => unwanted edit) (.inl isKept)
  have keptWithout := @kept_filter (before ++ behind) outer wanted
    (fun edit isIn => ordered edit (by simp at isIn ⊢; tauto)) (fun edit _ => unwanted edit)
    (.inr (by rwa [rest, keptWith]))
  rw [← keptWithout, rest, keptWith]

/-! ## The edited text -/

theorem InLine.le_start (inLine : InLine stop cursor edits) (isIn : edit ∈ edits) :
    cursor ≤ edit.span.start := by
  induction edits generalizing cursor with
  | nil => cases isIn
  | cons first rest inductionHypothesis =>
      obtain ⟨begins, ordered, behind⟩ := inLine
      rcases List.mem_cons.mp isIn with rfl | later
      · exact begins
      · have := inductionHypothesis behind later
        omega

/-- Edits in line do not overlap. -/
theorem InLine.pairwise (inLine : InLine stop cursor edits) :
    edits.Pairwise fun first second => first.span.stop ≤ second.span.start := by
  induction edits generalizing cursor with
  | nil => exact .nil
  | cons edit rest inductionHypothesis =>
      obtain ⟨-, -, behind⟩ := inLine
      exact List.pairwise_cons.mpr ⟨fun other isIn => behind.le_start isIn,
        inductionHypothesis behind⟩

theorem wordsAt_cons (edit : Edit) (edits : List Edit) (offset : Nat) :
    wordsAt (edit :: edits) offset =
      (if edit.span.start = offset then edit.text.toList.map .said else []) ++
        wordsAt edits offset := by
  by_cases starts : edit.span.start = offset <;> simp [wordsAt, starts]

theorem wordsAt_eq_nil (elsewhere : ∀ edit ∈ edits, edit.span.start ≠ offset) :
    wordsAt edits offset = [] := by
  rw [wordsAt, List.filter_eq_nil_iff.mpr (by simpa using elsewhere)]
  rfl

theorem replacesAt_cons (edit : Edit) (edits : List Edit) (offset : Nat) :
    replacesAt (edit :: edits) offset = (edit.span.holds offset || replacesAt edits offset) := rfl

theorem replacesAt_eq_false (elsewhere : ∀ edit ∈ edits, offset < edit.span.start) :
    replacesAt edits offset = false := by
  rw [replacesAt, List.any_eq_false]
  intro edit isIn
  have later := elsewhere edit isIn
  simp [Span.holds, Nat.not_le.mpr later]

/-- What no edit touches is copied. -/
theorem replaced_gap {gap rest : List Char}
    (behind : ∀ edit ∈ edits, offset + size gap ≤ edit.span.start) :
    (replaced edits offset (gap ++ rest)).map Mark.char =
      gap ++ (replaced edits (offset + size gap) rest).map Mark.char := by
  induction gap generalizing offset with
  | nil => simp
  | cons c gap inductionHypothesis =>
      have positive := c.utf8Size_pos
      simp only [Text.size_cons] at behind
      have later (edit : Edit) (isIn : edit ∈ edits) : offset < edit.span.start := by
        have := behind edit isIn
        omega
      have onwards := @inductionHypothesis (offset + c.utf8Size)
        fun edit isIn => by have := behind edit isIn; omega
      rw [List.cons_append, replaced, wordsAt_eq_nil fun edit isIn => (later edit isIn).ne',
        replacesAt_eq_false later]
      simp [onwards, Mark.char, Nat.add_assoc]

/-- Behind its span an edit says nothing. -/
theorem replaced_behind {text : List Char} (starts : edit.span.start < offset)
    (stops : edit.span.stop ≤ offset) :
    replaced (edit :: edits) offset text = replaced edits offset text := by
  induction text generalizing offset with
  | nil => simp [replaced, wordsAt_cons, Nat.ne_of_lt starts]
  | cons c rest inductionHypothesis =>
      rw [replaced, replaced, inductionHypothesis (by omega) (by omega)]
      simp [wordsAt_cons, replacesAt_cons, Span.holds, Nat.ne_of_lt starts, Nat.not_lt.mpr stops]

/-- Inside of its span an edit says nothing and nothing is copied. -/
theorem replaced_inside {inner rest : List Char} (starts : edit.span.start < offset)
    (stops : offset + size inner = edit.span.stop)
    (behind : ∀ other ∈ edits, edit.span.stop ≤ other.span.start) :
    replaced (edit :: edits) offset (inner ++ rest) = replaced edits edit.span.stop rest := by
  induction inner generalizing offset with
  | nil =>
      rw [← stops]
      exact replaced_behind starts (by simp [← stops])
  | cons c inner inductionHypothesis =>
      have positive := c.utf8Size_pos
      simp only [Text.size_cons] at stops
      have noWords : wordsAt (edit :: edits) offset = [] := wordsAt_eq_nil fun other isIn => by
        rcases List.mem_cons.mp isIn with rfl | later
        · omega
        · have := behind other later
          omega
      have isReplaced : replacesAt (edit :: edits) offset = true := by
        have holds : edit.span.holds offset = true := by simp [Span.holds]; omega
        rw [replacesAt_cons, holds, Bool.true_or]
      rw [List.cons_append, replaced, noWords, isReplaced,
        inductionHypothesis (by omega) (by omega)]
      rfl

/-- Where an edit begins it says its text in the place of its span. -/
theorem replaced_here {inner rest : List Char}
    (stops : edit.span.start + size inner = edit.span.stop)
    (behind : ∀ other ∈ edits, edit.span.stop ≤ other.span.start) :
    replaced (edit :: edits) edit.span.start (inner ++ rest) =
      edit.text.toList.map .said ++ replaced edits edit.span.stop rest := by
  cases inner with
  | nil =>
      -- the edit is an insertion, and the character behind it is up to the other edits
      have same : edit.span.start = edit.span.stop := by simpa using stops
      rw [List.nil_append, ← same]
      cases rest with
      | nil => simp [replaced, wordsAt_cons]
      | cons c rest =>
          have positive := c.utf8Size_pos
          rw [replaced, replaced, replaced_behind (by omega) (by omega)]
          simp [wordsAt_cons, replacesAt_cons, Span.holds, ← same]
  | cons c inner =>
      have positive := c.utf8Size_pos
      simp only [Text.size_cons] at stops
      have noWords : wordsAt edits edit.span.start = [] := wordsAt_eq_nil fun other isIn => by
        have := behind other isIn
        omega
      have isReplaced : replacesAt (edit :: edits) edit.span.start = true := by
        have holds : edit.span.holds edit.span.start = true := by simp [Span.holds]; omega
        rw [replacesAt_cons, holds, Bool.true_or]
      rw [List.cons_append, replaced, wordsAt_cons, if_pos rfl, noWords, isReplaced,
        replaced_inside (by omega) (by omega) behind]
      simp

/-- The characters that are copied are those that no edit replaces, in order. -/
theorem origins_replaced (edits : List Edit) (offset : Nat) (text : List Char) :
    (replaced edits offset text).filterMap Mark.origin? =
      (offsets offset text).filter fun place => !replacesAt edits place.1 := by
  have silent (offset : Nat) : (wordsAt edits offset).filterMap Mark.origin? = [] := by
    rw [List.filterMap_eq_nil_iff]
    intro mark isIn
    obtain ⟨edit, -, isSaid⟩ := List.mem_flatMap.mp isIn
    obtain ⟨c, -, rfl⟩ := List.mem_map.mp isSaid
    rfl
  induction text generalizing offset with
  | nil => simp [replaced, offsets, silent]
  | cons c rest inductionHypothesis =>
      by_cases isReplaced : replacesAt edits offset = true <;>
        simp [replaced, offsets, silent, isReplaced, inductionHypothesis, Mark.origin?]

/-- Edits in line are spliced into a text as it is meant. -/
theorem splice_eq_replaced (before stretch : List Char)
    (inLine : InLine (size source) cursor edits) (whole : ∀ edit ∈ edits, Whole source edit.span)
    (joined : source = before ++ stretch) (begins : size before = cursor) :
    splice source (size source) cursor edits = (replaced edits cursor stretch).map Mark.char := by
  induction edits generalizing cursor before stretch with
  | nil =>
      have cut : Text.cut? source cursor (size source) = some stretch := by
        have copied := Text.cut?_append before stretch []
        rwa [List.append_nil, ← Text.size_append, ← joined, begins] at copied
      have copies := @replaced_gap cursor [] stretch [] nofun
      rw [List.append_nil] at copies
      rw [splice, cut, copies]
      simp [replaced, wordsAt]
  | cons edit rest inductionHypothesis =>
      obtain ⟨reached, ordered, inLineRest⟩ := inLine
      obtain ⟨wholeEdit, wholeRest⟩ := List.forall_mem_cons.mp whole
      have upTo := wholeEdit.le_size
      rw [joined, Text.size_append] at upTo
      have joinedHere : source = before ++ stretch ++ [] := by simpa using joined
      obtain ⟨gap, inner, more, rfl, starts, stops⟩ :=
        Text.exists_parts wholeEdit joinedHere (by omega) upTo
      have behind (other : Edit) (isIn : other ∈ rest) : edit.span.stop ≤ other.span.start :=
        inLineRest.le_start isIn
      have behindGap (other : Edit) (isIn : other ∈ edit :: rest) :
          cursor + size gap ≤ other.span.start := by
        rcases List.mem_cons.mp isIn with rfl | later
        · omega
        · have := behind other later
          omega
      have speaks : splice source (size source) cursor (edit :: rest) =
          gap ++ edit.text.toList ++ splice source (size source) edit.span.stop rest :=
        splice_at edit rest before gap (inner ++ more) (by simp [joined]) begins (by omega)
      have onwards := inductionHypothesis (before ++ gap ++ inner) more inLineRest wholeRest
        (by simp [joined]) (by simp only [Text.size_append]; omega)
      rw [speaks, onwards, List.append_assoc gap, List.append_assoc gap, replaced_gap behindGap,
        ← begins, starts, replaced_here stops behind]
      have isSaid : (edit.text.toList.map Mark.said).map Mark.char = edit.text.toList := by
        simp [Function.comp_def, Mark.char]
      rw [List.map_append, isSaid]

/-- Edits of which the same are kept make the same of a text. -/
theorem apply_congr (whole : ∀ edit ∈ edits, Whole source edit.span)
    (wholeOthers : ∀ edit ∈ others, Whole source edit.span) (same : kept others = kept edits) :
    apply others source = apply edits source := by
  rw [apply_eq, apply_eq, takenIn_eq_kept whole, takenIn_eq_kept wholeOthers, same]

theorem mem_of_ofSpan (same : ∀ span, ofSpan span others = ofSpan span edits)
    (isIn : edit ∈ others) : edit ∈ edits :=
  (mem_ofSpan.mp (same edit.span ▸ mem_ofSpan.mpr ⟨isIn, rfl⟩)).1

/-- Applying edits to a text replaces the spans of those that are kept. They do not overlap, every
character that none of them replaces is there once and in its place, an edit strictly inside of one
that is kept says nothing, and edits of different spans may be added in any order. -/
theorem apply_eq_replaced (edits : List Edit) (source : List Char)
    (whole : ∀ edit ∈ edits, Whole source edit.span) :
    apply edits source = (replaced (kept edits) 0 source).map Mark.char ∧
    (kept edits).Pairwise (fun first second => first.span.stop ≤ second.span.start) ∧
    (replaced (kept edits) 0 source).filterMap Mark.origin? =
      (offsets 0 source).filter (fun place => !replacesAt (kept edits) place.1) ∧
    (∀ before inner behind outer, edits = before ++ inner :: behind → outer ∈ kept edits →
      outer.span.contains inner.span = true → isInner outer.span inner = true →
        apply (before ++ behind) source = apply edits source) ∧
    ∀ others, (∀ span, ofSpan span others = ofSpan span edits) →
      apply others source = apply edits source := by
  have inLine : InLine (size source) 0 (kept edits) :=
    takenIn_eq_kept whole ▸ inLine_takenIn whole
  refine ⟨?_, inLine.pairwise, origins_replaced .., ?_, fun others same => ?_⟩
  · rw [apply_eq, takenIn_eq_kept whole]
    exact splice_eq_replaced [] source inLine
      (fun edit isKept => whole edit (mem_of_mem_kept isKept)) rfl rfl
  · rintro before inner behind outer rfl isKept inside strict
    refine apply_congr whole (fun edit isIn => whole edit (by simp at isIn ⊢; tauto)) ?_
    exact kept_without (fun edit isIn => (whole edit isIn).le) isKept inside strict
  · refine apply_congr whole (fun edit isIn => whole edit (mem_of_ofSpan same isIn)) ?_
    rw [kept_eq, kept_eq, mergeSort_congr same]

/-- Two replacements that begin together, and insertions around and inside of them. -/
def overlapping : List Edit :=
  [⟨⟨1, 3⟩, "X"⟩, ⟨⟨1, 5⟩, "Y"⟩, insertion 3 "?", insertion 5 "!", insertion 1 "+"]

/-- Of two replacements that begin together the wider one is kept, and of the insertions those at
its edges. -/
theorem apply_overlapping :
    (∀ edit ∈ overlapping, Whole "aébcdf".toList edit.span) ∧
    kept overlapping = [insertion 1 "+", ⟨⟨1, 5⟩, "Y"⟩, insertion 5 "!"] ∧
    apply overlapping "aébcdf".toList = "a+Y!df".toList ∧
    apply (overlapping.eraseIdx 2) "aébcdf".toList = "a+Y!df".toList := by
  have whole : ∀ edit ∈ overlapping, Whole "aébcdf".toList edit.span := by
    simp only [overlapping, List.forall_mem_cons]
    refine ⟨?_, ?_, ?_, ?_, ?_, nofun⟩
    · exact ⟨['a'], ['é'], "bcdf".toList, by decide, by decide, by decide, by simp⟩
    · exact ⟨['a'], "ébc".toList, "df".toList, by decide, by decide, by decide, by simp⟩
    · exact ⟨['a', 'é'], [], "bcdf".toList, by decide, by decide, by decide, by simp⟩
    · exact ⟨"aébc".toList, [], "df".toList, by decide, by decide, by decide, by simp⟩
    · exact ⟨['a'], [], "ébcdf".toList, by decide, by decide, by decide, by simp⟩
  have isSorted : overlapping.mergeSort precedes =
      [insertion 1 "+", ⟨⟨1, 5⟩, "Y"⟩, ⟨⟨1, 3⟩, "X"⟩, insertion 3 "?", insertion 5 "!"] :=
    mergeSort_eq_of_perm (by decide) (by decide) (by decide)
  have isKept : kept overlapping = [insertion 1 "+", ⟨⟨1, 5⟩, "Y"⟩, insertion 5 "!"] := by
    rw [kept_eq, isSorted]
    rfl
  obtain ⟨selects, -, -, without, -⟩ := apply_eq_replaced overlapping "aébcdf".toList whole
  have applied : apply overlapping "aébcdf".toList = "a+Y!df".toList := by
    rw [selects, isKept]
    decide
  refine ⟨whole, isKept, applied, ?_⟩
  rw [← applied]
  exact without [⟨⟨1, 3⟩, "X"⟩, ⟨⟨1, 5⟩, "Y"⟩] (insertion 3 "?") [insertion 5 "!", insertion 1 "+"]
    ⟨⟨1, 5⟩, "Y"⟩ rfl (by simp [isKept]) (by decide) (by decide)

end Edit

end StopMotion
