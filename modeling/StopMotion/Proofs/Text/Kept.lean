import StopMotion.Proofs.Text.Edge
import StopMotion.Proofs.Text.Edit

/-!
# What edits leave of a text

Edits that are taken stand in line: each starts where the one before it ends, or behind that.
A text with such edits is the source without some spans and with some words in between, every
other character once and in its place.
-/

namespace StopMotion

/-- What is left of a text, which stands at an offset of a source: its characters in order, some
of its spans gone and some words put in between. -/
inductive Keeps (mayGo : Span → Prop) : (offset : Nat) → List Char → List Char → Prop where
  | nothing {offset : Nat} : Keeps mayGo offset [] []
  | kept {offset : Nat} (c : Char) {rest text : List Char}
      (behind : Keeps mayGo (offset + c.utf8Size) rest text) :
      Keeps mayGo offset (c :: rest) (c :: text)
  | put {offset : Nat} (word : List Char) {rest text : List Char}
      (behind : Keeps mayGo offset rest text) : Keeps mayGo offset rest (word ++ text)
  | gone {offset : Nat} {taken rest text : List Char}
      (may : mayGo ⟨offset, offset + Text.size taken⟩)
      (behind : Keeps mayGo (offset + Text.size taken) rest text) :
      Keeps mayGo offset (taken ++ rest) text

/-- A text that has some words in the place of a span of its source, with what is left of the
source before and behind them. -/
inductive Shows (mayGo : Span → Prop) (source : List Char) (span : Span) (word : List Char) :
    List Char → Prop where
  | between {before taken behind front back : List Char}
      (joined : source = before ++ taken ++ behind) (starts : Text.size before = span.start)
      (stops : Text.size before + Text.size taken = span.stop)
      (keptBefore : Keeps mayGo 0 before front) (keptBehind : Keeps mayGo span.stop behind back) :
      Shows mayGo source span word (front ++ word ++ back)

namespace Keeps

variable {mayGo : Span → Prop} {offset : Nat}

/-- A stretch that stays. -/
theorem copied (stretch : List Char) {rest : List Char}
    (behind : Keeps mayGo (offset + Text.size stretch) rest text) :
    Keeps mayGo offset (stretch ++ rest) (stretch ++ text) := by
  induction stretch generalizing offset with
  | nil => simpa using behind
  | cons c stretch inductionHypothesis =>
      refine .kept c (inductionHypothesis ?_)
      rwa [Nat.add_assoc]

/-- A text that stays as it is. -/
theorem all (text : List Char) : Keeps mayGo offset text text := by
  have whole : Keeps mayGo offset (text ++ []) (text ++ []) := copied text .nothing
  simpa using whole

end Keeps

namespace Text

variable {source : List Char}

/-- A stretch of whole characters. -/
abbrev Whole (source : List Char) (span : Span) : Prop :=
  Run (fun _ => true) source span.start span.stop

/-- What stands between two parts of a text is cut out of it. -/
theorem cut?_append (before between behind : List Char) :
    cut? (before ++ between ++ behind) (size before) (size before + size between) =
      some between := by
  have inner : splitAt? (size between) (between ++ behind) = some (between, behind) :=
    splitAt?_append between behind
  simp [cut?, splitAt?_append before, inner]

/-- A stretch of a text is parted by whole characters in it. -/
theorem exists_parts {span : Span} {before stretch behind : List Char} (whole : Whole source span)
    (joined : source = before ++ stretch ++ behind) (begins : size before ≤ span.start)
    (ends : span.stop ≤ size before + size stretch) :
    ∃ gap inner rest, stretch = gap ++ inner ++ rest ∧ size before + size gap = span.start ∧
      span.start + size inner = span.stop := by
  obtain ⟨front, inner, back, parted, starts, stops, _⟩ := whole
  have same : before ++ (stretch ++ behind) = front ++ (inner ++ back) := by
    rw [← List.append_assoc, ← joined, parted, List.append_assoc]
  obtain ⟨gap, rfl, left⟩ := exists_append_of_size_le same (by omega)
  rw [← List.append_assoc] at left
  obtain ⟨rest, rfl, -⟩ := exists_append_of_size_le left.symm (by
    simp only [size_append] at starts stops ⊢
    omega)
  simp only [size_append] at starts stops
  exact ⟨gap, inner, rest, rfl, by omega, by omega⟩

/-- Two runs that meet are one. -/
theorem Run.join {accepts : Char → Bool} {start middle stop : Nat}
    (first : Run accepts source start middle) (second : Run accepts source middle stop) :
    Run accepts source start stop := by
  obtain ⟨before, between, behind, joined, rfl, rfl, accepted⟩ := first
  obtain ⟨before', between', behind', joined', starts, rfl, accepted'⟩ := second
  rw [joined] at joined'
  have same : before ++ between = before' := by
    rw [List.append_assoc before'] at joined'
    obtain ⟨rest, longer, _⟩ := exists_append_of_size_le joined' (by simp [starts])
    have bytes := congrArg size longer
    simp only [size_append] at bytes starts
    have empty : rest = [] := size_eq_zero.mp (by omega)
    rw [longer, empty, List.append_nil]
  subst same
  refine ⟨before, between ++ between', behind', ?_, rfl, by simp; omega, fun c member => ?_⟩
  · rw [joined, joined']
    simp
  · exact (List.mem_append.mp member).elim (accepted c) (accepted' c)

end Text

namespace Edit

open Text (cut? size Whole)

variable {source : List Char} {mayGo : Span → Prop} {cursor stop : Nat} {edits : List Edit}

/-- Edits each of which starts where the one before it ends, or behind that, up to an offset. -/
def InLine (stop : Nat) : (cursor : Nat) → List Edit → Prop
  | cursor, [] => cursor ≤ stop
  | cursor, edit :: rest =>
    cursor ≤ edit.span.start ∧ edit.span.start ≤ edit.span.stop ∧
      InLine stop edit.span.stop rest

theorem InLine.le (inLine : InLine stop cursor edits) : cursor ≤ stop := by
  induction edits generalizing cursor with
  | nil => exact inLine
  | cons edit rest inductionHypothesis =>
      obtain ⟨begins, ordered, behind⟩ := inLine
      have := inductionHypothesis behind
      omega

/-- The edits that are taken stand in line. -/
theorem inLine_taken (within : ∀ edit ∈ edits, edit.span.start ≤ edit.span.stop ∧
    edit.span.stop ≤ stop) (reached : cursor ≤ stop) :
    InLine stop cursor (taken cursor edits) := by
  induction edits generalizing cursor with
  | nil => exact reached
  | cons edit rest inductionHypothesis =>
      obtain ⟨⟨ordered, ends⟩, others⟩ := List.forall_mem_cons.mp within
      unfold taken
      split
      · exact inductionHypothesis others reached
      · rename_i behind
        exact ⟨Nat.le_of_not_lt behind, ordered, inductionHypothesis others ends⟩

/-- The edits in line before one of them, and those behind it. -/
theorem InLine.split {edit : Edit} {before behind : List Edit}
    (inLine : InLine stop cursor (before ++ edit :: behind)) :
    InLine edit.span.start cursor before ∧ edit.span.start ≤ edit.span.stop ∧
      InLine stop edit.span.stop behind := by
  induction before generalizing cursor with
  | nil => exact inLine
  | cons first rest inductionHypothesis =>
      obtain ⟨begins, ordered, more⟩ := inLine
      obtain ⟨front, isOrdered, back⟩ := inductionHypothesis more
      exact ⟨⟨begins, ordered, front⟩, isOrdered, back⟩

/-- The text around an edit that is taken. -/
theorem splice_append (edit : Edit) (before behind : List Edit) :
    splice source stop cursor (before ++ edit :: behind) =
      splice source edit.span.start cursor before ++ edit.text.toList ++
        splice source stop edit.span.stop behind := by
  induction before generalizing cursor with
  | nil => rfl
  | cons first rest inductionHypothesis =>
      rw [List.cons_append, splice, inductionHypothesis, splice]
      simp only [List.append_assoc]

/-- What stands before the first edit is copied, and then the edit speaks. -/
theorem splice_at (edit : Edit) (edits : List Edit) (front gap rest : List Char)
    (joined : source = front ++ gap ++ rest) (begins : size front = cursor)
    (starts : cursor + size gap = edit.span.start) :
    splice source stop cursor (edit :: edits) =
      gap ++ edit.text.toList ++ splice source stop edit.span.stop edits := by
  have cut : cut? source cursor edit.span.start = some gap := by
    rw [joined, ← starts, ← begins]
    exact Text.cut?_append ..
  rw [splice, cut, Option.getD_some]

/-- Edits in line that take up what may be gone, or nothing, leave the rest of a stretch. -/
theorem keeps_splice (before stretch behind : List Char) (inLine : InLine stop cursor edits)
    (sound : ∀ edit ∈ edits, Whole source edit.span ∧
      (edit.isInsertion = true ∨ mayGo edit.span))
    (joined : source = before ++ stretch ++ behind) (begins : size before = cursor)
    (ends : size before + size stretch = stop) :
    Keeps mayGo cursor stretch (splice source stop cursor edits) := by
  induction edits generalizing cursor before stretch with
  | nil =>
      have cut : cut? source cursor stop = some stretch := by
        rw [joined, ← begins, ← ends]
        exact Text.cut?_append ..
      rw [splice, cut]
      exact .all _
  | cons edit rest inductionHypothesis =>
      obtain ⟨reached, ordered, inLineRest⟩ := inLine
      obtain ⟨⟨whole, allowed⟩, soundRest⟩ := List.forall_mem_cons.mp sound
      have upTo := inLineRest.le
      obtain ⟨kept, taken, more, rfl, starts, stops⟩ :=
        Text.exists_parts whole joined (by omega) (by omega)
      rw [splice_at edit rest before kept (taken ++ more ++ behind) (by simp [joined]) begins
        (by omega), List.append_assoc, List.append_assoc kept]
      refine .copied kept (.put _ ?_)
      simp only [Text.size_append] at ends
      have onwards := inductionHypothesis (before ++ kept ++ taken) more inLineRest soundRest
        (by simp [joined])
        (by simp only [Text.size_append]; omega) (by simp only [Text.size_append]; omega)
      rw [begins] at starts
      rw [starts]
      rcases allowed with inserts | may
      · have same : edit.span.start = edit.span.stop := by simpa [isInsertion] using inserts
        have empty : taken = [] := Text.size_eq_zero.mp (by omega)
        rw [empty, List.nil_append, same]
        exact onwards
      · have stops : edit.span.start + size taken = edit.span.stop := by omega
        refine .gone ?_ ?_
        · rw [stops]
          exact may
        · rw [stops]
          exact onwards

theorem mem_of_mem_taken {edit : Edit} (member : edit ∈ taken cursor edits) : edit ∈ edits := by
  induction edits generalizing cursor with
  | nil => exact member
  | cons first rest inductionHypothesis =>
      unfold taken at member
      split at member
      · exact List.mem_cons_of_mem _ (inductionHypothesis member)
      · rcases List.mem_cons.mp member with rfl | more
        · exact List.mem_cons_self
        · exact List.mem_cons_of_mem _ (inductionHypothesis more)

/-- Of sorted edits a replacement that no other one takes up is taken. -/
theorem mem_taken {all : List Edit} {edit : Edit} (nested : Nested all)
    (sorted : edits.Pairwise fun first second => precedes first second = true)
    (among : ∀ other ∈ edits, other ∈ all) (replaces : edit.isInsertion = false)
    (alone : ∀ other ∈ all, other.isInsertion = false →
      other.span.contains edit.span = true → other = edit)
    (member : edit ∈ edits) (ahead : cursor ≤ edit.span.start) :
    edit ∈ taken cursor edits := by
  induction edits generalizing cursor with
  | nil => cases member
  | cons first rest inductionHypothesis =>
      obtain ⟨before, sortedRest⟩ := List.pairwise_cons.mp sorted
      have amongRest : ∀ other ∈ rest, other ∈ all := fun other isOther =>
        among other (by simp [isOther])
      have isFirst : first ∈ all := among first (by simp)
      unfold taken
      rcases List.mem_cons.mp member with rfl | more
      · rw [if_neg (by omega)]
        exact List.mem_cons_self
      · split
        · exact inductionHypothesis sortedRest amongRest more ahead
        · by_cases clear : first.span.stop ≤ edit.span.start
          · exact List.mem_cons_of_mem _
              (inductionHypothesis sortedRest amongRest more clear)
          · -- An edit that reaches into this one takes it up.
            have earlier := before edit more
            have ends := nested.stop_le isFirst (amongRest edit more) replaces earlier (by omega)
            have starts : first.span.start ≤ edit.span.start := by
              rcases precedes_iff.mp earlier with less | ⟨same, _⟩ <;> omega
            have firstReplaces : first.isInsertion = false := by
              simp only [isInsertion, beq_eq_false_iff_ne]
              omega
            rw [alone first isFirst firstReplaces (Span.contains_iff.mpr ⟨starts, ends⟩)]
            exact List.mem_cons_self

/-- The edits of a text that are taken. -/
def takenIn (edits : List Edit) (source : List Char) : List Edit :=
  taken 0 ((edits.filter fun edit =>
    (Span.mk 0 (size source)).contains edit.span && true).mergeSort precedes)

theorem apply_eq (edits : List Edit) (source : List Char) :
    apply edits source = splice source (size source) 0 (takenIn edits source) := rfl

/-- A text without edits. -/
theorem apply_nil (source : List Char) : apply [] source = source := by
  have cut : cut? source 0 (size source) = some source := by
    simpa using Text.cut?_append [] source []
  rw [apply_eq, takenIn, List.filter_nil, List.mergeSort_nil, taken, splice, cut]
  rfl

theorem mem_of_mem_takenIn {edit : Edit} (member : edit ∈ takenIn edits source) :
    edit ∈ edits :=
  (List.mem_filter.mp (List.mem_mergeSort.mp (mem_of_mem_taken member))).1

/-- Edits of whole characters that are taken stand in line. -/
theorem inLine_takenIn (whole : ∀ edit ∈ edits, Whole source edit.span) :
    InLine (size source) 0 (takenIn edits source) := by
  refine inLine_taken (fun edit member => ?_) (Nat.zero_le _)
  have run := whole edit (List.mem_filter.mp (List.mem_mergeSort.mp member)).1
  exact ⟨run.le, run.le_size⟩

/-- Edits that take up what may be gone, or nothing, leave the rest of a text. -/
theorem keeps_apply (sound : ∀ edit ∈ edits, Whole source edit.span ∧
    (edit.isInsertion = true ∨ mayGo edit.span)) : Keeps mayGo 0 source (apply edits source) :=
  keeps_splice [] source []
    (inLine_takenIn fun edit member => (sound edit member).1)
    (fun edit member => sound edit (mem_of_mem_takenIn member)) (by simp) rfl (by simp)

/-- A replacement that no other one takes up stands in the edited text. -/
theorem shows_apply {edit : Edit} (nested : Nested edits)
    (sound : ∀ edit ∈ edits, Whole source edit.span ∧
      (edit.isInsertion = true ∨ mayGo edit.span))
    (member : edit ∈ edits) (replaces : edit.isInsertion = false)
    (alone : ∀ other ∈ edits, other.isInsertion = false →
      other.span.contains edit.span = true → other = edit) :
    Shows mayGo source edit.span edit.text.toList (apply edits source) := by
  have whole := (sound edit member).1
  have inRange : (Span.mk 0 (size source)).contains edit.span = true :=
    Span.contains_iff.mpr ⟨Nat.zero_le _, whole.le_size⟩
  let inside := edits.filter fun edit => (Span.mk 0 (size source)).contains edit.span && true
  have among : ∀ other ∈ inside.mergeSort precedes, other ∈ edits := fun other isOther =>
    (List.mem_filter.mp (List.mem_mergeSort.mp isOther)).1
  have isTaken : edit ∈ takenIn edits source :=
    mem_taken nested (sorted_mergeSort inside) among replaces alone
      (List.mem_mergeSort.mpr (List.mem_filter.mpr ⟨member, by simp [inRange]⟩)) (Nat.zero_le _)
  obtain ⟨earlier, later, parted⟩ := List.append_of_mem isTaken
  have inLine := inLine_takenIn fun edit member => (sound edit member).1
  rw [parted] at inLine
  obtain ⟨lineBefore, _, lineBehind⟩ := inLine.split
  have soundIn {other : Edit} (isOther : other ∈ earlier ++ edit :: later) :=
    sound other (mem_of_mem_takenIn (by rwa [parted]))
  obtain ⟨before, taken, behind, joined, starts, stops, _⟩ := whole
  rw [apply_eq, parted, splice_append]
  refine .between joined starts stops ?_ ?_
  · exact keeps_splice [] before (taken ++ behind) lineBefore
      (fun other isOther => soundIn (by simp [isOther])) (by simp [joined]) rfl (by simp [starts])
  · exact keeps_splice (before ++ taken) behind [] lineBehind
      (fun other isOther => soundIn (by simp [isOther])) (by simp [joined])
      (by simp [stops]) (by simp [joined, Nat.add_assoc])

end Edit

end StopMotion
