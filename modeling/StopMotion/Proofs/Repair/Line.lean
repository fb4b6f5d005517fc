import StopMotion.Proofs.Repair.Pass

/-!
# Passes over plain lines

In a text without slashes, backticks and backslashes a step that begins in code stays in code and
ends with its line at the latest: a literal that does not close takes the rest of the line, and no
more. So what stands in such lines does not matter to the lines behind them, apart from the braces
that they open.
-/

namespace StopMotion.Repair

open Text (size)

/-- A character that begins no comment, no regular expression, no template and no escape. -/
def Plain (c : Char) : Prop := c ≠ '/' ∧ c ≠ '`' ∧ c ≠ '\\'

instance : DecidablePred Plain :=
  fun c => inferInstanceAs (Decidable (c ≠ '/' ∧ c ≠ '`' ∧ c ≠ '\\'))

/-- Whether a quote stands twice in a row. -/
def doubles : List Char → Bool
  | [] => false
  | c :: rest => (rest.head?.any fun next => decide ¬Apart c next) || doubles rest

theorem isChain_of_doubles {text : List Char} (single : doubles text = false) :
    text.IsChain Apart := by
  induction text with
  | nil => exact .nil
  | cons c rest inductionHypothesis =>
      obtain ⟨first, later⟩ := Bool.or_eq_false_iff.mp single
      apply List.isChain_cons.mpr
      constructor
      · intro next isNext
        rw [isNext] at first
        simpa using first
      · exact inductionHypothesis later

/-! ## What stops at the end of a line -/

/-- The characters of a kind at the beginning of a text end before a character of another kind. -/
theorem takeWhile_append_cons {kind : Char → Bool} {stop : Char} (other : kind stop = false)
    (text rest : List Char) :
    (text ++ stop :: rest).takeWhile kind = text.takeWhile kind := by
  have stopped : (stop :: rest).takeWhile kind = [] := by
    rw [List.takeWhile_cons, other]
    rfl
  rw [List.takeWhile_append, stopped, List.append_nil]
  split
  · rename_i whole
    exact ((List.takeWhile_prefix kind).eq_of_length whole).symm
  · rfl

theorem takeWhile_length_le {kind : Char → Bool} {stop : Char} (other : kind stop = false)
    (text rest : List Char) : ((text ++ stop :: rest).takeWhile kind).length ≤ text.length := by
  rw [takeWhile_append_cons other]
  exact (List.takeWhile_prefix kind).length_le

/-- A run of quotes ends with its line. -/
theorem takeWhile_quote_line {quote : Char} (isQuote : IsQuote quote) (text rest : List Char) :
    (text ++ '\n' :: rest).takeWhile (· == quote) = text.takeWhile (· == quote) := by
  rcases isQuote with rfl | rfl <;> exact takeWhile_append_cons rfl text rest

theorem lineLength_line_le (text rest : List Char) :
    lineLength (text ++ '\n' :: rest) ≤ text.length :=
  takeWhile_length_le rfl text rest

/-- A literal without escapes that closes does so on its line. -/
theorem bodyLength?_line_lt {quote : Char} {text rest : List Char} {body : Nat}
    (plain : ∀ c ∈ text, Plain c)
    (found : bodyLength? quote false (text ++ '\n' :: rest) = some body) : body < text.length := by
  induction text generalizing body with
  | nil =>
      rw [List.nil_append, bodyLength?] at found
      cases found
  | cons c text inductionHypothesis =>
      have unescaped : c ≠ '\\' := (plain c List.mem_cons_self).2.2
      rw [List.cons_append, bodyLength?, if_neg Bool.false_ne_true, if_neg unescaped] at found
      split_ifs at found with _ closes
      · cases found
        exact Nat.zero_lt_succ _
      · obtain ⟨inner, answered, rfl⟩ := Option.map_eq_some_iff.mp found
        have shorter := inductionHypothesis (fun c member => plain c (List.mem_cons_of_mem _ member))
          answered
        exact Nat.succ_lt_succ shorter

theorem plainLength_line_le {text : List Char} (plain : ∀ c ∈ text, Plain c) (quote : Char)
    (rest : List Char) : plainLength quote (text ++ '\n' :: rest) ≤ text.length := by
  unfold plainLength
  split
  · rename_i found
    exact bodyLength?_line_lt plain found
  · exact lineLength_line_le text rest

/-- The quotes behind a literal are deleted on its line. -/
theorem trailing_line_le {quote : Char} (isQuote : IsQuote quote) (offset : Nat)
    (kept text rest : List Char) :
    (trailing quote offset kept (text ++ '\n' :: rest)).1 ≤ text.length := by
  unfold trailing
  dsimp only
  rw [takeWhile_quote_line isQuote]
  split
  · exact (List.takeWhile_prefix _).length_le
  · exact Nat.zero_le _

/-- A value ends with its line. -/
theorem valueString_line_le {quote : Char} (isQuote : IsQuote quote) (offset : Nat)
    {text : List Char} (plain : ∀ c ∈ text, Plain c) (rest : List Char) :
    (valueString quote offset (text ++ '\n' :: rest)).1 ≤ text.length := by
  obtain ⟨count, following, rfl, quotes⟩ := exists_run quote text
  have plainBehind : ∀ c ∈ following, Plain c := fun c member =>
    plain c (List.mem_append_right _ member)
  have run : (List.replicate count quote ++ following ++ '\n' :: rest).takeWhile (· == quote) =
      List.replicate count quote := by
    rw [takeWhile_quote_line isQuote, quotes]
  have behindRun : (List.replicate count quote ++ following ++ '\n' :: rest).drop count =
      following ++ '\n' :: rest := by
    rw [List.append_assoc]
    exact List.drop_left' List.length_replicate
  have whole : (List.replicate count quote ++ following).length = count + following.length := by
    rw [List.length_append, List.length_replicate]
  unfold valueString
  simp only [run, List.length_cons, List.length_replicate, Nat.add_sub_cancel, behindRun, whole]
  split
  · rename_i body found
    have closes : bodyLength? quote false (following ++ '\n' :: rest) = some body := by
      split at found
      · exact found
      · cases found
    have within : body + 1 ≤ following.length := bodyLength?_line_lt plainBehind closes
    have stray := trailing_line_le isQuote
      (offset + size ((quote :: List.replicate count quote ++
        (following ++ '\n' :: rest).take (body + 1)).take count))
      ((quote :: List.replicate count quote ++
        (following ++ '\n' :: rest).take (body + 1)).drop count)
      (following.drop (body + 1)) rest
    rw [List.drop_append_of_le_length within, List.length_drop] at *
    omega
  · have line := lineLength_line_le following rest
    split_ifs with single pair opens
    · obtain rfl : count = 0 := by omega
      simpa using line
    · dsimp only
      omega
    · dsimp only
      omega
    · dsimp only
      omega

/-! ## Steps -/

/-- In code, behind which nothing surrounds it, a step over a plain line stays in such code and on
the line. -/
theorem codeStep_line (depth : Nat) (last : Last) (offset : Nat) {c : Char} {text : List Char}
    (plain : ∀ d ∈ c :: text, Plain d) (rest : List Char) :
    (codeStep depth [] last offset c (text ++ '\n' :: rest)).behind ≤ text.length ∧
      ∃ depth', (codeStep depth [] last offset c (text ++ '\n' :: rest)).contexts =
        [.code depth'] := by
  obtain ⟨slash, backtick, -⟩ := plain c List.mem_cons_self
  have behind : ∀ d ∈ text, Plain d := fun d member => plain d (List.mem_cons_of_mem _ member)
  unfold codeStep
  dsimp only
  split_ifs with blank lineComment comment regex quotes value opens closes outermost word
  · exact ⟨Nat.zero_le _, depth, rfl⟩
  · exact absurd lineComment.1 slash
  · exact absurd comment.1 slash
  · exact absurd regex.1 slash
  · exact ⟨valueString_line_le quotes offset behind rest, depth, rfl⟩
  · exact ⟨plainLength_line_le behind c rest, depth, rfl⟩
  · exact ⟨Nat.zero_le _, depth + 1, rfl⟩
  · cases depth with
    | zero => exact ⟨Nat.zero_le _, 0, rfl⟩
    | succ depth => exact ⟨Nat.zero_le _, depth, rfl⟩
  · exact absurd rfl outermost
  · exact ⟨takeWhile_length_le rfl text rest, depth, rfl⟩
  · exact ⟨Nat.zero_le _, depth, rfl⟩

/-! ## Lines -/

/-- Plain lines in which no quote stands twice are left alone, and behind them is code. The
induction is on the length of the lines, as a step may pass over more than one character. -/
theorem scan_lines {lines : List Char} (plain : ∀ c ∈ lines, Plain c)
    (single : lines.IsChain Apart) (depth : Nat) (last : Last) (offset : Nat) (rest : List Char) :
    ∃ depth' last', scan 0 [.code depth] last offset (lines ++ '\n' :: rest) =
      scan 0 [.code depth'] last' (offset + size lines + 1) rest := by
  induction length : lines.length using Nat.strong_induction_on
    generalizing lines depth last offset with
  | _ bound inductionHypothesis =>
      subst length
      cases lines with
      | nil => exact ⟨depth, last, rfl⟩
      | cons c text =>
          obtain ⟨within, depth', contexts⟩ := codeStep_line depth last offset plain rest
          obtain ⟨-, result, thins⟩ := fits_codeStep depth [] last offset c (text ++ '\n' :: rest)
          rw [List.cons_append, scan]
          change ∃ _ _, (codeStep depth [] last offset c (text ++ '\n' :: rest)).deletions ++
            scan (codeStep depth [] last offset c (text ++ '\n' :: rest)).behind
              (codeStep depth [] last offset c (text ++ '\n' :: rest)).contexts
              (codeStep depth [] last offset c (text ++ '\n' :: rest)).last _ _ = _
          generalize codeStep depth [] last offset c (text ++ '\n' :: rest) = found
            at within contexts thins
          rw [List.take_append_of_le_length within] at thins
          have nothing : found.deletions = [] :=
            thins.eq_nil_of_isChain (single.take (found.behind + 1))
          have shorter : (text.drop found.behind).length < (c :: text).length := by
            rw [List.length_drop, List.length_cons]
            omega
          obtain ⟨depth'', last'', later⟩ := inductionHypothesis _ shorter
            (fun d member => plain d (List.mem_cons_of_mem _ (List.mem_of_mem_drop member)))
            (single.tail.drop found.behind) depth' found.last
            (offset + c.utf8Size + size (text.take found.behind)) rfl
          refine ⟨depth'', last'', ?_⟩
          rw [nothing, List.nil_append, contexts, scan_skip, List.take_append_of_le_length within,
            List.drop_append_of_le_length within, later, Text.size_cons]
          congr 1
          have parts := Text.size_append (text.take found.behind) (text.drop found.behind)
          rw [List.take_append_drop] at parts
          omega

end StopMotion.Repair
