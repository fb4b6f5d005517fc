import StopMotion.Proofs.Syntax.Visit
import StopMotion.Proofs.Transpile

/-!
# Layers of a report

The findings of a report stand in blocks, one for each layer that ran, and a type checker fills
one of the blocks. So what a checker answers changes nothing in the other blocks, what it objects
to can only take a component out of use, and a checker that gives no answer is as good as one that
has nothing to object to.
-/

namespace StopMotion.Validation

open StopMotion.Syntax StopMotion.State StopMotion.Checker

/-! ## Findings by layer -/

/-- The position of a layer in a validation. -/
def Layer.rank : Layer → Nat
  | syntactic => 0
  | variableFlow => 1
  | typeCheck => 2
  | template => 3
  | domain => 4

/-- The layer that a finding comes from. -/
def Finding.layer (finding : Finding) : Layer := finding.problem.layer

@[simp] theorem layer_locate (index : LineIndex) (concern : Concern) :
    (locate index concern).layer = concern.problem.layer := rfl

@[simp] theorem span_locate (index : LineIndex) (concern : Concern) :
    (locate index concern).span = concern.span := rfl

namespace Report

/-- The findings of some layers. -/
def ofLayers (report : Report) (which : Layer → Bool) : List Finding :=
  report.findings.filter fun finding => which finding.layer

/-- The findings of one layer. -/
def ofLayer (report : Report) (layer : Layer) : List Finding :=
  report.ofLayers fun other => other = layer

/-- The findings of all layers but one. -/
def besides (report : Report) (layer : Layer) : List Finding :=
  report.ofLayers fun other => other ≠ layer

end Report

/-- The report on a text where the checker, if it is asked, gives a verdict. -/
def reportOn (text identifier : String) (verdict : Verdict) : Report :=
  Id.run (validate (fun _ => pure verdict) text identifier)

/-! ## Diagnostics as findings -/

/-- The offset in a text that a diagnostic points to. -/
def place (text : String) (diagnostic : Diagnostic) : Nat :=
  (LineIndex.of text.toList).offsetUnits16 text.toList diagnostic.line diagnostic.column

/-- The finding that a diagnostic of a text becomes. -/
def findingOf (text : String) (diagnostic : Diagnostic) : Finding :=
  locate (LineIndex.of text.toList)
    ⟨Span.point (place text diagnostic), .ofChecker diagnostic.code diagnostic.message⟩

/-- Whether a diagnostic points to where a finding about a name begins. -/
def Report.hasName (report : Report) (text : String) (diagnostic : Diagnostic) : Bool :=
  (report.ofLayer .variableFlow).any fun finding => finding.span.start == place text diagnostic

/-- What a checker says becomes findings, one for each diagnostic that does not point to where a
known span begins. -/
theorem map_checkConcerns (text : String) (known : List Span) (diagnostics : List Diagnostic) :
    (checkConcerns text.toList (LineIndex.of text.toList) known (.ok diagnostics)).map
        (locate (LineIndex.of text.toList)) =
      (diagnostics.filter fun diagnostic =>
        !known.any fun span => span.start == place text diagnostic).map (findingOf text) := by
  have isFound : checkConcerns text.toList (LineIndex.of text.toList) known (.ok diagnostics) =
      diagnostics.filterMap fun diagnostic =>
        if known.any fun span => span.start == place text diagnostic then none
        else some ⟨Span.point (place text diagnostic),
          .ofChecker diagnostic.code diagnostic.message⟩ := rfl
  rw [isFound]
  clear isFound
  induction diagnostics with
  | nil => rfl
  | cons diagnostic rest inductionHypothesis =>
      rw [List.filterMap_cons, List.filter_cons]
      by_cases isKnown : (known.any fun span => span.start == place text diagnostic) = true
      · rw [if_pos isKnown, if_neg (by simp [isKnown])]
        exact inductionHypothesis
      · rw [if_neg isKnown, if_pos (by simpa using isKnown)]
        exact congrArg (findingOf text diagnostic :: ·) inductionHypothesis

/-! ## Blocks of concerns -/

/-- The concerns about names that nothing declares. -/
def nameConcerns (module : Module) : List Concern :=
  (undeclared module).map fun name => ⟨name.span, .notDefined name.text⟩

/-- Whether concerns come from one layer. -/
def Stems (concerns : List Concern) (layer : Layer) : Prop :=
  ∀ concern ∈ concerns, concern.problem.layer = layer

theorem stems_nameConcerns (module : Module) : Stems (nameConcerns module) .variableFlow := by
  intro concern member
  obtain ⟨name, -, rfl⟩ := List.mem_map.mp member
  rfl

theorem stems_checkConcerns (text : List Char) (index : LineIndex) (known : List Span)
    (verdict : Verdict) : Stems (checkConcerns text index known verdict) .typeCheck := by
  intro concern member
  cases verdict with
  | error reason =>
      obtain rfl := List.mem_singleton.mp member
      rfl
  | ok diagnostics =>
      obtain ⟨diagnostic, -, taken⟩ := List.mem_filterMap.mp member
      dsimp only at taken
      split at taken
      · cases taken
      · cases taken
        rfl

theorem stems_sentinels (module : Module) : Stems (sentinels module) .template := by
  intro concern member
  obtain ⟨stmt, -, inStmt⟩ := List.mem_flatMap.mp member
  obtain ⟨inner, -, -, found⟩ := Node.exists_of_mem_collect stmt inStmt
  unfold ownSentinels at found
  split at found
  · obtain ⟨expr, -, isSentinel⟩ := List.mem_filterMap.mp found
    obtain ⟨sentinel, -, rfl⟩ := Option.map_eq_some_iff.mp isSentinel
    rfl
  · obtain ⟨sentinel, -, rfl⟩ := Option.map_eq_some_iff.mp (Option.mem_toList.mp found)
    rfl
  · obtain ⟨given, -, isSentinel⟩ := List.mem_filterMap.mp found
    unfold attributeConcern? at isSentinel
    split at isSentinel
    · split at isSentinel
      · cases isSentinel
        rfl
      · split at isSentinel
        · cases isSentinel
          rfl
        · cases isSentinel
    · cases isSentinel
  · cases found

theorem stems_misuses (module : Module) : Stems (misuses module) .domain :=
  fun _ => layer_of_mem_misuses

/-- Of a block, all findings are of some layers or none is. -/
theorem Stems.filter_map {concerns : List Concern} {layer : Layer} (stems : Stems concerns layer)
    (index : LineIndex) (which : Layer → Bool) :
    (concerns.map (locate index)).filter (fun finding => which finding.layer) =
      if which layer then concerns.map (locate index) else [] := by
  have same : ∀ finding ∈ concerns.map (locate index), which finding.layer = which layer := by
    intro finding member
    obtain ⟨concern, isConcern, rfl⟩ := List.mem_map.mp member
    rw [layer_locate, stems concern isConcern]
  by_cases isWhich : which layer = true
  · rw [if_pos isWhich, List.filter_eq_self]
    intro finding member
    rw [same finding member, isWhich]
  · rw [if_neg isWhich, List.filter_eq_nil_iff]
    intro finding member
    rwa [same finding member]

/-- All findings of a block have the rank of its layer. -/
theorem Stems.map_rank {concerns : List Concern} {layer : Layer} (stems : Stems concerns layer)
    (index : LineIndex) :
    (concerns.map (locate index)).map (·.layer.rank) =
      List.replicate concerns.length layer.rank := by
  rw [List.map_map, List.eq_replicate_iff]
  constructor
  · rw [List.length_map]
  · intro rank member
    obtain ⟨concern, isConcern, rfl⟩ := List.mem_map.mp member
    exact congrArg Layer.rank (stems concern isConcern)

theorem source_of_parse {source : List Char} {module : Module}
    (parsed : parse source = .ok module) : module.source = source := by
  unfold parse at parsed
  cases body : readStatements source with
  | error error =>
      rw [body] at parsed
      cases parsed
  | ok statements =>
      rw [body] at parsed
      cases parsed
      rfl

section Readable

variable {text identifier : String} {module : Module}
  (parsed : parse text.toList = .ok module)

include parsed

/-- The findings about a text that can be read, block by block. -/
theorem findings_reportOn (identifier : String) (verdict : Verdict) :
    (reportOn text identifier verdict).findings =
      (nameConcerns module).map (locate (LineIndex.of text.toList)) ++
        (checkConcerns text.toList (LineIndex.of text.toList)
          ((undeclared module).map (·.span)) verdict).map (locate (LineIndex.of text.toList)) ++
        (sentinels module).map (locate (LineIndex.of text.toList)) ++
        (misuses module).map (locate (LineIndex.of text.toList)) := by
  have isReport : reportOn text identifier verdict =
      ⟨identifier, (concerns module (LineIndex.of text.toList) verdict).map
        (locate (LineIndex.of text.toList))⟩ := by
    rw [reportOn, validate_of_ok parsed]
    rfl
  rw [isReport, concerns, source_of_parse parsed]
  simp only [List.map_append, nameConcerns]

/-- The findings of some layers are the blocks of these layers. -/
theorem ofLayers_reportOn (identifier : String) (verdict : Verdict) (which : Layer → Bool) :
    (reportOn text identifier verdict).ofLayers which =
      (if which .variableFlow then
          (nameConcerns module).map (locate (LineIndex.of text.toList)) else []) ++
        (if which .typeCheck then
          (checkConcerns text.toList (LineIndex.of text.toList)
            ((undeclared module).map (·.span)) verdict).map
              (locate (LineIndex.of text.toList)) else []) ++
        (if which .template then
          (sentinels module).map (locate (LineIndex.of text.toList)) else []) ++
        (if which .domain then
          (misuses module).map (locate (LineIndex.of text.toList)) else []) := by
  rw [Report.ofLayers, findings_reportOn parsed]
  simp only [List.filter_append, (stems_nameConcerns module).filter_map,
    (stems_checkConcerns _ _ _ verdict).filter_map, (stems_sentinels module).filter_map,
    (stems_misuses module).filter_map]

/-- What a checker says against a component becomes a finding unless a name begins there that
nothing declares. -/
theorem ofLayer_typeCheck (identifier : String) (diagnostics : List Diagnostic) :
    (reportOn text identifier (.ok diagnostics)).ofLayer .typeCheck =
      (diagnostics.filter fun diagnostic =>
        !(reportOn text identifier (.ok diagnostics)).hasName text diagnostic).map
          (findingOf text) := by
  have isName (diagnostic : Diagnostic) :
      (reportOn text identifier (.ok diagnostics)).hasName text diagnostic =
        ((undeclared module).map (·.span)).any fun span => span.start == place text diagnostic := by
    rw [Report.hasName, Report.ofLayer, ofLayers_reportOn parsed]
    simp [nameConcerns, List.any_map, Function.comp_def]
  rw [Report.ofLayer, ofLayers_reportOn parsed]
  simp only [isName, reduceCtorEq, decide_false, decide_true, if_true, Bool.false_eq_true,
    if_false, List.nil_append, List.append_nil]
  exact map_checkConcerns text _ diagnostics

/-- The block of the type checker is all that depends on what it says. -/
theorem ofLayers_congr (identifier : String) {which : Layer → Bool}
    (others : which .typeCheck = false) (first second : Verdict) :
    (reportOn text identifier first).ofLayers which =
      (reportOn text identifier second).ofLayers which := by
  rw [ofLayers_reportOn parsed, ofLayers_reportOn parsed]
  simp only [others, Bool.false_eq_true, if_false]

/-- A checker that gives no answer leaves one finding, which does not block. -/
theorem ofLayer_uncheckable (identifier reason : String) :
    (reportOn text identifier (.error reason)).ofLayer .typeCheck =
      [locate (LineIndex.of text.toList) ⟨Span.point 0, .uncheckable reason⟩] := by
  rw [Report.ofLayer, ofLayers_reportOn parsed]
  simp [checkConcerns]

/-- The blocks stand in the order of their layers. -/
theorem pairwise_rank (identifier : String) (verdict : Verdict) :
    ((reportOn text identifier verdict).findings.map (·.layer.rank)).Pairwise (· ≤ ·) := by
  rw [findings_reportOn parsed]
  simp only [List.map_append, (stems_nameConcerns module).map_rank,
    (stems_checkConcerns _ _ _ verdict).map_rank, (stems_sentinels module).map_rank,
    (stems_misuses module).map_rank]
  simp only [List.pairwise_append, List.pairwise_replicate, List.mem_append, List.mem_replicate,
    Layer.rank]
  grind

end Readable

/-! ## Reports and verdicts -/

/-- A component passes if nothing blocks it, neither in one layer nor in the others. -/
theorem Report.isValid_iff_of_layer (report : Report) (layer : Layer) :
    report.isValid = true ↔
      (∀ finding ∈ report.ofLayer layer, finding.problem.isBlocking = false) ∧
        ∀ finding ∈ report.besides layer, finding.problem.isBlocking = false := by
  rw [isValid_iff]
  simp only [ofLayer, besides, ofLayers, List.mem_filter, decide_eq_true_eq]
  constructor
  · intro passes
    exact ⟨fun finding member => passes finding member.1,
      fun finding member => passes finding member.1⟩
  · rintro ⟨inLayer, others⟩ finding member
    by_cases isLayer : finding.layer = layer
    · exact inLayer finding ⟨member, isLayer⟩
    · exact others finding ⟨member, isLayer⟩

/-- A validation of a text does not ask the checker, whatever that could do. -/
def AsksNever (text identifier : String) : Prop :=
  ∀ {m : Type → Type} [Monad m] (check : String → m Verdict),
    validate check text identifier = pure (reportOn text identifier (.ok []))

/-- A validation of a text asks the checker about the text once, and what it answers is all that
the report takes from it. -/
def AsksOnce (text identifier : String) : Prop :=
  ∀ {m : Type → Type} [Monad m] (check : String → m Verdict),
    validate check text identifier = do return reportOn text identifier (← check text)

theorem asksNever_of_error {text : String} {error : SyntaxError}
    (unreadable : parse text.toList = .error error) (identifier : String) :
    AsksNever text identifier := by
  intro m _ check
  rw [reportOn, validate_of_error unreadable, validate_of_error unreadable]
  rfl

theorem asksOnce_of_ok {text : String} {module : Module} (parsed : parse text.toList = .ok module)
    (identifier : String) : AsksOnce text identifier := by
  intro m _ check
  simp only [reportOn, validate_of_ok parsed]
  rfl

/-- More diagnostics do not let a component pass that fewer kept out. -/
theorem isValid_of_subset {text : String} {module : Module}
    (parsed : parse text.toList = .ok module) (identifier : String)
    {diagnostics more : List Diagnostic} (included : diagnostics ⊆ more)
    (valid : (reportOn text identifier (.ok more)).isValid = true) :
    (reportOn text identifier (.ok diagnostics)).isValid = true := by
  rw [Report.isValid_iff_of_layer _ .typeCheck, ofLayer_typeCheck parsed] at valid ⊢
  obtain ⟨checks, others⟩ := valid
  have sameName (diagnostic : Diagnostic) :
      (reportOn text identifier (.ok more)).hasName text diagnostic =
        (reportOn text identifier (.ok diagnostics)).hasName text diagnostic := by
    rw [Report.hasName, Report.hasName, Report.ofLayer, Report.ofLayer,
      ofLayers_congr parsed identifier rfl (.ok more) (.ok diagnostics)]
  constructor
  · intro finding member
    obtain ⟨diagnostic, isTaken, rfl⟩ := List.mem_map.mp member
    obtain ⟨isIn, isNew⟩ := List.mem_filter.mp isTaken
    rw [← sameName] at isNew
    exact checks _ (List.mem_map_of_mem (List.mem_filter.mpr ⟨included isIn, isNew⟩))
  · rwa [Report.besides, ofLayers_congr parsed identifier rfl (.ok diagnostics) (.ok more)]

/-- A checker that gives no answer is as good as one that has nothing to object to. -/
theorem isValid_uncheckable {text : String} {module : Module}
    (parsed : parse text.toList = .ok module) (identifier reason : String) :
    (reportOn text identifier (.error reason)).isValid =
      (reportOn text identifier (.ok [])).isValid := by
  rw [Bool.eq_iff_iff, Report.isValid_iff_of_layer _ .typeCheck,
    Report.isValid_iff_of_layer _ .typeCheck, ofLayer_uncheckable parsed,
    ofLayer_typeCheck parsed, Report.besides, Report.besides,
    ofLayers_congr parsed identifier rfl (.error reason) (.ok [])]
  simp only [List.forall_mem_singleton, List.filter_nil, List.map_nil, List.not_mem_nil,
    false_implies, implies_true, true_and, and_iff_right_iff_imp]
  exact fun _ => rfl

/-- What the reports on a text are like, whatever the checker answers. -/
structure Layered (text identifier : String) : Prop where
  /-- A text that cannot be read has one finding, which is critical. -/
  unreadable (error : SyntaxError) (isError : parse text.toList = .error error) :
    AsksNever text identifier ∧ ∀ verdict, ∃ finding,
      (reportOn text identifier verdict).findings = [finding] ∧ finding.layer = .syntactic ∧
        finding.problem.severity = .critical
  /-- A text that can be read has no finding about how it is read. -/
  readable (module : Module) (isRead : parse text.toList = .ok module) :
    AsksOnce text identifier ∧
      ∀ verdict, (reportOn text identifier verdict).ofLayer .syntactic = []
  /-- What the checker is asked. -/
  asked (answer : String → Verdict) :
    (validate (recorded answer) text identifier).run [] =
      (reportOn text identifier (answer text), if (parse text.toList).isOk then [text] else [])
  ordered (verdict : Verdict) :
    ((reportOn text identifier verdict).findings.map (·.layer.rank)).Pairwise (· ≤ ·)
  passes (verdict : Verdict) : (reportOn text identifier verdict).isValid = true ↔
    ∀ finding ∈ (reportOn text identifier verdict).findings, finding.problem.isBlocking = false
  /-- The diagnostics become findings in their order, those about undeclared names apart. -/
  checked (module : Module) (isRead : parse text.toList = .ok module)
    (diagnostics : List Diagnostic) :
    (reportOn text identifier (.ok diagnostics)).ofLayer .typeCheck =
      (diagnostics.filter fun diagnostic =>
        !(reportOn text identifier (.ok diagnostics)).hasName text diagnostic).map
          (findingOf text)
  /-- No answer of the checker matters to the other layers. -/
  besides (first second : Verdict) : (reportOn text identifier first).besides .typeCheck =
    (reportOn text identifier second).besides .typeCheck
  uncheckable (reason : String) : (reportOn text identifier (.error reason)).isValid =
    (reportOn text identifier (.ok [])).isValid
  stricter {diagnostics more : List Diagnostic} (included : diagnostics ⊆ more)
    (valid : (reportOn text identifier (.ok more)).isValid = true) :
    (reportOn text identifier (.ok diagnostics)).isValid = true

/-- The checker is asked at most once and fills a layer of its own, which can take a component out
of use and cannot bring one back. -/
theorem validate_layered (text identifier : String) : Layered text identifier := by
  cases input : parse text.toList with
  | error error =>
      have isReport (verdict : Verdict) : reportOn text identifier verdict =
          ⟨identifier, [locate (LineIndex.of text.toList) ⟨error.span, .unreadable error.cause⟩]⟩ := by
        rw [reportOn, validate_of_error input]
        rfl
      constructor
      · intro _ _
        exact ⟨asksNever_of_error input identifier,
          fun verdict => ⟨_, congrArg Report.findings (isReport verdict), rfl, rfl⟩⟩
      · intro module isRead
        cases input.symm.trans isRead
      · intro answer
        rw [run_validate_of_error answer input, isReport, input]
        rfl
      · intro verdict
        simp [isReport]
      · exact fun verdict => Report.isValid_iff _
      · intro module isRead
        cases input.symm.trans isRead
      · intro first second
        rw [isReport, isReport]
      · intro reason
        rw [isReport, isReport]
      · intro diagnostics more _ valid
        rwa [isReport] at valid ⊢
  | ok module =>
      constructor
      · intro error isError
        cases input.symm.trans isError
      · intro _ _
        constructor
        · exact asksOnce_of_ok input identifier
        · intro verdict
          rw [Report.ofLayer, ofLayers_reportOn input]
          rfl
      · intro answer
        rw [asksOnce_of_ok input identifier, input]
        rfl
      · exact pairwise_rank input identifier
      · exact fun verdict => Report.isValid_iff _
      · exact fun _ _ => ofLayer_typeCheck input identifier
      · exact ofLayers_congr input identifier rfl
      · exact isValid_uncheckable input identifier
      · exact fun included => isValid_of_subset input identifier included

end StopMotion.Validation
