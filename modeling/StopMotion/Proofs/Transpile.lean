import StopMotion.Proofs.Repair.FixedPoint
import StopMotion.Proofs.Validation.Report
import StopMotion.Transpile

/-!
# What comes out of a transpilation

The text that is repaired last is the text that is validated and handed out, so what the
validation says of it holds of what is used. A record of the texts that the checker is asked about
tells that it is asked about this text only, and about none where the artifact cannot be read.
-/

namespace StopMotion

open StopMotion.Syntax StopMotion.Validation StopMotion.Checker

/-- A checker that answers by the text alone and keeps a record of the texts that it is asked
about. -/
def recorded (answer : String → Verdict) (text : String) : StateM (List String) Verdict :=
  modifyGet fun asked => (answer text, asked ++ [text])

/-- The outcome for an artifact, and the texts that the checker was asked about. -/
def transcript (answer : String → Verdict) (framesPerSecond : Nat) (artifact : Artifact) :
    Except Rejection Transpiled × List String :=
  (transpile (recorded answer) framesPerSecond artifact).run []

/-- The checker is not asked about a text that cannot be read. -/
theorem run_validate_of_error (answer : String → Verdict) {text : String} {error : SyntaxError}
    (unreadable : parse text.toList = .error error) (identifier : String) :
    (validate (recorded answer) text identifier).run [] =
      (⟨identifier, [locate (LineIndex.of text.toList) ⟨error.span, .unreadable error.cause⟩]⟩,
        []) := by
  rw [validate_of_error unreadable]
  rfl

/-- The checker is asked about a text that can be read, once. -/
theorem run_validate_of_ok (answer : String → Verdict) {text : String} {module : Module}
    (parsed : parse text.toList = .ok module) (identifier : String) :
    (validate (recorded answer) text identifier).run [] =
      (⟨identifier, (concerns module (LineIndex.of text.toList) (answer text)).map
        (locate (LineIndex.of text.toList))⟩, [text]) := by
  rw [validate_of_ok parsed]
  rfl

/-! ## Outcomes -/

/-- A component that is fit for use: it can be read, there is nothing to repair in it, it mentions
nothing that it does not declare, keeps to the rules of the renderer, and passed. The checker was
asked once, about the component, and the report is what a validation of it says. -/
structure Fit (answer : String → Verdict) (transpiled : Transpiled) (asked : List String) :
    Prop where
  clean : ∃ module, parse transpiled.text.toList = .ok module ∧
    undeclared module = [] ∧ misuses module = []
  settled : (Repair.repair transpiled.text.toList).text = transpiled.text.toList ∧
    (Repair.repair transpiled.text.toList).fixCount = 0
  passed : ∀ finding ∈ transpiled.report.findings, finding.problem.isBlocking = false
  askedOnce : asked = [transpiled.text]
  reported : (validate (recorded answer) transpiled.text transpiled.identifier).run [] =
    (transpiled.report, asked)

/-- A rejection that is due: its report blocks, and it has no text just where the repaired artifact
cannot be read, for which the checker is not asked. The report is what a validation says of the
text that is rejected, or else of the repaired artifact. -/
structure Due (answer : String → Verdict) (artifact : Artifact) (rejection : Rejection)
    (asked : List String) : Prop where
  blocked : rejection.report.isValid = false
  unreadable : rejection.text = none ↔
    ∃ error, parse (Repair.repair artifact.text.toList).text = .error error
  unasked : rejection.text = none → asked = []
  reported : (validate (recorded answer)
      (rejection.text.getD (String.ofList (Repair.repair artifact.text.toList).text))
      artifact.identifier).run [] = (rejection.report, asked)

/-- An outcome for an artifact is a component that is fit for use or a rejection that is due. -/
def Justified (answer : String → Verdict) (artifact : Artifact) :
    Except Rejection Transpiled × List String → Prop
  | (.ok transpiled, asked) => Fit answer transpiled asked
  | (.error rejection, asked) => Due answer artifact rejection asked

/-! ## What is put forward -/

variable {answer : String → Verdict} {framesPerSecond : Nat} {artifact : Artifact} {module : Module}
  {report : Report} {asked : List String}

/-- The repair of what is put forward for a module. -/
def outputRepair (framesPerSecond : Nat) (artifact : Artifact) (module : Module) : Repair.Outcome :=
  Repair.repair (candidate artifact.identifier
    (Frame.drive module (State.classify module) framesPerSecond)).1.toList

/-- The component that is put forward for a module, with a report on it. -/
def proposal (framesPerSecond : Nat) (artifact : Artifact) (module : Module) (report : Report) :
    Transpiled where
  identifier := artifact.identifier
  text := String.ofList (outputRepair framesPerSecond artifact module).text
  bindings := State.classify module
  driven := Frame.drive module (State.classify module) framesPerSecond
  inputRepair := Repair.repair artifact.text.toList
  outputRepair := outputRepair framesPerSecond artifact module
  usesPlaceholder := (candidate artifact.identifier
    (Frame.drive module (State.classify module) framesPerSecond)).2
  report

/-- The outcome for what is put forward, by the report on it. -/
def decision (framesPerSecond : Nat) (artifact : Artifact) (module : Module) (report : Report) :
    Except Rejection Transpiled :=
  if report.isValid then .ok (proposal framesPerSecond artifact module report)
  else .error ⟨report, some (proposal framesPerSecond artifact module report).text⟩

/-- Nothing is left to repair in what is put forward. -/
theorem settled_proposal (framesPerSecond : Nat) (artifact : Artifact) (module : Module)
    (report : Report) :
    (Repair.repair (proposal framesPerSecond artifact module report).text.toList).text =
        (proposal framesPerSecond artifact module report).text.toList ∧
      (Repair.repair (proposal framesPerSecond artifact module report).text.toList).fixCount = 0 := by
  have nothing : Repair.pass (proposal framesPerSecond artifact module report).text.toList = [] := by
    rw [proposal, String.toList_ofList]
    exact (Repair.repairs_repair _).pass_eq_nil
  generalize (proposal framesPerSecond artifact module report).text.toList = text at nothing
  rw [Repair.repair_of_pass_eq_nil nothing]
  exact ⟨rfl, rfl⟩

/-- What is put forward is justified, if it is fit where its report lets it pass. -/
theorem justified_decision
    (parsed : parse (Repair.repair artifact.text.toList).text = .ok module)
    (reported : (validate (recorded answer) (proposal framesPerSecond artifact module report).text
      artifact.identifier).run [] = (report, asked))
    (fit : report.isValid = true →
      Fit answer (proposal framesPerSecond artifact module report) asked) :
    Justified answer artifact (decision framesPerSecond artifact module report, asked) := by
  unfold decision
  split
  · rename_i valid
    exact fit valid
  · rename_i invalid
    constructor
    · simpa using invalid
    · constructor
      · intro noText
        cases noText
      · rintro ⟨error, unreadable⟩
        rw [parsed] at unreadable
        cases unreadable
    · intro noText
      cases noText
    · exact reported

/-! ## Transpilation -/

section

variable {m : Type → Type} [Monad m] {check : String → m Verdict}

/-- An artifact that cannot be read is validated itself. -/
theorem transpile_of_error {error : SyntaxError}
    (unreadable : parse (Repair.repair artifact.text.toList).text = .error error) :
    transpile check framesPerSecond artifact = (do
      let report ← validate check (String.ofList (Repair.repair artifact.text.toList).text)
        artifact.identifier
      return .error ⟨report, none⟩) := by
  unfold transpile
  dsimp only
  rw [unreadable]

/-- For an artifact that can be read, what is put forward is validated. -/
theorem transpile_of_ok (parsed : parse (Repair.repair artifact.text.toList).text = .ok module) :
    transpile check framesPerSecond artifact = (do
      let report ← validate check
        (String.ofList (outputRepair framesPerSecond artifact module).text) artifact.identifier
      return decision framesPerSecond artifact module report) := by
  unfold transpile
  dsimp only
  rw [parsed]
  dsimp only
  congr 1
  funext report
  unfold decision
  split <;> rfl

end

/-- The outcome for an artifact that cannot be read follows from the report on it. -/
theorem transcript_of_error {error : SyntaxError}
    (unreadable : parse (Repair.repair artifact.text.toList).text = .error error)
    (reported : (validate (recorded answer) (String.ofList (Repair.repair artifact.text.toList).text)
      artifact.identifier).run [] = (report, asked)) :
    transcript answer framesPerSecond artifact = (.error ⟨report, none⟩, asked) := by
  rw [transcript, transpile_of_error unreadable, StateT.run_bind, reported]
  rfl

/-- The outcome for an artifact that can be read follows from the report on what is put forward. -/
theorem transcript_of_ok
    (parsed : parse (Repair.repair artifact.text.toList).text = .ok module)
    (reported : (validate (recorded answer)
      (String.ofList (outputRepair framesPerSecond artifact module).text)
      artifact.identifier).run [] = (report, asked)) :
    transcript answer framesPerSecond artifact =
      (decision framesPerSecond artifact module report, asked) := by
  rw [transcript, transpile_of_ok parsed, StateT.run_bind, reported]
  rfl

/-- Every artifact comes out fit for use or is rejected for a reason, whatever the checker says. -/
theorem transpile_justified (answer : String → Verdict) (framesPerSecond : Nat)
    (artifact : Artifact) :
    Justified answer artifact (transcript answer framesPerSecond artifact) := by
  cases input : parse (Repair.repair artifact.text.toList).text with
  | error error =>
      have unreadable :
          parse (String.ofList (Repair.repair artifact.text.toList).text).toList = .error error := by
        rwa [String.toList_ofList]
      have reported := run_validate_of_error answer unreadable artifact.identifier
      rw [transcript_of_error input reported]
      constructor
      · exact isValid_unreadable _ _ _ _
      · exact ⟨fun _ => ⟨error, input⟩, fun _ => rfl⟩
      · exact fun _ => rfl
      · exact reported
  | ok module =>
      cases output :
        parse (String.ofList (outputRepair framesPerSecond artifact module).text).toList with
      | error error =>
          have reported := run_validate_of_error answer output artifact.identifier
          rw [transcript_of_ok input reported]
          apply justified_decision input reported
          intro valid
          rw [isValid_unreadable] at valid
          cases valid
      | ok proposed =>
          have reported := run_validate_of_ok answer output artifact.identifier
          rw [transcript_of_ok input reported]
          apply justified_decision input reported
          intro valid
          constructor
          · exact ⟨proposed, output, clean_of_isValid valid⟩
          · exact settled_proposal framesPerSecond artifact module _
          · exact (Report.isValid_iff _).mp valid
          · rfl
          · exact reported

end StopMotion
