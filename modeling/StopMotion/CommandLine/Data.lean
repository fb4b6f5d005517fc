import StopMotion.Document.Printer
import StopMotion.Project.Integrity
import StopMotion.Validation.Report

/-!
# Reports as documents

The documents that are printed instead of lines when data is asked for.
-/

namespace StopMotion

/-- A range of a text as a document. -/
def Span.document (span : Span) : Document :=
  .object [("start", .natural span.start), ("end", .natural span.stop)]

/-- A finding as a document. -/
def Validation.Finding.document (finding : Validation.Finding) : Document :=
  .object
    [("layer", .string finding.problem.layer.name),
      ("severity", .string finding.problem.severity.name),
      ("category", .string finding.problem.kind.name),
      ("message", .string finding.problem.message),
      ("span", finding.span.document),
      ("line", .natural finding.line),
      ("column", .natural finding.column)]

/-- The report of a validation as a document. -/
def Validation.Report.document (report : Validation.Report) : Document :=
  .object
    [("identifier", .string report.identifier),
      ("findings", .array (report.findings.map (·.document))),
      ("isValid", .boolean report.isValid)]

/-- The report on a project as a document. -/
def Project.IntegrityReport.document (report : Project.IntegrityReport) : Document :=
  .object
    [("missing", .strings report.shortfall.missing),
      ("malformed", .strings report.shortfall.malformed),
      ("actionsTaken", .strings (report.actions.map (·.text))),
      ("finalState", .string report.finalName),
      ("state", .string report.state.name),
      ("attempts", .natural report.attempts)]

end StopMotion
