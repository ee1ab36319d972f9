import RsaAudit.Audit
import RsaAudit.Document.Writing

/-!
# Rendered reports

A report is rendered as text, one finding to a line, or as a JSON object that
also counts what was examined and lists the failures.
-/

namespace RsaAudit

inductive OutputFormat where
  | text
  | json
  deriving DecidableEq

def toolName : String := "rsalint"

def toolPurpose : String := "report insecure usage of the \"crypto/rsa\" package"

def Finding.toJson (finding : Finding) : Json :=
  .record [
    ("position", finding.position.toJson),
    ("message", .ofText finding.message),
    ("rule", .ofText finding.rule),
    ("callee", .ofText finding.callee)]

/-- A failure as an object; its source is left out where there is none. -/
def Failure.toJson (failure : Failure) : Json :=
  .record (Json.optionalMember "source" failure.source ++ [
    ("function", .ofText failure.function),
    ("error", .ofText failure.error)])

namespace Report

def text (report : Report) : String :=
  String.join (report.findings.map fun finding => finding.text ++ "\n")

/-- A report on a number of programs as an object; the failures are left out where
there are none. -/
def toJson (report : Report) (programs : Nat) : Json :=
  .record ([
      ("tool", Json.ofText toolName),
      ("programs_analyzed", .ofNat programs),
      ("functions_analyzed", .ofNat report.functionsAnalyzed),
      ("total_diagnostics", .ofNat report.findings.length),
      ("total_failures", .ofNat report.failures.length),
      ("diagnostics", .list (report.findings.map Finding.toJson))] ++
    if report.hasFailures then
      [("failures", .list (report.failures.map Failure.toJson))]
    else [])

/-- A report on a number of programs in the given form. -/
def render (report : Report) (programs : Nat) : OutputFormat → String
  | .text => report.text
  | .json => (report.toJson programs).pretty

end Report

end RsaAudit
