import RsaAudit.Finding

/-!
# Reports

A report lists findings and failures in the order in which they came up, and
counts the functions that were looked at.
-/

namespace RsaAudit

/-- A function whose analysis was abandoned, and the error that caused it. -/
structure Failure where
  source : Option String
  function : String
  error : String
  deriving DecidableEq

/-- What an audit found, and where it failed. -/
structure Report where
  findings : List Finding
  failures : List Failure
  functionsAnalyzed : Nat
  deriving DecidableEq

namespace Failure

def text (failure : Failure) : String :=
  let body := "analysis of " ++ failure.function ++ " failed: " ++ failure.error
  match failure.source with
  | some source => source ++ ": " ++ body
  | none => body

end Failure

namespace Report

def empty : Report := ⟨[], [], 0⟩

instance : Inhabited Report := ⟨empty⟩

def merge (first second : Report) : Report where
  findings := first.findings ++ second.findings
  failures := first.failures ++ second.failures
  functionsAnalyzed := first.functionsAnalyzed + second.functionsAnalyzed

def hasFindings (report : Report) : Bool :=
  !report.findings.isEmpty

def hasFailures (report : Report) : Bool :=
  !report.failures.isEmpty

end Report

end RsaAudit
