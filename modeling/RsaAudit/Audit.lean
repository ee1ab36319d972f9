import RsaAudit.Report.Basic
import RsaAudit.Rule

/-!
# Auditing programs

An auditor checks every call whose callee has a rule.  A call that cannot be
judged makes its function fail, and nothing else of that function is reported;
the other functions are not affected.
-/

namespace RsaAudit

namespace Auditor

/-- The auditor whose resolver trusts the sources of the policy. -/
def ofPolicy (policy : Policy) : Auditor :=
  ⟨policy, .ofPolicy policy⟩

def remarkOn (call : Call) (remark : Remark) : Finding where
  position := call.position
  message := remark.message
  rule := remark.code
  callee := call.callee

def runChecks (auditor : Auditor) (call : Call) (checks : List Check) :
    Except CallError (List Finding) :=
  return (← checks.mapM (Check.evaluate auditor call)).filterMap id

/-- The findings of a rule on a call; the call needs a usable position and enough
arguments. -/
def checkCall (auditor : Auditor) (rule : Rule) (call : Call) :
    Except CallError (List Finding) :=
  if !call.position.valid then .error (.invalidPosition call.callee call.position)
  else if call.args.length < rule.arity then
    .error (.missingArgument call.callee call.args.length call.position)
  else do
    let findings ← runChecks auditor call rule.checks
    return findings ++ rule.unconditional.toList.map (remarkOn call)

/-- The findings on a call under the rule for its callee, if there is one. -/
def auditCall (auditor : Auditor) (call : Call) : Except CallError (List Finding) :=
  match Rule.lookup call.callee with
  | some rule => checkCall auditor rule call
  | none => .ok []

/-- The findings on a function, or the error of the first call that cannot be
judged. -/
def auditFunction (auditor : Auditor) (function : Function) :
    Except CallError (List Finding) :=
  return (← function.calls.mapM (auditCall auditor)).flatten

def functionReport (auditor : Auditor) (source : Option String) (function : Function) :
    Report :=
  match auditFunction auditor function with
  | .ok findings => ⟨findings, [], 1⟩
  | .error error => ⟨[], [⟨source, function.name, error.message⟩], 1⟩

/-- The reports on the functions of a program.  They may be worked out at the same
time, but are awaited in the order of the functions. -/
def functionReports (auditor : Auditor) (program : Program) : List Report :=
  let report := functionReport auditor program.source
  if auditor.policy.parallel && decide (1 < program.functions.length) then
    (program.functions.map fun function => Task.spawn fun _ => report function).map Task.get
  else program.functions.map report

def audit (auditor : Auditor) (program : Program) : Report :=
  (functionReports auditor program).foldl Report.merge .empty

def auditAll (auditor : Auditor) (programs : List Program) : Report :=
  (programs.map (audit auditor)).foldl Report.merge .empty

end Auditor

end RsaAudit
