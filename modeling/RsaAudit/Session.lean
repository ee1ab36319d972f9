import RsaAudit.Report.Rendering

/-!
# Audit sessions

A session collects programs and a report under a policy that may change between
audits.
-/

namespace RsaAudit

/-- The state of a session. -/
structure Session where
  policy : Policy
  /-- The resolver in use; the one that the policy implies if none was set. -/
  resolver : Option Resolver
  programs : List Program
  report : Report

namespace Session

def start : Session := ⟨.standard, none, [], .empty⟩

/-- The resolver that audits use. -/
def activeResolver (session : Session) : Resolver :=
  session.resolver.getD (.ofPolicy session.policy)

def auditor (session : Session) : Auditor :=
  ⟨session.policy, session.activeResolver⟩

def push (session : Session) (program : Program) : Session :=
  { session with programs := session.programs ++ [program] }

/-- The last program removed, if there is one. -/
def pop (session : Session) : Option Program × Session :=
  (session.programs.getLast?, { session with programs := session.programs.dropLast })

/-- The source of the last program replaced, if there is one. -/
def withSource (session : Session) (source : String) : Option Session :=
  match session.programs.getLast? with
  | some program =>
      some { session with
        programs := session.programs.dropLast ++ [program.withSource source] }
  | none => none

/-- A report joins the report of the session. -/
def record (session : Session) (report : Report) : Report × Session :=
  (report, { session with report := session.report.merge report })

/-- Audit the program with an index, if there is one. -/
def audit (session : Session) (index : Nat) : Option (Report × Session) :=
  session.programs[index]?.map fun program =>
    session.record (session.auditor.audit program)

def auditAll (session : Session) : Report × Session :=
  session.record (session.auditor.auditAll session.programs)

/-- The report joins itself. -/
def doubleReport (session : Session) : Session :=
  { session with report := session.report.merge session.report }

def clear (session : Session) : Session :=
  { session with report := .empty }

def render (session : Session) (format : OutputFormat) : String :=
  session.report.render session.programs.length format

end Session

end RsaAudit
