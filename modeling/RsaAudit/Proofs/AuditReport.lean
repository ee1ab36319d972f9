import Mathlib.Data.List.Basic
import Mathlib.Tactic.ByContra
import RsaAudit.Proofs.Verdict

/-!
# What an audit reports

A function is malformed when one of its calls has a rule and cannot be judged by
it.  This file describes the report of an audit in full: the malformed functions
are its failures, each with the error of its first call that cannot be judged, and
the findings on the calls of all other functions are its findings, everything in
the order of the programs.
-/

namespace RsaAudit

namespace Report

/-- Reports that are merged one after the other are concatenated. -/
theorem foldl_merge (reports : List Report) (first : Report) :
    reports.foldl merge first =
      { findings := first.findings ++ reports.flatMap findings
        failures := first.failures ++ reports.flatMap failures
        functionsAnalyzed := reports.foldl
          (fun total report => total + report.functionsAnalyzed)
          first.functionsAnalyzed } := by
  induction reports generalizing first with
  | nil => simp
  | cons report rest ih =>
      rw [List.foldl_cons, ih]
      simp [merge, List.append_assoc]

end Report

namespace Call

/-- A call is malformed when its callee has a rule that cannot judge it, for want
of a usable position or of arguments. -/
def Malformed (call : Call) : Prop :=
  ∃ rule ∈ Rule.lookup call.callee,
    (call.position.file = "" ∨ call.position.line = 0) ∨
      call.args.length < rule.arity

instance (call : Call) : Decidable call.Malformed :=
  inferInstanceAs (Decidable (∃ rule ∈ Rule.lookup call.callee,
    (call.position.file = "" ∨ call.position.line = 0) ∨
      call.args.length < rule.arity))

/-- The error of a malformed call: its position comes first, and of the arguments
the first that is not there. -/
def error (call : Call) : CallError :=
  if call.position.file = "" ∨ call.position.line = 0 then
    .invalidPosition call.callee call.position
  else .missingArgument call.callee call.args.length call.position

/-- Why a call cannot be judged, if its callee has a rule. -/
def fault? (call : Call) : Option CallError :=
  (Rule.lookup call.callee).bind fun rule => rule.fault? call

theorem fault?_eq (call : Call) :
    call.fault? = if call.Malformed then some call.error else none := by
  cases found : Rule.lookup call.callee with
  | none =>
      have sound : ¬ call.Malformed := by simp [Malformed, found]
      simp [fault?, found, sound]
  | some rule =>
      have malformed_iff : call.Malformed ↔
          (call.position.file = "" ∨ call.position.line = 0) ∨
            call.args.length < rule.arity := by
        simp [Malformed, found]
      rw [fault?, found, Option.bind_some, Rule.fault?, error]
      by_cases unusable : call.position.file = "" ∨ call.position.line = 0
      · simp [malformed_iff, unusable]
      · by_cases short : call.args.length < rule.arity
        · simp [malformed_iff, unusable, short]
        · simp [malformed_iff, unusable, short]

end Call

theorem Instruction.call?_eq_some_iff {instruction : Instruction} {call : Call} :
    instruction.call? = some call ↔ instruction = .call call := by
  cases instruction <;> simp [call?]

namespace Function

theorem mem_calls {function : Function} {call : Call} :
    call ∈ function.calls ↔
      ∃ block ∈ function.blocks, Instruction.call call ∈ block.instructions := by
  simp [calls, List.mem_filterMap, Instruction.call?_eq_some_iff]

/-- A function is malformed when one of its calls is. -/
def Malformed (function : Function) : Prop :=
  ∃ call ∈ function.calls, call.Malformed

instance (function : Function) : Decidable function.Malformed :=
  inferInstanceAs (Decidable (∃ call ∈ function.calls, call.Malformed))

def firstMalformed? (function : Function) : Option Call :=
  function.calls.find? fun call => call.Malformed

theorem not_malformed_iff (function : Function) :
    ¬ function.Malformed ↔
      ∀ block ∈ function.blocks, ∀ call, Instruction.call call ∈ block.instructions →
        ¬ call.Malformed := by
  simp only [Malformed, mem_calls]
  constructor
  · intro sound block listed call made malformed
    exact sound ⟨call, ⟨block, listed, made⟩, malformed⟩
  · rintro sound ⟨call, ⟨block, listed, made⟩, malformed⟩
    exact sound block listed call made malformed

theorem firstMalformed?_eq_none_iff (function : Function) :
    function.firstMalformed? = none ↔ ¬ function.Malformed := by
  simp [firstMalformed?, Malformed]

theorem findSome?_fault? (function : Function) :
    function.calls.findSome? Call.fault? =
      function.firstMalformed?.map Call.error := by
  rw [firstMalformed?]
  induction function.calls with
  | nil => rfl
  | cons call rest ih =>
      rw [List.findSome?_cons, List.find?_cons, call.fault?_eq]
      by_cases malformed : call.Malformed
      · simp [malformed]
      · simp [malformed, ih]

end Function

namespace Auditor

/-- The findings on a call that is not malformed. -/
def findingsOn (auditor : Auditor) (call : Call) : List Finding :=
  match Rule.lookup call.callee with
  | some rule => auditor.verdicts rule call
  | none => []

theorem auditCall_eq (auditor : Auditor) (call : Call) :
    auditor.auditCall call =
      unlessFault call.fault? (auditor.findingsOn call) := by
  rw [auditCall, Call.fault?, findingsOn]
  cases Rule.lookup call.callee with
  | none => rfl
  | some rule => exact auditor.checkCall_eq rule call

theorem auditCall_of_not_malformed (auditor : Auditor) {call : Call}
    (sound : ¬ call.Malformed) :
    auditor.auditCall call = .ok (auditor.findingsOn call) := by
  rw [auditCall_eq, call.fault?_eq, if_neg sound]
  rfl

/-- A function is judged unless it has a malformed call, and then the first one
tells why. -/
theorem auditFunction_eq (auditor : Auditor) (function : Function) :
    auditor.auditFunction function =
      unlessFault (function.firstMalformed?.map Call.error)
        (function.calls.flatMap auditor.findingsOn) := by
  have collected :
      function.calls.mapM auditor.auditCall =
        unlessFault (function.calls.findSome? Call.fault?)
          (function.calls.map auditor.findingsOn) :=
    mapM_of_unlessFault fun call _ => auditor.auditCall_eq call
  rw [auditFunction, collected, function.findSome?_fault?]
  cases function.firstMalformed? with
  | none => simp [unlessFault, bind, Except.bind, pure, Except.pure, List.flatMap]
  | some call => rfl

theorem functionReport_eq (auditor : Auditor) (source : Option String)
    (function : Function) :
    auditor.functionReport source function =
      { findings :=
          if function.Malformed then [] else function.calls.flatMap auditor.findingsOn
        failures := function.firstMalformed?.toList.map fun call =>
          ⟨source, function.name, call.error.message⟩
        functionsAnalyzed := 1 } := by
  rw [functionReport, auditFunction_eq]
  cases first : function.firstMalformed? with
  | none =>
      have sound := function.firstMalformed?_eq_none_iff.mp first
      simp [unlessFault, sound]
  | some call =>
      have malformed : function.Malformed := by
        by_contra sound
        rw [function.firstMalformed?_eq_none_iff.mpr sound] at first
        cases first
      simp [unlessFault, malformed]

/-- Whether the functions are examined at the same time or not, their reports are the
same and stand in the same order. -/
theorem functionReports_eq (auditor : Auditor) (program : Program) :
    auditor.functionReports program =
      program.functions.map (auditor.functionReport program.source) := by
  rw [functionReports]
  split
  · -- Awaiting a task gives what the task computes.
    rw [List.map_map]
    rfl
  · rfl

/-- The failures of a program, which no policy and no resolver has a part in. -/
def programFailures (program : Program) : List Failure :=
  program.functions.filterMap fun function =>
    function.firstMalformed?.map fun call =>
      ⟨program.source, function.name, call.error.message⟩

/-- The findings on the functions of a program that are not malformed. -/
def programFindings (auditor : Auditor) (program : Program) : List Finding :=
  (program.functions.filter fun function => ¬ function.Malformed).flatMap
    fun function => function.calls.flatMap auditor.findingsOn

private theorem flatMap_unless_eq_flatMap_filter {Item Result : Type}
    (items : List Item) (excluded : Item → Prop) [DecidablePred excluded]
    (results : Item → List Result) :
    items.flatMap (fun item => if excluded item then [] else results item) =
      (items.filter fun item => ¬ excluded item).flatMap results := by
  induction items with
  | nil => rfl
  | cons item rest ih =>
      rw [List.flatMap_cons, ih, List.filter_cons]
      by_cases out : excluded item
      · simp [out]
      · simp [out]

theorem audit_eq (auditor : Auditor) (program : Program) :
    auditor.audit program =
      { findings := auditor.programFindings program
        failures := programFailures program
        functionsAnalyzed := program.functions.length } := by
  rw [audit, functionReports_eq, Report.foldl_merge]
  simp only [List.flatMap_map, List.foldl_map, functionReport_eq,
    flatMap_unless_eq_flatMap_filter, ← Option.toList_map, ← List.filterMap_eq_flatMap_toList,
    List.foldl_add_const]
  simp [Report.empty, programFindings, programFailures]

theorem auditAll_eq (auditor : Auditor) (programs : List Program) :
    auditor.auditAll programs =
      { findings := programs.flatMap auditor.programFindings
        failures := programs.flatMap programFailures
        functionsAnalyzed := (programs.flatMap Program.functions).length } := by
  have counted (total : Nat) :
      programs.foldl (fun total program => total + program.functions.length) total =
        total + (programs.flatMap Program.functions).length := by
    induction programs generalizing total with
    | nil => rfl
    | cons program rest ih => simp [ih, Nat.add_assoc]
  rw [auditAll, Report.foldl_merge]
  simp [List.flatMap_map, List.foldl_map, audit_eq, Report.empty, counted]

/-- Parallel examination changes nothing in the report: no check reads that setting. -/
theorem auditAll_withParallel (policy : Policy) (parallel : Bool)
    (programs : List Program) :
    (ofPolicy (policy.withParallel parallel)).auditAll programs =
      (ofPolicy policy).auditAll programs := by
  rw [auditAll_eq, auditAll_eq]
  rfl

theorem audit_withParallel (policy : Policy) (parallel : Bool) (program : Program) :
    (ofPolicy (policy.withParallel parallel)).audit program =
      (ofPolicy policy).audit program := by
  rw [audit_eq, audit_eq]
  rfl

/-- The calls that an audit judges, which no policy and no resolver has a part in:
those of the functions that are not malformed. -/
def judgedCalls (programs : List Program) : List Call :=
  programs.flatMap fun program =>
    (program.functions.filter fun function => ¬ function.Malformed).flatMap
      Function.calls

/-- The findings of an audit are those on the calls that it judges. -/
theorem auditAll_findings (auditor : Auditor) (programs : List Program) :
    (auditor.auditAll programs).findings =
      (judgedCalls programs).flatMap auditor.findingsOn := by
  rw [auditAll_eq, judgedCalls, List.flatMap_assoc]
  simp only [List.flatMap_assoc]
  rfl

/-- The report of an audit, whatever policy and resolver are in use: it counts all
functions; it lists one failure for each malformed function, with the text of the
error of its first malformed call, block by block and instruction by instruction; and
its findings are those on the calls of the other functions, in the same order, since no
check fails on a call that is not malformed.  So the failures are the same under every
policy and resolver, and there are none exactly when no call in any block is malformed. -/
theorem auditAll_report (auditor : Auditor) (programs : List Program) :
    let report := auditor.auditAll programs
    let calls (block : Block) := block.instructions.filterMap Instruction.call?
    report.functionsAnalyzed = (programs.flatMap Program.functions).length ∧
      report.failures = (programs.flatMap fun program =>
        program.functions.filterMap fun function =>
          ((function.blocks.flatMap calls).find? fun call => call.Malformed).map fun call =>
            ⟨program.source, function.name, call.error.message⟩) ∧
      report.findings = (programs.flatMap fun program =>
        (program.functions.filter fun function =>
            ∀ block ∈ function.blocks, ∀ call ∈ calls block, ¬ call.Malformed).flatMap
          fun function => (function.blocks.flatMap calls).flatMap auditor.findingsOn) ∧
      (∀ call : Call, ¬ call.Malformed →
        auditor.auditCall call = .ok (auditor.findingsOn call)) ∧
      (∀ other : Auditor, (other.auditAll programs).failures = report.failures) ∧
      (report.failures = [] ↔
        ∀ program ∈ programs, ∀ function ∈ program.functions, ∀ block ∈ function.blocks,
          ∀ call, Instruction.call call ∈ block.instructions → ¬ call.Malformed) := by
  intro report calls
  have report_eq : report = _ := auditor.auditAll_eq programs
  have mem_calls {block : Block} {call : Call} :
      call ∈ calls block ↔ Instruction.call call ∈ block.instructions := by
    simp [calls, Instruction.call?_eq_some_iff]
  rw [report_eq]
  refine ⟨rfl, rfl, ?_, ?_, ?_, ?_⟩
  · simp only [mem_calls, ← Function.not_malformed_iff]
    rfl
  · intro call sound
    exact auditor.auditCall_of_not_malformed sound
  · intro other
    rw [other.auditAll_eq programs]
  · simp only [List.flatMap_eq_nil_iff, programFailures, List.filterMap_eq_nil_iff,
      Option.map_eq_none_iff, Function.firstMalformed?_eq_none_iff,
      Function.not_malformed_iff]

end Auditor

end RsaAudit
