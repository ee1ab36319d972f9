import Mathlib.Data.List.Nodup
import RsaAudit.Proofs.AuditReport

/-!
# Where findings come from

Every finding of a report can be traced back to an instruction.  The way back leads
through the concatenation of the reports, past the functions that have failed, to one
call; the call has the callee and the position of the finding, and the rule for the
callee declares the code of the finding.

The findings on one call stand in the order in which its rule declares their codes, and
no code comes twice, since no rule declares one twice.
-/

namespace RsaAudit

/-! ## The codes of a rule -/

/-- The codes under which a rule may report, in order; that of its remark is the last. -/
def Rule.codes (rule : Rule) : List String :=
  rule.checks.map Check.code ++ rule.unconditional.toList.map Remark.code

theorem Operation.nodup_codes (operation : Operation) : operation.rule.codes.Nodup := by
  cases operation <;> decide

theorem Operation.rule_mem_table (operation : Operation) : operation.rule ∈ Rule.table := by
  cases operation <;> decide

theorem Check.exists_message_of_verdict {auditor : Auditor} {call : Call} {check : Check}
    {finding : Finding} (found : check.verdict auditor call = some finding) :
    ∃ message, finding = call.finding check.code message := by
  obtain ⟨message, -, same⟩ := Option.map_eq_some_iff.mp found
  exact ⟨message, same.symm⟩

namespace Auditor

variable {auditor : Auditor} {call : Call}

theorem codes_filterMap_verdict_sublist (checks : List Check) :
    ((checks.filterMap (Check.verdict auditor call)).map Finding.rule).Sublist
      (checks.map Check.code) := by
  induction checks with
  | nil => exact .slnil
  | cons check rest ih =>
      rw [List.map_cons]
      cases found : check.verdict auditor call with
      | none =>
          rw [List.filterMap_cons_none found]
          exact ih.cons _
      | some finding =>
          obtain ⟨message, rfl⟩ := Check.exists_message_of_verdict found
          rw [List.filterMap_cons_some found, List.map_cons]
          exact ih.cons_cons _

theorem codes_verdicts_sublist (auditor : Auditor) (call : Call) (rule : Rule) :
    ((auditor.verdicts rule call).map Finding.rule).Sublist rule.codes := by
  have remarks : (rule.unconditional.toList.map (remarkOn call)).map Finding.rule =
      rule.unconditional.toList.map Remark.code := by
    rw [List.map_map]
    rfl
  rw [verdicts, List.map_append, remarks, Rule.codes]
  exact (codes_filterMap_verdict_sublist rule.checks).append_right _

theorem getLast?_verdicts {rule : Rule} {remark : Remark}
    (declared : remark ∈ rule.unconditional) :
    (auditor.verdicts rule call).getLast? = some (remarkOn call remark) := by
  obtain declared : rule.unconditional = some remark := declared
  simp [verdicts, declared]

theorem mem_verdicts {rule : Rule} {finding : Finding}
    (found : finding ∈ auditor.verdicts rule call) :
    finding.callee = call.callee ∧ finding.position = call.position ∧
      ((∃ check ∈ rule.checks, finding.rule = check.code) ∨
        ∃ remark ∈ rule.unconditional, finding.rule = remark.code) := by
  rcases List.mem_append.mp found with checked | remarked
  · obtain ⟨check, listed, verdict⟩ := List.mem_filterMap.mp checked
    obtain ⟨message, rfl⟩ := Check.exists_message_of_verdict verdict
    exact ⟨rfl, rfl, .inl ⟨check, listed, rfl⟩⟩
  · obtain ⟨remark, declared, rfl⟩ := List.mem_map.mp remarked
    exact ⟨rfl, rfl, .inr ⟨remark, Option.mem_toList.mp declared, rfl⟩⟩

end Auditor

/-! ## The way back to an instruction -/

theorem Call.usable_of_not_malformed {call : Call} {rule : Rule} (sound : ¬ call.Malformed)
    (found : rule ∈ Rule.lookup call.callee) :
    call.position.file ≠ "" ∧ call.position.line ≠ 0 := by
  constructor
  · intro unnamed
    exact sound ⟨rule, found, .inl (.inl unnamed)⟩
  · intro unnumbered
    exact sound ⟨rule, found, .inl (.inr unnumbered)⟩

namespace Auditor

variable {auditor : Auditor}

theorem mem_judgedCalls {programs : List Program} {call : Call} :
    call ∈ judgedCalls programs ↔
      ∃ program ∈ programs, ∃ function ∈ program.functions,
        ¬ function.Malformed ∧ call ∈ function.calls := by
  simp [judgedCalls, and_assoc]

theorem auditFunction_of_not_malformed {function : Function} (sound : ¬ function.Malformed) :
    auditor.auditFunction function = .ok (function.calls.flatMap auditor.findingsOn) := by
  rw [auditFunction_eq, function.firstMalformed?_eq_none_iff.mpr sound]
  rfl

theorem exists_rule_of_mem_findingsOn {call : Call} {finding : Finding}
    (found : finding ∈ auditor.findingsOn call) :
    ∃ rule, Rule.lookup call.callee = some rule ∧ finding ∈ auditor.verdicts rule call := by
  rw [findingsOn] at found
  cases ruled : Rule.lookup call.callee with
  | none => simp [ruled] at found
  | some rule => exact ⟨rule, rfl, by simpa [ruled] using found⟩

/-- If a call of a judged operation does not fail, its findings are the verdicts of the
rule for its callee. -/
theorem eq_verdicts_of_auditCall {call : Call} {rule : Rule} {findings : List Finding}
    (ruled : Rule.lookup call.callee = some rule)
    (passed : auditor.auditCall call = .ok findings) :
    findings = auditor.verdicts rule call := by
  rw [auditCall, ruled] at passed
  dsimp only at passed
  rw [checkCall_eq] at passed
  cases fault : rule.fault? call with
  | some error =>
      rw [fault] at passed
      cases passed
  | none =>
      rw [fault] at passed
      cases passed
      rfl

/-- Every finding of a report is attributable.  Its position is usable, its callee has a
rule in the table, and the rule declares its code.  It comes from a call instruction
with its callee and position, in a function that has not failed.  The findings on one
call have different codes, in the order in which the rule declares them, and the remark
of the rule, if it has one, is always there and comes last. -/
theorem auditAll_attributable (auditor : Auditor) (programs : List Program) :
    (∀ finding ∈ (auditor.auditAll programs).findings,
      finding.position.file ≠ "" ∧ finding.position.line ≠ 0 ∧
      (∃ rule ∈ Rule.table, rule.symbol = finding.callee ∧
        Rule.lookup finding.callee = some rule ∧
        ((∃ check ∈ rule.checks, finding.rule = check.code) ∨
          ∃ remark ∈ rule.unconditional, finding.rule = remark.code)) ∧
      ∃ program ∈ programs, ∃ function ∈ program.functions, ∃ block ∈ function.blocks,
        ∃ call, Instruction.call call ∈ block.instructions ∧
          call.callee = finding.callee ∧ call.position = finding.position ∧
          (∃ ofFunction, auditor.auditFunction function = .ok ofFunction ∧
            finding ∈ ofFunction) ∧
          ∃ ofCall, auditor.auditCall call = .ok ofCall ∧ finding ∈ ofCall) ∧
    ∀ call rule findings, Rule.lookup call.callee = some rule →
      auditor.auditCall call = .ok findings →
        (findings.map Finding.rule).Nodup ∧
        (findings.map Finding.rule).Sublist
          (rule.checks.map Check.code ++ rule.unconditional.toList.map Remark.code) ∧
        ∀ remark ∈ rule.unconditional,
          findings.getLast? = some ⟨call.position, remark.message, remark.code, call.callee⟩ := by
  constructor
  · intro finding reported
    rw [auditAll_findings] at reported
    obtain ⟨call, judged, found⟩ := List.mem_flatMap.mp reported
    obtain ⟨program, listed, function, member, sound, called⟩ := mem_judgedCalls.mp judged
    obtain ⟨block, blockMember, instruction⟩ := Function.mem_calls.mp called
    have callSound : ¬ call.Malformed := fun malformed => sound ⟨call, called, malformed⟩
    obtain ⟨rule, ruled, verdict⟩ := exists_rule_of_mem_findingsOn found
    obtain ⟨operation, spelled, rfl⟩ := Rule.lookup_eq_some_iff.mp ruled
    obtain ⟨callee, position, declared⟩ := mem_verdicts verdict
    obtain ⟨named, numbered⟩ := Call.usable_of_not_malformed callSound ruled
    have ofFunction : finding ∈ function.calls.flatMap auditor.findingsOn :=
      List.mem_flatMap.mpr ⟨call, called, found⟩
    rw [position, callee]
    refine ⟨named, numbered, ?_, ?_⟩
    · exact ⟨operation.rule, operation.rule_mem_table, spelled, ruled, declared⟩
    · exact ⟨program, listed, function, member, block, blockMember, call, instruction, rfl,
        rfl, ⟨_, auditFunction_of_not_malformed sound, ofFunction⟩,
        ⟨_, auditor.auditCall_of_not_malformed callSound, found⟩⟩
  · intro call rule findings ruled passed
    obtain rfl := eq_verdicts_of_auditCall ruled passed
    obtain ⟨operation, -, rfl⟩ := Rule.lookup_eq_some_iff.mp ruled
    have declaredOrder := codes_verdicts_sublist auditor call operation.rule
    refine ⟨operation.nodup_codes.sublist declaredOrder, declaredOrder, ?_⟩
    intro remark declared
    exact getLast?_verdicts declared

end Auditor

/-- An encryption with an entropy source that is not trusted. -/
def weakEncryption : Call :=
  ⟨"crypto/rsa.EncryptPKCS1v15", [.callResult "math/rand.New"], ⟨"main.go", 5, 2⟩, none⟩

/-- A program of two functions that make the same encryption; the first also has a call
without arguments and fails. -/
def halfFailedProgram : Program :=
  ⟨none, [
    ⟨"broken", [⟨[.call weakEncryption,
      .call ⟨"crypto/rsa.GenerateKey", [], ⟨"main.go", 6, 2⟩, none⟩]⟩]⟩,
    ⟨"main", [⟨[.other none, .call weakEncryption]⟩]⟩]⟩

theorem auditAll_attributable_weakEncryption :
    let auditor := Auditor.ofPolicy Policy.standard
    let finding := weakEncryption.finding "weak-entropy" Check.entropyMessage
    let remark := weakEncryption.finding "deprecated-pkcs1v15-encrypt"
      "use rsa.EncryptOAEP instead of rsa.EncryptPKCS1v15"
    (finding ∈ (auditor.auditAll [halfFailedProgram]).findings ∧
      finding.position.file ≠ "" ∧ finding.position.line ≠ 0 ∧
      ∃ rule ∈ Rule.table, rule.symbol = finding.callee) ∧
    Rule.lookup weakEncryption.callee = some Operation.encryptPKCS1v15.rule ∧
      auditor.auditCall weakEncryption = .ok [finding, remark] ∧
      ([finding, remark].map Finding.rule).Nodup ∧
      [finding, remark].getLast? = some remark := by
  intro auditor finding remark
  have reported : finding ∈ (auditor.auditAll [halfFailedProgram]).findings := by
    decide +kernel
  have ruled : Rule.lookup weakEncryption.callee = some Operation.encryptPKCS1v15.rule := rfl
  have passed : auditor.auditCall weakEncryption = .ok [finding, remark] := by
    decide +kernel
  obtain ⟨attributed, ordered⟩ := Auditor.auditAll_attributable auditor [halfFailedProgram]
  obtain ⟨named, numbered, ⟨rule, listed, symbol, -⟩, -⟩ := attributed finding reported
  obtain ⟨distinct, -, last⟩ := ordered weakEncryption _ _ ruled passed
  exact ⟨⟨reported, named, numbered, rule, listed, symbol⟩, ruled, passed, distinct,
    last _ rfl⟩

end RsaAudit
