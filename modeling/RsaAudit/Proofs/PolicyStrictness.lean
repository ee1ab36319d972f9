import Mathlib.Data.List.Flatten
import RsaAudit.Proofs.AuditReport
import RsaAudit.Proofs.DecisionTable

/-!
# Stricter policies

A policy is at least as strict as another when its thresholds are no lower, its
sets of accepted names are no larger, and its alignment is a multiple of the other
one.  Every row of the decision table is monotone in this order, so a stricter
policy keeps every finding at its place; only messages may change, since they
quote the thresholds.
-/

namespace RsaAudit

/-- One policy is at least as strict as another in every setting. -/
structure Policy.AtLeastAsStrict (strict loose : Policy) : Prop where
  minimumBits : loose.minimumBits ≤ strict.minimumBits
  minimumSessionKeyBytes :
    loose.minimumSessionKeyBytes ≤ strict.minimumSessionKeyBytes
  acceptedHashIdentifiers :
    ∀ name ∈ strict.acceptedHashIdentifiers, name ∈ loose.acceptedHashIdentifiers
  acceptedHashConstructors :
    ∀ name ∈ strict.acceptedHashConstructors, name ∈ loose.acceptedHashConstructors
  secureSourceSymbols :
    ∀ name ∈ strict.secureSourceSymbols, name ∈ loose.secureSourceSymbols
  bitAlignment_pos : 0 < loose.bitAlignment ∧ 0 < strict.bitAlignment
  bitAlignment_dvd : loose.bitAlignment.toInt ∣ strict.bitAlignment.toInt

/-- What a finding is about: where, under which code, and for which callee. -/
def Finding.subject (finding : Finding) : Position × String × String :=
  (finding.position, finding.rule, finding.callee)

namespace Check

variable {strict loose : Policy} {strictSources looseSources : SymbolSet}

/-- Whatever a check reports under a policy it also reports, perhaps in other
words, under a stricter one with fewer sources. -/
theorem Reports.of_stricter (stricter : strict.AtLeastAsStrict loose)
    (fewer : ∀ name ∈ strictSources, name ∈ looseSources)
    {core : Nat → Option Argument} {code message : String} {check : Check}
    (reports : check.Reports loose looseSources core code message) :
    ∃ message, check.Reports strict strictSources core code message := by
  cases check with
  | secureEntropy argument =>
      obtain ⟨codeEq, -, untrusted⟩ := reports
      refine ⟨_, codeEq, rfl, ?_⟩
      rintro ⟨callee, trusted, found⟩
      exact untrusted ⟨callee, fewer callee trusted, found⟩
  | blinding argument =>
      obtain ⟨codeEq, -, isNil⟩ := reports
      exact ⟨_, codeEq, rfl, isNil⟩
  | minimumBits argument =>
      obtain ⟨codeEq, -, bits, found, small⟩ := reports
      have raised := Int64.le_iff_toInt_le.mp stricter.minimumBits
      exact ⟨_, codeEq, rfl, bits, found, by omega⟩
  | bitAlignment argument =>
      obtain ⟨codeEq, -, bits, found, -, misaligned⟩ := reports
      have positive := Int64.lt_iff_toInt_lt.mp stricter.bitAlignment_pos.2
      rw [Int64.toInt_zero] at positive
      refine ⟨_, codeEq, rfl, bits, found, by omega, ?_⟩
      intro aligned
      exact misaligned (Int.dvd_trans stricter.bitAlignment_dvd aligned)
  | primeCount primes bits =>
      obtain ⟨codeEq, row⟩ := reports
      exact ⟨message, codeEq, row⟩
  | hashIdentifier argument =>
      obtain ⟨codeEq, -, name, named, refused⟩ := reports
      refine ⟨_, codeEq, rfl, name, named, ?_⟩
      intro accepted member
      exact refused accepted (stricter.acceptedHashIdentifiers accepted member)
  | hashConstructor argument =>
      obtain ⟨codeEq, -, callee, found, untrusted, refused⟩ := reports
      refine ⟨_, codeEq, rfl, callee, found, ?_, ?_⟩
      · intro trusted
        exact untrusted (fewer callee trusted)
      · intro accepted
        exact refused (stricter.acceptedHashConstructors callee accepted)
  | sessionKeySize argument =>
      obtain ⟨codeEq, -, short⟩ := reports
      have raised := UInt64.le_iff_toNat_le.mp stricter.minimumSessionKeyBytes
      refine ⟨_, codeEq, rfl, ?_⟩
      rcases short with isNil | ⟨content, found, fewer⟩ | ⟨text, found, fewer⟩
      · exact .inl isNil
      · exact .inr (.inl ⟨content, found, by omega⟩)
      · exact .inr (.inr ⟨text, found, by omega⟩)

end Check

namespace Auditor

/-- A check that reports something under the policy of one auditor reports
something about the same subject under the policy of a stricter one. -/
theorem exists_verdict_of_stricter {strict loose : Policy}
    (stricter : strict.AtLeastAsStrict loose) (call : Call) (check : Check)
    {finding : Finding}
    (found : check.verdict (ofPolicy loose) call = some finding) :
    ∃ other, check.verdict (ofPolicy strict) call = some other ∧
      other.subject = finding.subject := by
  obtain ⟨code, message, reports, rfl⟩ :=
    (Check.verdict_eq_some_iff _ _ _ _).mp found
  have sameDepth : (ofPolicy loose).resolver.maxDepth =
      (ofPolicy strict).resolver.maxDepth := by
    rw [ofPolicy, ofPolicy, Resolver.maxDepth_ofPolicy, Resolver.maxDepth_ofPolicy]
  have fewer : ∀ name ∈ (ofPolicy strict).resolver.secureSources,
      name ∈ (ofPolicy loose).resolver.secureSources := by
    intro name trusted
    have listed := (Resolver.mem_secureSources_ofPolicy strict name).mp trusted
    exact (Resolver.mem_secureSources_ofPolicy loose name).mpr
      (stricter.secureSourceSymbols name listed)
  rw [sameDepth] at reports
  obtain ⟨stricterMessage, stricterReports⟩ := reports.of_stricter stricter fewer
  exact ⟨call.finding code stricterMessage,
    (Check.verdict_eq_some_iff _ _ _ _).mpr ⟨code, stricterMessage, stricterReports, rfl⟩,
    rfl⟩

theorem findingsOn_subject_sublist {strict loose : Policy}
    (stricter : strict.AtLeastAsStrict loose) (call : Call) :
    (((ofPolicy loose).findingsOn call).map Finding.subject).Sublist
      (((ofPolicy strict).findingsOn call).map Finding.subject) := by
  rw [findingsOn, findingsOn]
  cases Rule.lookup call.callee with
  | none => exact .slnil
  | some rule =>
      simp only [verdicts, List.map_append, List.map_filterMap]
      apply List.Sublist.append_right
      apply filterMap_sublist_of_kept
      intro check subject found
      obtain ⟨finding, reported, rfl⟩ := Option.map_eq_some_iff.mp found
      obtain ⟨other, also, same⟩ := exists_verdict_of_stricter stricter call check reported
      rw [also, Option.map_some, same]

/-- A stricter policy never loses a finding: the same functions fail, the same
number is counted, and what the findings are about under the looser policy is a
subsequence of what they are about under the stricter one. -/
theorem auditAll_of_stricter (strict loose : Policy)
    (stricter : strict.AtLeastAsStrict loose) (programs : List Program) :
    let looseReport := (ofPolicy loose).auditAll programs
    let strictReport := (ofPolicy strict).auditAll programs
    looseReport.failures = strictReport.failures ∧
      looseReport.functionsAnalyzed = strictReport.functionsAnalyzed ∧
      (looseReport.findings.map Finding.subject).Sublist
        (strictReport.findings.map Finding.subject) := by
  refine ⟨?_, ?_, ?_⟩
  · rw [auditAll_eq, auditAll_eq]
  · rw [auditAll_eq, auditAll_eq]
  · rw [auditAll_findings, auditAll_findings, List.map_flatMap, List.map_flatMap]
    apply List.Sublist.flatMap_right
    intro call _
    exact findingsOn_subject_sublist stricter call

end Auditor

/-- A policy that is stricter than the standard one in every setting. -/
def Policy.hardened : Policy where
  minimumBits := 4096
  bitAlignment := 64
  minimumSessionKeyBytes := 32
  acceptedHashIdentifiers := .ofList ["SHA-512"]
  acceptedHashConstructors := .ofList ["crypto/sha512.New"]
  secureSourceSymbols := .empty
  parallel := true

theorem Policy.hardened_atLeastAsStrict :
    hardened.AtLeastAsStrict standard where
  minimumBits := by decide
  minimumSessionKeyBytes := by decide
  acceptedHashIdentifiers :=
    show ∀ name ∈ hardened.acceptedHashIdentifiers.names,
      name ∈ standard.acceptedHashIdentifiers.names by decide
  acceptedHashConstructors :=
    show ∀ name ∈ hardened.acceptedHashConstructors.names,
      name ∈ standard.acceptedHashConstructors.names by decide
  secureSourceSymbols :=
    show ∀ name ∈ hardened.secureSourceSymbols.names,
      name ∈ standard.secureSourceSymbols.names by decide
  bitAlignment_pos := by decide
  bitAlignment_dvd := by decide

def nilEntropyProgram : Program :=
  ⟨some "main.go", [⟨"main", [⟨[.other none, .call nilEntropySignature]⟩]⟩]⟩

theorem auditAll_of_stricter_nilEntropyProgram :
    Policy.hardened.AtLeastAsStrict Policy.standard ∧
      ((Auditor.ofPolicy Policy.standard).auditAll [nilEntropyProgram]).failures =
        ((Auditor.ofPolicy Policy.hardened).auditAll [nilEntropyProgram]).failures ∧
      ((Auditor.ofPolicy Policy.standard).auditAll
          [nilEntropyProgram]).functionsAnalyzed =
        ((Auditor.ofPolicy Policy.hardened).auditAll
          [nilEntropyProgram]).functionsAnalyzed ∧
      (((Auditor.ofPolicy Policy.standard).auditAll
          [nilEntropyProgram]).findings.map Finding.subject).Sublist
        (((Auditor.ofPolicy Policy.hardened).auditAll
          [nilEntropyProgram]).findings.map Finding.subject) :=
  ⟨Policy.hardened_atLeastAsStrict,
    Auditor.auditAll_of_stricter Policy.hardened Policy.standard
      Policy.hardened_atLeastAsStrict [nilEntropyProgram]⟩

end RsaAudit
