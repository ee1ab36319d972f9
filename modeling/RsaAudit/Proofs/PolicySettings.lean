import Mathlib.Data.List.Basic
import RsaAudit.Proofs.AuditReport
import RsaAudit.Proofs.DecisionTable
import RsaAudit.Proofs.Setting

/-!
# What a setting of a policy governs

Two audits of the same programs judge the same calls, so their reports can differ
only where a check that one of them runs comes to another verdict in the other.
This gives a frame rule: if the verdicts agree for all checks but those with
certain codes, the reports are equal once the findings with these codes are left
out.

The trusted entropy sources are read by the resolver, before any check knows what an
argument is for.  So they also bear on the check of hash constructors: a constructor
that is declared to be a source is no longer seen as the result of a call.  Every other
setting, a threshold, a set of accepted names or the choice of parallel examination, is
read by one check at most.
-/

namespace RsaAudit

def Report.without (codes : List String) (report : Report) : Report :=
  { report with findings := report.findings.filter fun finding => finding.rule ∉ codes }

/-! ## The frame rule -/

namespace Check

theorem filter_verdict_congr {first second : Auditor} {call : Call} {codes : List String}
    {check : Check}
    (agree : check.code ∉ codes → check.verdict first call = check.verdict second call) :
    (check.verdict first call).filter (fun finding => finding.rule ∉ codes) =
      (check.verdict second call).filter (fun finding => finding.rule ∉ codes) := by
  by_cases governed : check.code ∈ codes
  · -- Whatever the check has to say is left out on both sides.
    have dropped (auditor : Auditor) :
        (check.verdict auditor call).filter (fun finding => finding.rule ∉ codes) =
          none := by
      rw [Option.filter_eq_none_iff]
      intro finding found
      obtain ⟨message, -, rfl⟩ := Option.map_eq_some_iff.mp found
      simp [Call.finding, governed]
    rw [dropped first, dropped second]
  · rw [agree governed]

end Check

namespace Auditor

variable {first second : Auditor} {codes : List String}

theorem filter_findingsOn_congr {call : Call}
    (agree : ∀ rule ∈ Rule.lookup call.callee, ∀ check ∈ rule.checks,
      check.code ∉ codes → check.verdict first call = check.verdict second call) :
    (first.findingsOn call).filter (fun finding => finding.rule ∉ codes) =
      (second.findingsOn call).filter (fun finding => finding.rule ∉ codes) := by
  rw [findingsOn, findingsOn]
  cases found : Rule.lookup call.callee with
  | none => rfl
  | some rule =>
      have checks : ∀ check ∈ rule.checks,
          (check.verdict first call).filter (fun finding => finding.rule ∉ codes) =
            (check.verdict second call).filter (fun finding => finding.rule ∉ codes) := by
        intro check listed
        exact Check.filter_verdict_congr (agree rule found check listed)
      simp only [verdicts, List.filter_append, List.filter_filterMap]
      rw [List.filterMap_congr checks]

/-- The frame rule: if all checks that run agree, but for those with certain codes, the
reports are the same without the findings under these codes. -/
theorem without_auditAll_congr {programs : List Program}
    (agree : ∀ call ∈ judgedCalls programs, ∀ rule ∈ Rule.lookup call.callee,
      ∀ check ∈ rule.checks, check.code ∉ codes →
        check.verdict first call = check.verdict second call) :
    (first.auditAll programs).without codes = (second.auditAll programs).without codes := by
  have findings :
      (first.auditAll programs).findings.filter (fun finding => finding.rule ∉ codes) =
        (second.auditAll programs).findings.filter fun finding => finding.rule ∉ codes := by
    rw [auditAll_findings, auditAll_findings, List.filter_flatMap, List.filter_flatMap]
    apply List.flatMap_congr
    intro call judged
    exact filter_findingsOn_congr (agree call judged)
  have failures : (first.auditAll programs).failures = (second.auditAll programs).failures := by
    rw [auditAll_eq, auditAll_eq]
  have counted : (first.auditAll programs).functionsAnalyzed =
      (second.auditAll programs).functionsAnalyzed := by
    rw [auditAll_eq, auditAll_eq]
  rw [Report.without, Report.without, findings, failures, counted]

end Auditor

/-! ## Entropy sources -/

def Policy.withSources (policy : Policy) (sources : SymbolSet) : Policy :=
  { policy with secureSourceSymbols := sources }

namespace Check

/-- Apart from the entropy check, only the check of hash constructors notices a change
of sources, and only for a constructor that is a source before or after it. -/
theorem reports_sources_iff {policy : Policy} {before after : SymbolSet}
    {core : Nat → Option Argument} {code message : String} {check : Check}
    (noEntropy : check.code ≠ "weak-entropy")
    (settled : ∀ argument constructor, check = .hashConstructor argument →
      core argument = some (.callResult constructor) →
        constructor ∉ policy.acceptedHashConstructors →
          (constructor ∈ after ↔ constructor ∈ before)) :
    check.Reports policy after core code message ↔
      check.Reports policy before core code message := by
  cases check with
  | secureEntropy argument => exact absurd rfl noEntropy
  | hashConstructor argument =>
      apply and_congr_right
      intro _
      apply and_congr_right
      intro _
      apply exists_congr
      intro constructor
      apply and_congr_right
      intro found
      apply and_congr_left
      intro refused
      exact not_congr (settled argument constructor rfl found refused)
  | _ => exact Iff.rfl

theorem verdict_withSources {policy : Policy} {sources : SymbolSet} {call : Call}
    {check : Check} (noEntropy : check.code ≠ "weak-entropy")
    (settled : ∀ argument constructor, check = .hashConstructor argument →
      call.core? Resolver.standardDepth argument = some (.callResult constructor) →
        constructor ∉ policy.acceptedHashConstructors →
          (constructor ∈ sources ↔ constructor ∈ policy.secureSourceSymbols)) :
    check.verdict (.ofPolicy (policy.withSources sources)) call =
      check.verdict (.ofPolicy policy) call := by
  have samePolicy (trusted : SymbolSet) (code message : String) :
      check.Reports (policy.withSources sources) trusted
          (call.core? Resolver.standardDepth) code message ↔
        check.Reports policy trusted (call.core? Resolver.standardDepth) code message := by
    cases check <;> exact Iff.rfl
  have sameSources (code message : String) :
      check.Reports policy (Resolver.ofPolicy (policy.withSources sources)).secureSources
          (call.core? Resolver.standardDepth) code message ↔
        check.Reports policy (Resolver.ofPolicy policy).secureSources
          (call.core? Resolver.standardDepth) code message := by
    apply reports_sources_iff noEntropy
    intro argument constructor isCheck found refused
    rw [Resolver.mem_secureSources_ofPolicy, Resolver.mem_secureSources_ofPolicy]
    exact settled argument constructor isCheck found refused
  apply Option.ext
  intro finding
  simp only [verdict_eq_some_iff, Auditor.ofPolicy, Resolver.maxDepth_ofPolicy,
    samePolicy, sameSources]

end Check

/-! ## The findings that a setting governs -/

/-- The codes of the findings that a setting governs. -/
def Setting.codes : Setting → List String
  | .minimumBits => ["weak-bit-size"]
  | .bitAlignment => ["bit-alignment"]
  | .minimumSessionKeyBytes => ["weak-session-key"]
  | .acceptedHashIdentifiers => ["weak-signing-hash"]
  | .acceptedHashConstructors => ["weak-oaep-hash"]
  | .secureSourceSymbols => ["weak-entropy", "weak-oaep-hash"]
  | .parallel => []

namespace Check

theorem opinion_set {policy : Policy} {setting : Setting} {check : Check}
    (ungoverned : check.code ∉ setting.codes) (content : setting.Content)
    (resolved : Nat → Resolution) :
    check.opinion (policy.set setting content) resolved = check.opinion policy resolved := by
  -- Of the eight checks only the governed one reads the setting.
  cases setting with
  | minimumBits =>
      cases check with
      | minimumBits argument => exact absurd (List.mem_singleton_self _) ungoverned
      | _ => rfl
  | bitAlignment =>
      cases check with
      | bitAlignment argument => exact absurd (List.mem_singleton_self _) ungoverned
      | _ => rfl
  | minimumSessionKeyBytes =>
      cases check with
      | sessionKeySize argument => exact absurd (List.mem_singleton_self _) ungoverned
      | _ => rfl
  | acceptedHashIdentifiers =>
      cases check with
      | hashIdentifier argument => exact absurd (List.mem_singleton_self _) ungoverned
      | _ => rfl
  | acceptedHashConstructors =>
      cases check with
      | hashConstructor argument => exact absurd (List.mem_singleton_self _) ungoverned
      | _ => rfl
  | secureSourceSymbols | parallel => cases check <;> rfl

theorem verdict_of_resolver {policy : Policy} {setting : Setting} {content : setting.Content}
    (resolver : Resolver.ofPolicy (policy.set setting content) = .ofPolicy policy)
    {check : Check} (ungoverned : check.code ∉ setting.codes) (call : Call) :
    check.verdict (.ofPolicy (policy.set setting content)) call =
      check.verdict (.ofPolicy policy) call := by
  have resolved : (Auditor.ofPolicy (policy.set setting content)).resolutionAt call =
      (Auditor.ofPolicy policy).resolutionAt call := by
    funext index
    rw [Auditor.resolutionAt, Auditor.resolutionAt, Auditor.ofPolicy, Auditor.ofPolicy,
      resolver]
  rw [verdict, verdict, resolved]
  exact congrArg (Option.map _) (opinion_set ungoverned content _)

theorem verdict_set {policy : Policy} {setting : Setting} {check : Check}
    (ungoverned : check.code ∉ setting.codes) (content : setting.Content) (call : Call) :
    check.verdict (.ofPolicy (policy.set setting content)) call =
      check.verdict (.ofPolicy policy) call := by
  cases setting with
  | secureSourceSymbols =>
      have codes : check.code ≠ "weak-entropy" ∧ check.code ≠ "weak-oaep-hash" := by
        simpa [Setting.codes] using ungoverned
      apply verdict_withSources codes.1
      rintro argument constructor rfl
      exact absurd rfl codes.2
  | _ =>
      -- The resolver reads no setting but the sources.
      exact verdict_of_resolver rfl ungoverned call

end Check

namespace Auditor

/-- Each setting governs its own findings only: when one setting has another value, the
functions that fail, their errors and the count are the same, and so are all findings
under other codes, with their messages and in their order. -/
theorem auditAll_set (policy : Policy) (setting : Setting) (content : setting.Content)
    (programs : List Program) :
    ((ofPolicy (policy.set setting content)).auditAll programs).without setting.codes =
      ((ofPolicy policy).auditAll programs).without setting.codes := by
  apply without_auditAll_congr
  intro call _ rule _ check _ ungoverned
  exact Check.verdict_set ungoverned content call

end Auditor

/-! ## Hash constructors that are sources -/

namespace Check

/-- The check of hash constructors accepts the result of a call if the callee is an
accepted constructor, and also if it is a declared entropy source. -/
theorem evaluate_hashConstructor (policy : Policy) {call : Call} {argument : Nat}
    {constructor : String}
    (found : call.core? Resolver.standardDepth argument = some (.callResult constructor)) :
    (Check.hashConstructor argument).evaluate (.ofPolicy policy) call =
      .ok (if constructor ∈ policy.acceptedHashConstructors ∨
          constructor ∈ policy.secureSourceSymbols then none
        else some (call.finding "weak-oaep-hash"
          "use SHA 256/512 for hash when decrypting or encrypting")) := by
  have present : argument < call.args.length := by
    by_contra absent
    have missing : call.argumentAt argument = .unresolved none := by
      rw [Call.argumentAt, List.getD_eq_getElem?_getD, List.getElem?_eq_none (by omega)]
      rfl
    rw [Call.core?, missing] at found
    cases found
  have evaluated := (Check.hashConstructor argument).evaluate_of_present
    (.ofPolicy policy) call (by simpa [arguments] using present)
  rw [evaluated]
  apply congrArg Except.ok
  apply Option.ext
  intro finding
  rw [verdict_eq_some_iff]
  simp only [Auditor.ofPolicy, Resolver.maxDepth_ofPolicy, Reports,
    Resolver.mem_secureSources_ofPolicy, found]
  grind

end Check

namespace Rule

/-- Hash constructors are checked in one place only. -/
theorem eq_decryptOAEP_of_hashConstructor {symbol : String} {rule : Rule} {argument : Nat}
    (found : rule ∈ lookup symbol) (listed : .hashConstructor argument ∈ rule.checks) :
    symbol = Operation.decryptOAEP.symbol ∧ argument = 0 := by
  obtain ⟨operation, spelled, rfl⟩ := lookup_eq_some_iff.mp found
  cases operation with
  | decryptOAEP =>
      refine ⟨spelled.symm, ?_⟩
      simpa [Operation.rule, Operation.checks] using listed
  | _ => simp [Operation.rule, Operation.checks] at listed

end Rule

namespace Auditor

/-- When the declared entropy sources change, the same functions fail and all findings
stay as they are, apart from those on entropy and those on hash constructors.  A
finding of the latter kind depends on the sources only if a decryption takes its hash
from a constructor that is a source in one of the two policies and not in the other:
the check of hash constructors passes over the results of sources. -/
theorem auditAll_withSources (policy : Policy) (sources : SymbolSet)
    (programs : List Program) :
    let before := (ofPolicy policy).auditAll programs
    let after := (ofPolicy (policy.withSources sources)).auditAll programs
    after.without ["weak-entropy", "weak-oaep-hash"] =
        before.without ["weak-entropy", "weak-oaep-hash"] ∧
      ((∀ call ∈ judgedCalls programs, call.callee = "crypto/rsa.DecryptOAEP" →
          ∀ constructor,
            call.core? Resolver.standardDepth 0 = some (.callResult constructor) →
            constructor ∉ policy.acceptedHashConstructors →
              (constructor ∈ sources ↔ constructor ∈ policy.secureSourceSymbols)) →
        after.without ["weak-entropy"] = before.without ["weak-entropy"]) ∧
      ∀ (call : Call) (argument : Nat) (constructor : String),
        call.core? Resolver.standardDepth argument = some (.callResult constructor) →
          (Check.hashConstructor argument).evaluate (ofPolicy policy) call =
            .ok (if constructor ∈ policy.acceptedHashConstructors ∨
                constructor ∈ policy.secureSourceSymbols then none
              else some (call.finding "weak-oaep-hash"
                "use SHA 256/512 for hash when decrypting or encrypting")) := by
  intro before after
  refine ⟨?_, ?_, ?_⟩
  · apply without_auditAll_congr
    intro call _ rule _ check _ other
    have ungoverned : check.code ∉ Setting.secureSourceSymbols.codes := other
    exact Check.verdict_set ungoverned sources call
  · intro settled
    apply without_auditAll_congr
    intro call judged rule found check listed other
    have noEntropy : check.code ≠ "weak-entropy" := by
      simpa using other
    apply Check.verdict_withSources noEntropy
    rintro argument constructor rfl core refused
    obtain ⟨callee, rfl⟩ := Rule.eq_decryptOAEP_of_hashConstructor found listed
    exact settled call judged callee constructor core refused
  · intro call argument constructor found
    exact Check.evaluate_hashConstructor policy found

end Auditor

def md5Decryption : Call where
  callee := "crypto/rsa.DecryptOAEP"
  args := [.callResult "crypto/md5.New", .wrapped (.callResult "crypto/rand.Reader")]
  position := ⟨"main.go", 3, 1⟩
  result := none

def md5Program : Program :=
  ⟨some "main.go", [⟨"main", [⟨[.call md5Decryption]⟩]⟩]⟩

theorem auditAll_withSources_md5Program :
    let policy := Policy.standard
    let sources := SymbolSet.ofList ["crypto/rand.Reader", "hw.Rng"]
    let before := (Auditor.ofPolicy policy).auditAll [md5Program]
    let after := (Auditor.ofPolicy (policy.withSources sources)).auditAll [md5Program]
    (∀ call ∈ Auditor.judgedCalls [md5Program], call.callee = "crypto/rsa.DecryptOAEP" →
        ∀ constructor,
          call.core? Resolver.standardDepth 0 = some (.callResult constructor) →
          constructor ∉ policy.acceptedHashConstructors →
            (constructor ∈ sources ↔ constructor ∈ policy.secureSourceSymbols)) ∧
      after.without ["weak-entropy"] = before.without ["weak-entropy"] ∧
      before.findings = [md5Decryption.finding "weak-oaep-hash"
        "use SHA 256/512 for hash when decrypting or encrypting"] ∧
      md5Decryption.core? Resolver.standardDepth 0 = some (.callResult "crypto/md5.New") ∧
      (Check.hashConstructor 0).evaluate (Auditor.ofPolicy policy) md5Decryption =
        .ok (some (md5Decryption.finding "weak-oaep-hash"
          "use SHA 256/512 for hash when decrypting or encrypting")) := by
  intro policy sources before after
  have settled : ∀ call ∈ Auditor.judgedCalls [md5Program],
      call.callee = "crypto/rsa.DecryptOAEP" → ∀ constructor,
        call.core? Resolver.standardDepth 0 = some (.callResult constructor) →
        constructor ∉ policy.acceptedHashConstructors →
          (constructor ∈ sources ↔ constructor ∈ policy.secureSourceSymbols) := by
    intro call judged _ constructor found _
    obtain rfl : call = md5Decryption := by
      have listed : Auditor.judgedCalls [md5Program] = [md5Decryption] := by
        decide +kernel
      rw [listed] at judged
      exact List.mem_singleton.mp judged
    cases found
    decide +kernel
  obtain ⟨-, equal, evaluated⟩ :=
    Auditor.auditAll_withSources policy sources [md5Program]
  refine ⟨settled, equal settled, by decide +kernel, rfl, ?_⟩
  exact (evaluated md5Decryption 0 "crypto/md5.New" rfl).trans (by decide +kernel)

/-- A hash constructor that is declared to be an entropy source is not reported any
more, so a declared source can hide a finding that is not on entropy. -/
theorem weakOaepHash_hidden_by_source :
    let sources := SymbolSet.ofList ["crypto/md5.New", "crypto/rand.Reader"]
    let before := (Auditor.ofPolicy Policy.standard).auditAll [md5Program]
    let after :=
      (Auditor.ofPolicy (Policy.standard.withSources sources)).auditAll [md5Program]
    "crypto/md5.New" ∉ Policy.standard.acceptedHashConstructors ∧
      before.without ["weak-entropy"] ≠ after.without ["weak-entropy"] ∧
      before.findings = [md5Decryption.finding "weak-oaep-hash"
        "use SHA 256/512 for hash when decrypting or encrypting"] ∧
      after.findings = [] := by
  decide +kernel

end RsaAudit
