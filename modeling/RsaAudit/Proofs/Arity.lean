import RsaAudit.Proofs.Verdict

/-!
# The number of arguments that a rule demands

A check fails only for want of an argument, and it is the first of its arguments
that is not there which it names.  So the number of arguments that a rule demands,
worked out from the indices alone, tells beforehand whether a check is going to fail.
-/

namespace RsaAudit

namespace Call

def missing (call : Call) (index : Nat) : CallError :=
  .missingArgument call.callee index call.position

theorem argument_of_le (call : Call) {index : Nat} (absent : call.args.length ≤ index) :
    call.argument index = .error (call.missing index) := by
  rw [argument, List.getElem?_eq_none absent]
  rfl

end Call

theorem Auditor.resolve_of_le (auditor : Auditor) (call : Call) {index : Nat}
    (absent : call.args.length ≤ index) :
    auditor.resolve call index = .error (call.missing index) := by
  rw [resolve, call.argument_of_le absent]
  rfl

namespace Check

/-- The first argument that a check looks at and that a call does not have. -/
def firstMissing? (check : Check) (call : Call) : Option Nat :=
  check.arguments.find? fun index => call.args.length ≤ index

theorem firstMissing?_eq_none_iff {check : Check} {call : Call} :
    check.firstMissing? call = none ↔
      ∀ index ∈ check.arguments, index < call.args.length := by
  simp [firstMissing?]

theorem message?_of_missing (auditor : Auditor) (call : Call) (check : Check) {index : Nat}
    (missing : check.firstMissing? call = some index) :
    check.message? auditor call = .error (call.missing index) := by
  cases check with
  | primeCount primes bits =>
      rw [firstMissing?, arguments, List.find?_cons] at missing
      by_cases noPrimes : call.args.length ≤ primes
      · obtain rfl : primes = index := by simpa [noPrimes] using missing
        rw [message?, auditor.resolve_of_le call noPrimes]
        rfl
      · -- The argument that comes first is there, so it is the other one that is missing.
        obtain ⟨noBits, rfl⟩ : call.args.length ≤ bits ∧ bits = index := by
          simpa [noPrimes, List.find?_singleton] using missing
        rw [message?, auditor.resolve_of_lt call (Nat.lt_of_not_le noPrimes), ok_bind,
          auditor.resolve_of_le call noBits]
        rfl
  | secureEntropy argument | blinding argument | minimumBits argument
  | bitAlignment argument | hashIdentifier argument | hashConstructor argument
  | sessionKeySize argument =>
      obtain ⟨absent, rfl⟩ : call.args.length ≤ argument ∧ argument = index := by
        simpa [firstMissing?, arguments, List.find?_singleton] using missing
      rw [message?, auditor.resolve_of_le call absent]
      rfl

/-- A check gives its verdict unless an argument is missing. -/
theorem evaluate_eq (auditor : Auditor) (call : Call) (check : Check) :
    check.evaluate auditor call =
      unlessFault ((check.firstMissing? call).map call.missing)
        (check.verdict auditor call) := by
  cases missing : check.firstMissing? call with
  | none =>
      exact check.evaluate_of_present auditor call (firstMissing?_eq_none_iff.mp missing)
  | some index =>
      rw [evaluate, check.message?_of_missing auditor call missing]
      rfl

/-- A check fails exactly if one of its arguments is missing. -/
theorem exists_evaluate_error_iff (auditor : Auditor) (call : Call) (check : Check) :
    (∃ error, check.evaluate auditor call = .error error) ↔
      ∃ index ∈ check.arguments, call.args.length ≤ index := by
  rw [check.evaluate_eq auditor call]
  cases missing : check.firstMissing? call with
  | none =>
      have present := firstMissing?_eq_none_iff.mp missing
      refine iff_of_false nofun ?_
      rintro ⟨index, looked, absent⟩
      exact Nat.not_lt_of_le absent (present index looked)
  | some index =>
      rw [firstMissing?] at missing
      have looked := List.mem_of_find?_eq_some missing
      have absent := List.find?_some missing
      exact iff_of_true ⟨_, rfl⟩ ⟨index, looked, of_decide_eq_true absent⟩

/-- Whatever makes a check fail is a missing argument. -/
theorem exists_missing_of_evaluate {auditor : Auditor} {call : Call} {check : Check}
    {error : CallError} (failed : check.evaluate auditor call = .error error) :
    ∃ index, error = .missingArgument call.callee index call.position := by
  rw [check.evaluate_eq auditor call] at failed
  cases missing : check.firstMissing? call with
  | none =>
      rw [missing] at failed
      cases failed
  | some index =>
      rw [missing] at failed
      cases failed
      exact ⟨index, rfl⟩

end Check

theorem Rule.lt_arity_iff (rule : Rule) (count : Nat) :
    count < rule.arity ↔ ∃ check ∈ rule.checks, ∃ index ∈ check.arguments, count ≤ index := by
  rw [← Nat.not_le, rule.arity_le_iff]
  simp

namespace Auditor

/-- The demand for arguments is exact.  A call with a usable position has fewer arguments
than its rule demands if and only if a check of the rule, run by itself, finds that an
argument is missing.  So the call is refused exactly if some check would fail; once it is
not refused, no check fails, and the findings are what the checks say one by one, and the
remark of the rule after them. -/
theorem checkCall_arity (auditor : Auditor) (rule : Rule) (call : Call)
    (valid : call.position.valid = true) :
    (call.args.length < rule.arity ↔
      ∃ check ∈ rule.checks, ∃ index,
        check.evaluate auditor call =
          .error (.missingArgument call.callee index call.position)) ∧
    ((∃ error, auditor.checkCall rule call = .error error) ↔
      ∃ check ∈ rule.checks, ∃ error, check.evaluate auditor call = .error error) ∧
    (rule.arity ≤ call.args.length →
      ∃ results : List (Option Finding),
        rule.checks.map (Check.evaluate auditor call) = results.map .ok ∧
        auditor.runChecks call rule.checks = .ok (results.filterMap id) ∧
        auditor.checkCall rule call =
          .ok (results.filterMap id ++ rule.unconditional.toList.map (remarkOn call))) := by
  have short_iff : call.args.length < rule.arity ↔
      ∃ check ∈ rule.checks, ∃ error, check.evaluate auditor call = .error error := by
    simp only [Check.exists_evaluate_error_iff, rule.lt_arity_iff]
  have usable : ¬ (call.position.file = "" ∨ call.position.line = 0) := by
    rw [← call.position.valid_eq_false_iff, valid]
    exact Bool.noConfusion
  refine ⟨?_, ?_, ?_⟩
  · rw [short_iff]
    constructor
    · rintro ⟨check, listed, error, failed⟩
      obtain ⟨index, rfl⟩ := Check.exists_missing_of_evaluate failed
      exact ⟨check, listed, index, failed⟩
    · rintro ⟨check, listed, index, failed⟩
      exact ⟨check, listed, _, failed⟩
  · rw [← short_iff, auditor.checkCall_eq, Rule.fault?, if_neg usable]
    by_cases short : call.args.length < rule.arity
    · simp [short, unlessFault]
    · simp [short, unlessFault]
  · intro enough
    have present := (rule.arity_le_iff call.args.length).mp enough
    refine ⟨rule.checks.map (Check.verdict auditor call), ?_, ?_, ?_⟩
    · rw [List.map_map]
      apply List.map_congr_left
      intro check listed
      exact check.evaluate_of_present auditor call (present check listed)
    · rw [auditor.runChecks_of_present call rule.checks present, List.filterMap_map]
      rfl
    · rw [auditor.checkCall_eq, Rule.fault?, if_neg usable, if_neg (by omega),
        List.filterMap_map]
      rfl

end Auditor

/-- A rule whose check on the number of primes looks first at the argument that comes
later. -/
def crossedRule : Rule where
  operation := .generateMultiPrimeKey
  checks := [.blinding 0, .primeCount 3 1]
  unconditional := some ⟨"deprecated", "use one prime"⟩

/-- A key with one argument too few for the rule. -/
def shortKey : Call where
  callee := "crypto/rsa.GenerateMultiPrimeKey"
  args := [.constant .nil, .constant (.int 2048), .unresolved none]
  position := ⟨"main.go", 3, 1⟩
  result := none

theorem checkCall_arity_shortKey :
    let auditor := Auditor.ofPolicy .standard
    shortKey.position.valid = true ∧ shortKey.args.length < crossedRule.arity ∧
      ∃ check ∈ crossedRule.checks, ∃ index,
        check.evaluate auditor shortKey =
          .error (.missingArgument shortKey.callee index shortKey.position) := by
  intro auditor
  have valid : shortKey.position.valid = true := by decide
  have short : shortKey.args.length < crossedRule.arity := by decide
  exact ⟨valid, short, (Auditor.checkCall_arity auditor crossedRule shortKey valid).1.mp short⟩

end RsaAudit
