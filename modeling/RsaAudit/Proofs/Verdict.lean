import RsaAudit.Audit
import RsaAudit.Proofs.FirstFault

/-!
# Verdicts on calls

A call can fail to be judged for two reasons only, and both can be read off the
call and its rule: its position is not usable, or it has too few arguments.  Once
these are out of the way every check gives a verdict.  This file separates the
two: the fault of a call, which depends on neither policy nor resolver, and the
findings on a call without fault, which are a plain function.
-/

namespace RsaAudit

namespace Position

theorem valid_eq_false_iff (position : Position) :
    position.valid = false ↔ position.file = "" ∨ position.line = 0 := by
  rw [valid, Bool.and_eq_false_iff, bne_eq_false_iff_eq, bne_eq_false_iff_eq]

end Position

namespace Call

/-- The argument at an index, with nothing known of one that is not there. -/
def argumentAt (call : Call) (index : Nat) : Argument :=
  call.args.getD index (.unresolved none)

theorem argument_of_lt (call : Call) {index : Nat}
    (present : index < call.args.length) :
    call.argument index = .ok (call.argumentAt index) := by
  rw [argument, argumentAt, List.getD_eq_getElem?_getD,
    List.getElem?_eq_getElem present]
  rfl

def finding (call : Call) (code message : String) : Finding :=
  { position := call.position, message, rule := code, callee := call.callee }

end Call

namespace Auditor

/-- What the resolver of an auditor makes of the argument at an index. -/
def resolutionAt (auditor : Auditor) (call : Call) (index : Nat) : Resolution :=
  auditor.resolver.resolve (call.argumentAt index)

theorem resolve_of_lt (auditor : Auditor) (call : Call) {index : Nat}
    (present : index < call.args.length) :
    auditor.resolve call index = .ok (auditor.resolutionAt call index) := by
  rw [resolve, call.argument_of_lt present]
  rfl

end Auditor

namespace Check

/-- What a check has to say of resolved arguments under a policy. -/
def opinion (policy : Policy) (resolved : Nat → Resolution) (check : Check) :
    Option String :=
  match check with
  | .primeCount primes bits => judgePrimes (resolved primes) (resolved bits)
  | .secureEntropy argument | .blinding argument | .minimumBits argument
  | .bitAlignment argument | .hashIdentifier argument | .hashConstructor argument
  | .sessionKeySize argument => judge policy check (resolved argument)

/-- The finding of a check on a call that has all the arguments it looks at. -/
def verdict (auditor : Auditor) (call : Call) (check : Check) : Option Finding :=
  (check.opinion auditor.policy (auditor.resolutionAt call)).map
    (call.finding check.code)

theorem message?_of_present (auditor : Auditor) (call : Call) (check : Check)
    (present : ∀ index ∈ check.arguments, index < call.args.length) :
    check.message? auditor call =
      .ok (check.opinion auditor.policy (auditor.resolutionAt call)) := by
  cases check with
  | primeCount primes bits =>
      have primesPresent : primes < call.args.length :=
        present primes (by simp [arguments])
      have bitsPresent : bits < call.args.length :=
        present bits (by simp [arguments])
      rw [message?, auditor.resolve_of_lt call primesPresent,
        auditor.resolve_of_lt call bitsPresent]
      rfl
  | secureEntropy argument | blinding argument | minimumBits argument
  | bitAlignment argument | hashIdentifier argument | hashConstructor argument
  | sessionKeySize argument =>
      have argumentPresent : argument < call.args.length :=
        present argument (by simp [arguments])
      rw [message?, auditor.resolve_of_lt call argumentPresent]
      rfl

theorem evaluate_of_present (auditor : Auditor) (call : Call) (check : Check)
    (present : ∀ index ∈ check.arguments, index < call.args.length) :
    check.evaluate auditor call = .ok (check.verdict auditor call) := by
  rw [evaluate, check.message?_of_present auditor call present]
  rfl

end Check

namespace Rule

private theorem foldl_max_succ_le_iff (indices : List Nat) (least count : Nat) :
    indices.foldl (fun most index => max most (index + 1)) least ≤ count ↔
      least ≤ count ∧ ∀ index ∈ indices, index < count := by
  induction indices generalizing least with
  | nil => simp
  | cons index rest ih =>
      rw [List.foldl_cons, ih, List.forall_mem_cons, Nat.max_le, and_assoc]
      rfl

/-- A call has at least as many arguments as its rule demands exactly when it has
every argument that a check of the rule looks at. -/
theorem arity_le_iff (rule : Rule) (count : Nat) :
    rule.arity ≤ count ↔
      ∀ check ∈ rule.checks, ∀ index ∈ check.arguments, index < count := by
  rw [arity, foldl_max_succ_le_iff]
  simp only [Nat.zero_le, true_and, List.mem_flatMap]
  constructor
  · intro below check member index argument
    exact below index ⟨check, member, argument⟩
  · rintro below index ⟨check, member, argument⟩
    exact below check member index argument

/-- The rule for a symbol is the rule of the operation that has the symbol. -/
theorem lookup_eq_some_iff {symbol : String} {rule : Rule} :
    lookup symbol = some rule ↔
      ∃ operation : Operation, operation.symbol = symbol ∧ operation.rule = rule := by
  rw [lookup, Option.map_eq_some_iff]
  constructor
  · rintro ⟨operation, named, same⟩
    rw [Operation.ofSymbol?] at named
    exact ⟨operation, eq_of_beq (List.find?_some named :), same⟩
  · rintro ⟨operation, rfl, same⟩
    refine ⟨operation, ?_, same⟩
    cases operation <;> rfl

/-- Why a rule cannot judge a call. -/
def fault? (rule : Rule) (call : Call) : Option CallError :=
  if call.position.file = "" ∨ call.position.line = 0 then
    some (.invalidPosition call.callee call.position)
  else if call.args.length < rule.arity then
    some (.missingArgument call.callee call.args.length call.position)
  else none

end Rule

namespace Auditor

def verdicts (auditor : Auditor) (rule : Rule) (call : Call) : List Finding :=
  rule.checks.filterMap (Check.verdict auditor call) ++
    rule.unconditional.toList.map (remarkOn call)

/-- An item may begin to give something, but none that gives something falls silent. -/
theorem filterMap_sublist_of_kept {Item Result : Type} (items : List Item)
    {first second : Item → Option Result}
    (kept : ∀ item result, first item = some result → second item = some result) :
    (items.filterMap first).Sublist (items.filterMap second) := by
  induction items with
  | nil => exact .slnil
  | cons item rest ih =>
      cases found : first item with
      | none =>
          rw [List.filterMap_cons_none found]
          cases other : second item with
          | none => rwa [List.filterMap_cons_none other]
          | some result =>
              rw [List.filterMap_cons_some other]
              exact ih.cons _
      | some result =>
          rw [List.filterMap_cons_some found, List.filterMap_cons_some (kept item result found)]
          exact ih.cons_cons _

theorem runChecks_of_present (auditor : Auditor) (call : Call)
    (checks : List Check)
    (present : ∀ check ∈ checks, ∀ index ∈ check.arguments,
      index < call.args.length) :
    auditor.runChecks call checks =
      .ok (checks.filterMap (Check.verdict auditor call)) := by
  have evaluated : checks.mapM (Check.evaluate auditor call) =
      .ok (checks.map (Check.verdict auditor call)) :=
    mapM_of_ok fun check member =>
      check.evaluate_of_present auditor call (present check member)
  rw [runChecks, evaluated]
  simp [bind, Except.bind, pure, Except.pure, List.filterMap_map]

/-- A call is judged unless it has a fault, and no check can fail on its own. -/
theorem checkCall_eq (auditor : Auditor) (rule : Rule) (call : Call) :
    auditor.checkCall rule call =
      unlessFault (rule.fault? call) (auditor.verdicts rule call) := by
  rw [checkCall, Rule.fault?]
  by_cases unusable : call.position.file = "" ∨ call.position.line = 0
  · have invalid := call.position.valid_eq_false_iff.mpr unusable
    rw [invalid, if_pos unusable]
    rfl
  · have valid : call.position.valid = true := by
      rw [← Bool.not_eq_false, call.position.valid_eq_false_iff]
      exact unusable
    rw [valid, if_neg unusable]
    by_cases short : call.args.length < rule.arity
    · rw [if_pos short, if_pos short]
      rfl
    · -- From here on every argument that a check looks at is there.
      have present := (rule.arity_le_iff call.args.length).mp (by omega)
      rw [if_neg short, if_neg short,
        auditor.runChecks_of_present call rule.checks present]
      rfl

end Auditor

end RsaAudit
