import Mathlib.Data.List.Basic
import Mathlib.Data.List.Forall2
import RsaAudit.Proofs.AuditReport
import RsaAudit.Proofs.Resolution

/-!
# What the audit of a function reads

An audit reads of a function the calls whose callee has a rule, and of such a call
its callee, its position, how many of the arguments that its rule demands are
there, and what the resolver makes of the arguments that the checks of the rule
look at.  Two functions that agree in all this get the same findings or the same
error.

Everything else is free to change.  `Instruction.SameReading` lists the changes one
by one, on the instructions of a function without regard to its blocks.
-/

namespace RsaAudit

/-! ## One call -/

namespace Call

def hasRule (call : Call) : Bool :=
  (Rule.lookup call.callee).isSome

end Call

namespace Auditor

/-- Two calls agree in all that an auditor reads of them. -/
structure ReadsAlike (auditor : Auditor) (first second : Call) : Prop where
  callee : first.callee = second.callee
  position : first.position = second.position
  count : ∀ rule ∈ Rule.lookup first.callee,
    min first.args.length rule.arity = min second.args.length rule.arity
  resolved : ∀ rule ∈ Rule.lookup first.callee, ∀ check ∈ rule.checks,
    ∀ index ∈ check.arguments,
      first.args[index]?.map auditor.resolver.resolve =
        second.args[index]?.map auditor.resolver.resolve

theorem resolutionAt_eq_getD (auditor : Auditor) (call : Call) (index : Nat) :
    auditor.resolutionAt call index =
      (call.args[index]?.map auditor.resolver.resolve).getD
        (auditor.resolver.resolve (.unresolved none)) := by
  rw [resolutionAt, Call.argumentAt, List.getD_eq_getElem?_getD]
  cases call.args[index]? <;> rfl

end Auditor

theorem Check.opinion_congr {policy : Policy} {first second : Nat → Resolution}
    {check : Check} (agree : ∀ index ∈ check.arguments, first index = second index) :
    check.opinion policy first = check.opinion policy second := by
  cases check with
  | primeCount primes bits =>
      have primesAgree : first primes = second primes := agree primes (by simp [arguments])
      have bitsAgree : first bits = second bits := agree bits (by simp [arguments])
      simp only [opinion, primesAgree, bitsAgree]
  | secureEntropy argument | blinding argument | minimumBits argument
  | bitAlignment argument | hashIdentifier argument | hashConstructor argument
  | sessionKeySize argument =>
      have argumentAgrees : first argument = second argument :=
        agree argument (by simp [arguments])
      simp only [opinion, argumentAgrees]

theorem Rule.fault?_congr {rule : Rule} {first second : Call}
    (callee : first.callee = second.callee) (position : first.position = second.position)
    (count : min first.args.length rule.arity = min second.args.length rule.arity) :
    rule.fault? first = rule.fault? second := by
  simp only [fault?, callee, position]
  by_cases short : first.args.length < rule.arity
  · -- The index in the error is the number of arguments, which then is not capped.
    have same : first.args.length = second.args.length := by omega
    rw [same]
  · have long : ¬ second.args.length < rule.arity := by omega
    rw [if_neg short, if_neg long]

namespace Auditor

variable {auditor : Auditor} {first second : Call}

theorem ReadsAlike.verdicts (alike : auditor.ReadsAlike first second) {rule : Rule}
    (found : rule ∈ Rule.lookup first.callee) :
    auditor.verdicts rule first = auditor.verdicts rule second := by
  have verdict : ∀ check ∈ rule.checks,
      check.verdict auditor first = check.verdict auditor second := by
    intro check listed
    have opinion : check.opinion auditor.policy (auditor.resolutionAt first) =
        check.opinion auditor.policy (auditor.resolutionAt second) := by
      apply Check.opinion_congr
      intro index argument
      rw [resolutionAt_eq_getD, resolutionAt_eq_getD,
        alike.resolved rule found check listed index argument]
    have finding (code message : String) :
        first.finding code message = second.finding code message := by
      rw [Call.finding, Call.finding, alike.position, alike.callee]
    rw [Check.verdict, Check.verdict, opinion, funext (finding check.code)]
  have remark : remarkOn first = remarkOn second := by
    funext remark
    rw [remarkOn, remarkOn, alike.position, alike.callee]
  rw [Auditor.verdicts, Auditor.verdicts, remark, List.filterMap_congr verdict]

theorem ReadsAlike.auditCall (alike : auditor.ReadsAlike first second) :
    auditor.auditCall first = auditor.auditCall second := by
  have sameRule : Rule.lookup first.callee = Rule.lookup second.callee :=
    congrArg Rule.lookup alike.callee
  rw [Auditor.auditCall, Auditor.auditCall, ← sameRule]
  cases found : Rule.lookup first.callee with
  | none => rfl
  | some rule =>
      have fault := Rule.fault?_congr alike.callee alike.position (alike.count rule found)
      dsimp only
      rw [checkCall_eq, checkCall_eq, fault, alike.verdicts found]

end Auditor

/-! ## All calls -/

def Function.ruledCalls (function : Function) : List Call :=
  function.calls.filter Call.hasRule

namespace Auditor

variable {auditor : Auditor}

def auditCalls (auditor : Auditor) (calls : List Call) :
    Except CallError (List Finding) :=
  return (← calls.mapM auditor.auditCall).flatten

theorem auditCalls_cons (call : Call) (rest : List Call) :
    auditor.auditCalls (call :: rest) = (do
      let findings ← auditor.auditCall call
      return findings ++ (← auditor.auditCalls rest)) := by
  rw [auditCalls, auditCalls, List.mapM_cons]
  cases auditor.auditCall call with
  | error fault => rfl
  | ok findings => cases rest.mapM auditor.auditCall <;> rfl

theorem auditCall_of_no_rule {call : Call} (unruled : call.hasRule = false) :
    auditor.auditCall call = .ok [] := by
  have absent : Rule.lookup call.callee = none := by
    simpa [Call.hasRule] using unruled
  rw [auditCall, absent]

theorem auditCalls_cons_of_no_rule {call : Call} (unruled : call.hasRule = false)
    (rest : List Call) : auditor.auditCalls (call :: rest) = auditor.auditCalls rest := by
  rw [auditCalls_cons, auditCall_of_no_rule unruled]
  cases auditor.auditCalls rest <;> rfl

/-- Calls without a rule leave no trace. -/
theorem auditCalls_filter_hasRule (calls : List Call) :
    auditor.auditCalls (calls.filter Call.hasRule) = auditor.auditCalls calls := by
  induction calls with
  | nil => rfl
  | cons call rest ih =>
      cases ruled : call.hasRule with
      | true => rw [List.filter_cons_of_pos ruled, auditCalls_cons, auditCalls_cons, ih]
      | false =>
          have unruled : ¬ call.hasRule = true := by simp [ruled]
          rw [List.filter_cons_of_neg unruled, ih, auditCalls_cons_of_no_rule ruled]

theorem auditFunction_eq_ruledCalls (function : Function) :
    auditor.auditFunction function = auditor.auditCalls function.ruledCalls :=
  (auditCalls_filter_hasRule function.calls).symm

theorem auditCalls_congr {first second : List Call}
    (alike : List.Forall₂ auditor.ReadsAlike first second) :
    auditor.auditCalls first = auditor.auditCalls second := by
  induction alike with
  | nil => rfl
  | cons call rest ih => rw [auditCalls_cons, auditCalls_cons, call.auditCall, ih]

end Auditor

/-! ## What is free to change -/

namespace Argument

/-- The argument with no remark on where anything comes from. -/
def withoutOrigins : Argument → Argument
  | .unresolved _ => .unresolved none
  | .wrapped inner => .wrapped inner.withoutOrigins
  | .constant value => .constant value
  | .callResult callee => .callResult callee

/-- Two arguments differ at most in origins, and in wrappings if both have no more
of them than the given number. -/
def Alike (depth : Nat) (first second : Argument) : Prop :=
  first.withoutOrigins = second.withoutOrigins ∨
    (first.layers ≤ depth ∧ second.layers ≤ depth ∧
      first.stripped.withoutOrigins = second.stripped.withoutOrigins)

theorem resolveWithin_withoutOrigins (sources : SymbolSet) (depth : Nat)
    (argument : Argument) :
    Resolver.resolveWithin sources depth argument.withoutOrigins =
      Resolver.resolveWithin sources depth argument := by
  induction argument generalizing depth with
  | wrapped inner ih =>
      cases depth with
      | zero => rfl
      | succ depth => exact ih depth
  | constant value => rfl
  | callResult callee => rfl
  | unresolved origin => cases depth <;> rfl

theorem stripped_stripped (argument : Argument) :
    argument.stripped.stripped = argument.stripped := by
  induction argument with
  | wrapped inner ih => exact ih
  | constant value => rfl
  | callResult callee => rfl
  | unresolved origin => rfl

theorem layers_stripped (argument : Argument) : argument.stripped.layers = 0 := by
  induction argument with
  | wrapped inner ih => exact ih
  | constant value => rfl
  | callResult callee => rfl
  | unresolved origin => rfl

theorem resolveWithin_stripped (sources : SymbolSet) {depth : Nat} {argument : Argument}
    (seen : argument.layers ≤ depth) :
    Resolver.resolveWithin sources depth argument.stripped =
      Resolver.resolveWithin sources depth argument := by
  have core : argument.stripped.core? depth = argument.core? depth := by
    simp [core?, layers_stripped, stripped_stripped, seen]
  rw [Resolver.resolveWithin_eq_meaning, Resolver.resolveWithin_eq_meaning, core]

theorem Alike.resolve {resolver : Resolver} {first second : Argument}
    (alike : Alike resolver.maxDepth first second) :
    resolver.resolve first = resolver.resolve second := by
  unfold Resolver.resolve
  rcases alike with same | ⟨firstSeen, secondSeen, same⟩
  · rw [← resolveWithin_withoutOrigins, same, resolveWithin_withoutOrigins]
  · rw [← resolveWithin_stripped _ firstSeen, ← resolveWithin_withoutOrigins, same,
      resolveWithin_withoutOrigins, resolveWithin_stripped _ secondSeen]

end Argument

/-- Two calls differ at most in their results, in arguments that no check of their
rule looks at, in arguments beyond those that the rule demands, and in origins and
wrappings of the others. -/
structure Call.Alike (depth : Nat) (first second : Call) : Prop where
  callee : first.callee = second.callee
  position : first.position = second.position
  count : ∀ rule ∈ Rule.lookup first.callee,
    min first.args.length rule.arity = min second.args.length rule.arity
  args : ∀ rule ∈ Rule.lookup first.callee, ∀ check ∈ rule.checks,
    ∀ index ∈ check.arguments,
      Option.Rel (Argument.Alike depth) first.args[index]? second.args[index]?

theorem Call.Alike.readsAlike {auditor : Auditor} {first second : Call}
    (alike : Call.Alike auditor.resolver.maxDepth first second) :
    auditor.ReadsAlike first second where
  callee := alike.callee
  position := alike.position
  count := alike.count
  resolved rule found check listed index argument := by
    have args := alike.args rule found check listed index argument
    generalize first.args[index]? = firstArgument at args ⊢
    generalize second.args[index]? = secondArgument at args ⊢
    cases args with
    | none => rfl
    | some same => exact congrArg some same.resolve

/-- Two runs of instructions differ only in what an audit with the given depth does
not read. -/
inductive Instruction.SameReading (depth : Nat) :
    List Instruction → List Instruction → Prop
  | nil : SameReading depth [] []
  | dropOther (opcode : Option String) {first second : List Instruction} :
      SameReading depth first second → SameReading depth (.other opcode :: first) second
  | addOther (opcode : Option String) {first second : List Instruction} :
      SameReading depth first second → SameReading depth first (.other opcode :: second)
  | dropUnruled {call : Call} {first second : List Instruction}
      (unruled : Rule.lookup call.callee = none) :
      SameReading depth first second → SameReading depth (.call call :: first) second
  | addUnruled {call : Call} {first second : List Instruction}
      (unruled : Rule.lookup call.callee = none) :
      SameReading depth first second → SameReading depth first (.call call :: second)
  | call {firstCall secondCall : Call} {first second : List Instruction}
      (alike : Call.Alike depth firstCall secondCall) :
      SameReading depth first second →
        SameReading depth (.call firstCall :: first) (.call secondCall :: second)

def Function.instructions (function : Function) : List Instruction :=
  function.blocks.flatMap Block.instructions

theorem Function.calls_eq_filterMap (function : Function) :
    function.calls = function.instructions.filterMap Instruction.call? := by
  rw [calls, instructions, List.filterMap_flatMap]

namespace Auditor

variable {auditor : Auditor}

theorem auditCalls_of_sameReading {first second : List Instruction}
    (same : Instruction.SameReading auditor.resolver.maxDepth first second) :
    auditor.auditCalls (first.filterMap Instruction.call?) =
      auditor.auditCalls (second.filterMap Instruction.call?) := by
  have skipped {call : Call} {rest : List Call} (unruled : Rule.lookup call.callee = none) :
      auditor.auditCalls (call :: rest) = auditor.auditCalls rest :=
    auditCalls_cons_of_no_rule (by simp [Call.hasRule, unruled]) rest
  induction same with
  | nil => rfl
  | dropOther opcode _ ih => exact ih
  | addOther opcode _ ih => exact ih
  | dropUnruled unruled _ ih => exact (skipped unruled).trans ih
  | addUnruled unruled _ ih => exact ih.trans (skipped unruled).symm
  | call alike _ ih =>
      rename_i firstCall secondCall first second _
      change auditor.auditCalls (firstCall :: first.filterMap Instruction.call?) =
        auditor.auditCalls (secondCall :: second.filterMap Instruction.call?)
      rw [auditCalls_cons, auditCalls_cons, alike.readsAlike.auditCall, ih]

/-- The audit of a function depends only on what it reads.  Two functions whose
calls with a rule agree pairwise in all that is read of them get the same findings
or the same error.  So names, block boundaries, instructions that are no calls,
calls without a rule, results, origins, arguments that no check looks at, arguments
beyond those demanded and wrappings that the resolver sees through have no
influence. -/
theorem auditFunction_reads (auditor : Auditor) (first second : Function) :
    (List.Forall₂ auditor.ReadsAlike first.ruledCalls second.ruledCalls →
      auditor.auditFunction first = auditor.auditFunction second) ∧
    (Instruction.SameReading auditor.resolver.maxDepth
        (first.blocks.flatMap Block.instructions)
        (second.blocks.flatMap Block.instructions) →
      auditor.auditFunction first = auditor.auditFunction second) := by
  constructor
  · intro alike
    rw [auditFunction_eq_ruledCalls, auditFunction_eq_ruledCalls, auditCalls_congr alike]
  · intro same
    have calls := auditCalls_of_sameReading same
    change auditor.auditCalls first.calls = auditor.auditCalls second.calls
    rw [first.calls_eq_filterMap, second.calls_eq_filterMap]
    exact calls

end Auditor

/-- A key is generated, and nothing else happens. -/
def plainKey : Call :=
  ⟨"crypto/rsa.GenerateKey", [.callResult "crypto/rand.Reader", .constant (.int 1024)],
    ⟨"main.go", 4, 9⟩, none⟩

/-- The same key as a result, with a wrapped source and an argument too many. -/
def decoratedKey : Call :=
  ⟨"crypto/rsa.GenerateKey",
    [.wrapped (.callResult "crypto/rand.Reader"), .constant (.int 1024),
      .unresolved (some "parameter")],
    ⟨"main.go", 4, 9⟩, some "key"⟩

/-- A call without a rule and without a usable position. -/
def unplacedCall : Call :=
  ⟨"fmt.Println", [], ⟨"", 0, 0⟩, none⟩

theorem alike_plainKey_decoratedKey : Call.Alike 1 plainKey decoratedKey where
  callee := rfl
  position := rfl
  count := by decide
  args := by
    intro rule found check listed index argument
    obtain rfl : Operation.generateKey.rule = rule := Option.some.inj found
    have source : Argument.Alike 1 (.callResult "crypto/rand.Reader")
        (.wrapped (.callResult "crypto/rand.Reader")) :=
      .inr ⟨by decide, by decide, rfl⟩
    have bits : Argument.Alike 1 (.constant (.int 1024)) (.constant (.int 1024)) :=
      .inl rfl
    simp only [Operation.rule, Operation.checks, List.mem_cons, List.not_mem_nil,
      or_false] at listed
    rcases listed with rfl | rfl | rfl
    · obtain rfl := List.mem_singleton.mp argument
      exact .some source
    · obtain rfl := List.mem_singleton.mp argument
      exact .some bits
    · obtain rfl := List.mem_singleton.mp argument
      exact .some bits

theorem auditFunction_reads_plainKey :
    let auditor := Auditor.ofPolicy Policy.standard
    let plain : Function := ⟨"main", [⟨[.call plainKey]⟩]⟩
    let decorated : Function :=
      ⟨"init", [⟨[.other (some "phi"), .call unplacedCall]⟩,
        ⟨[.call decoratedKey, .other none]⟩]⟩
    List.Forall₂ auditor.ReadsAlike plain.ruledCalls decorated.ruledCalls ∧
      Instruction.SameReading auditor.resolver.maxDepth
        (plain.blocks.flatMap Block.instructions)
        (decorated.blocks.flatMap Block.instructions) ∧
      auditor.auditFunction plain = auditor.auditFunction decorated ∧
      auditor.auditFunction plain = .ok [plainKey.finding "weak-bit-size"
        "always use 2048 bits or greater"] := by
  intro auditor plain decorated
  have alike : Call.Alike auditor.resolver.maxDepth plainKey decoratedKey :=
    alike_plainKey_decoratedKey
  have agree : List.Forall₂ auditor.ReadsAlike plain.ruledCalls decorated.ruledCalls :=
    .cons alike.readsAlike .nil
  have same : Instruction.SameReading auditor.resolver.maxDepth
      (plain.blocks.flatMap Block.instructions)
      (decorated.blocks.flatMap Block.instructions) :=
    .addOther _ (.addUnruled rfl (.call alike (.addOther _ .nil)))
  have read := Auditor.auditFunction_reads auditor plain decorated
  exact ⟨agree, same, read.1 agree, (read.2 same).trans (by decide +kernel)⟩

end RsaAudit
