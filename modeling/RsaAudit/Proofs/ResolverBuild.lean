import Mathlib.Logic.Function.Iterate
import RsaAudit.Proofs.Resolution

/-!
# Putting a resolver together

A resolver is put together by choices, made one after the other.  Each choice changes one
part of the draft: it adds a source, sets the number of wrappings to see through, or
gives up the standard source for good.  The standard source is added at the very end, so
it does not matter when it was given up; of the numbers only the last one counts.

What a finished resolver makes of an argument depends only on the number of wrappings
around it and on what they hold.
-/

namespace RsaAudit

namespace Resolver

def Choice.depth? : Choice → Option Nat
  | .maxDepth depth => some depth
  | _ => none

namespace Draft

section Step

variable (draft : Draft) (choice : Choice)

theorem mem_secureSources_choose (symbol : String) :
    symbol ∈ (draft.choose choice).secureSources ↔
      symbol ∈ draft.secureSources ∨ choice = .secureSource symbol := by
  cases choice with
  | secureSource chosen =>
      simp [choose, SymbolSet.mem_insert, or_comm, eq_comm]
  | maxDepth depth => simp [choose]
  | withoutDefaults => simp [choose]

theorem maxDepth_choose :
    (draft.choose choice).maxDepth = choice.depth?.getD draft.maxDepth := by
  cases choice <;> rfl

theorem includeDefaults_choose :
    (draft.choose choice).includeDefaults = true ↔
      draft.includeDefaults = true ∧ choice ≠ .withoutDefaults := by
  cases choice <;> simp [choose]

end Step

section Run

variable (choices : List Choice) (draft : Draft)

theorem mem_secureSources_foldl (symbol : String) :
    symbol ∈ (choices.foldl choose draft).secureSources ↔
      symbol ∈ draft.secureSources ∨ .secureSource symbol ∈ choices := by
  induction choices generalizing draft with
  | nil => simp
  | cons choice rest ih =>
      rw [List.foldl_cons, ih, mem_secureSources_choose, List.mem_cons, or_assoc, eq_comm]

theorem maxDepth_foldl :
    (choices.foldl choose draft).maxDepth =
      (choices.filterMap Choice.depth?).getLast?.getD draft.maxDepth := by
  induction choices generalizing draft with
  | nil => rfl
  | cons choice rest ih =>
      rw [List.foldl_cons, ih, maxDepth_choose]
      -- A number set now counts only if none is set later.
      cases set : choice.depth? with
      | none => simp [set]
      | some depth => simp [set, List.getLast?_cons]

theorem includeDefaults_foldl :
    (choices.foldl choose draft).includeDefaults = true ↔
      draft.includeDefaults = true ∧ .withoutDefaults ∉ choices := by
  induction choices generalizing draft with
  | nil => simp
  | cons choice rest ih =>
      rw [List.foldl_cons, ih, includeDefaults_choose, List.mem_cons, not_or, and_assoc, ne_comm]

end Run

theorem mem_secureSources_finish (draft : Draft) (symbol : String) :
    symbol ∈ draft.finish.secureSources ↔
      symbol ∈ draft.secureSources ∨
        symbol = Policy.standardSource ∧ draft.includeDefaults = true := by
  by_cases included : draft.includeDefaults = true
  · simp [finish, included, SymbolSet.mem_insert, or_comm]
  · simp [finish, included]

end Draft

theorem mem_secureSources_build (choices : List Choice) (symbol : String) :
    symbol ∈ (build choices).secureSources ↔
      .secureSource symbol ∈ choices ∨
        symbol = Policy.standardSource ∧ .withoutDefaults ∉ choices := by
  have none : symbol ∉ Draft.initial.secureSources := List.not_mem_nil
  have included : Draft.initial.includeDefaults = true := rfl
  rw [build, Draft.mem_secureSources_finish, Draft.mem_secureSources_foldl,
    Draft.includeDefaults_foldl]
  simp [none, included]

theorem maxDepth_build (choices : List Choice) :
    (build choices).maxDepth = (choices.filterMap Choice.depth?).getLast?.getD 1 :=
  Draft.maxDepth_foldl choices .initial

theorem ofPolicy_eq (policy : Policy) :
    ofPolicy policy = ⟨policy.secureSourceSymbols, 1⟩ := by
  have sources : (ofPolicy policy).secureSources = policy.secureSourceSymbols :=
    SymbolSet.eq_of_mem_iff (mem_secureSources_ofPolicy policy)
  rw [← sources, ← show (ofPolicy policy).maxDepth = 1 from maxDepth_ofPolicy policy]

end Resolver

namespace Argument

theorem layers_iterate (count : Nat) (core : Argument) :
    (wrapped^[count] core).layers = core.layers + count := by
  induction count with
  | zero => rfl
  | succ count ih =>
      rw [Function.iterate_succ_apply', layers, ih]
      rfl

theorem stripped_iterate (count : Nat) (core : Argument) :
    (wrapped^[count] core).stripped = core.stripped := by
  induction count with
  | zero => rfl
  | succ count ih => rw [Function.iterate_succ_apply', stripped, ih]

end Argument

namespace Resolver

variable (resolver : Resolver) {count : Nat}

theorem resolve_iterate_of_lt (many : resolver.maxDepth < count) (core : Argument) :
    resolver.resolve (Argument.wrapped^[count] core) = .unresolved .depthExceeded := by
  have beyond : ¬ (Argument.wrapped^[count] core).layers ≤ resolver.maxDepth := by
    rw [Argument.layers_iterate]
    omega
  rw [resolve_eq_meaning, Argument.core?, if_neg beyond]
  rfl

theorem resolve_iterate_of_le (few : count ≤ resolver.maxDepth) {core : Argument}
    (bare : core.layers = 0) :
    resolver.resolve (Argument.wrapped^[count] core) =
      meaning resolver.secureSources (some core.stripped) := by
  have within : (Argument.wrapped^[count] core).layers ≤ resolver.maxDepth := by
    rw [Argument.layers_iterate]
    omega
  rw [resolve_eq_meaning, Argument.core?, if_pos within, Argument.stripped_iterate]

/-- A resolver that is put together by any choices trusts the chosen sources, and the
standard one unless it was given up at some point; it sees through as many wrappings as
was said last, or through one.  Under more wrappings than these it sees nothing.  Under
no more than these it sees what they hold: the result of a trusted source, the callee of
another call, a constant, or nothing that is known.  The resolver for a policy trusts the
sources of the policy and sees through one wrapping. -/
theorem build_resolves (choices : List Choice) :
    let resolver := build choices
    (∀ symbol, symbol ∈ resolver.secureSources ↔
        .secureSource symbol ∈ choices ∨
          symbol = "crypto/rand.Reader" ∧ .withoutDefaults ∉ choices) ∧
      resolver.maxDepth = (choices.filterMap Choice.depth?).getLast?.getD 1 ∧
      (∀ count core, resolver.maxDepth < count →
        resolver.resolve (Argument.wrapped^[count] core) = .unresolved .depthExceeded) ∧
      (∀ count, count ≤ resolver.maxDepth →
        (∀ callee, resolver.resolve (Argument.wrapped^[count] (.callResult callee)) =
          if callee ∈ resolver.secureSources then .secureSource else .callResult callee) ∧
        (∀ value, resolver.resolve (Argument.wrapped^[count] (.constant value)) =
          .constant value) ∧
        ∀ origin, resolver.resolve (Argument.wrapped^[count] (.unresolved origin)) =
          .unresolved .externalInput) ∧
      ∀ policy, ofPolicy policy = ⟨policy.secureSourceSymbols, 1⟩ := by
  intro resolver
  refine ⟨mem_secureSources_build choices, maxDepth_build choices, ?_, ?_, ofPolicy_eq⟩
  · intro count core many
    exact resolver.resolve_iterate_of_lt many core
  · intro count few
    refine ⟨?_, ?_, ?_⟩
    · intro callee
      exact resolver.resolve_iterate_of_le few rfl
    · intro value
      exact resolver.resolve_iterate_of_le few rfl
    · intro origin
      exact resolver.resolve_iterate_of_le few rfl

/-- Choices that repeat themselves and correct each other. -/
def hardwareChoices : List Choice :=
  [.maxDepth 5, .secureSource "hw.Rng", .withoutDefaults, .maxDepth 2, .secureSource "hw.Rng"]

theorem build_resolves_hardwareChoices :
    let resolver := build hardwareChoices
    resolver.maxDepth = 2 ∧ "hw.Rng" ∈ resolver.secureSources ∧
      "crypto/rand.Reader" ∉ resolver.secureSources ∧
      resolver.resolve (.wrapped (.wrapped (.callResult "hw.Rng"))) = .secureSource ∧
      resolver.resolve (.wrapped (.wrapped (.wrapped (.callResult "hw.Rng")))) =
        .unresolved .depthExceeded := by
  intro resolver
  obtain ⟨sources, depth, beyond, within, -⟩ := build_resolves hardwareChoices
  have trusted : "hw.Rng" ∈ resolver.secureSources :=
    (sources "hw.Rng").mpr (.inl (by simp [hardwareChoices]))
  have givenUp : "crypto/rand.Reader" ∉ resolver.secureSources :=
    mt (sources "crypto/rand.Reader").mp (by simp [hardwareChoices])
  have two : resolver.maxDepth = 2 := depth
  refine ⟨two, trusted, givenUp, ?_, beyond 3 _ (by rw [two]; decide)⟩
  exact ((within 2 (by rw [two])).1 "hw.Rng").trans (if_pos trusted)

end Resolver

end RsaAudit
