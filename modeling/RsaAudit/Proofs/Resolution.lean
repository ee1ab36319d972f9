import Mathlib.Data.List.Sort
import RsaAudit.Resolver

/-!
# What a resolver sees

An argument is a core under some number of wrappings.  A resolver sees the core if
the wrappings are no more than it sees through, and nothing otherwise; what it
makes of a core it sees does not depend on the wrappings any more.
-/

namespace RsaAudit

namespace SymbolSet

theorem mem_foldl_insert (names : List String) (set : SymbolSet) (name : String) :
    name ∈ names.foldl (fun set name => set.insert name) set ↔
      name ∈ set ∨ name ∈ names := by
  induction names generalizing set with
  | nil => simp
  | cons first rest ih =>
      rw [List.foldl_cons, ih, mem_insert, List.mem_cons, or_assoc, or_left_comm]

theorem mem_ofList (names : List String) (name : String) :
    name ∈ ofList names ↔ name ∈ names := by
  have none : name ∉ empty := List.not_mem_nil
  simp [ofList, mem_foldl_insert, none]

theorem eq_of_mem_iff {first second : SymbolSet}
    (same : ∀ name, name ∈ first ↔ name ∈ second) : first = second := by
  have names : first.names = second.names :=
    first.increasing.eq_of_mem_iff second.increasing same
  cases first
  cases second
  cases names
  rfl

end SymbolSet

namespace Argument

def layers : Argument → Nat
  | .wrapped inner => inner.layers + 1
  | _ => 0

/-- What all wrappings of an argument hold. -/
def stripped : Argument → Argument
  | .wrapped inner => inner.stripped
  | argument => argument

/-- The core of an argument that has at most the given number of wrappings. -/
def core? (depth : Nat) (argument : Argument) : Option Argument :=
  if argument.layers ≤ depth then some argument.stripped else none

theorem core?_wrapped_succ (depth : Nat) (inner : Argument) :
    core? (depth + 1) (.wrapped inner) = core? depth inner := by
  simp [core?, layers, stripped]

end Argument

namespace Resolver

/-- What is made of a core, or of an argument whose core is out of reach. -/
def meaning (sources : SymbolSet) : Option Argument → Resolution
  | some (.callResult callee) =>
      if callee ∈ sources then .secureSource else .callResult callee
  | some (.constant value) => .constant value
  | some (.unresolved _) => .unresolved .externalInput
  | some (.wrapped _) | none => .unresolved .depthExceeded

theorem resolveWithin_eq_meaning (sources : SymbolSet) (depth : Nat)
    (argument : Argument) :
    resolveWithin sources depth argument =
      meaning sources (argument.core? depth) := by
  induction argument generalizing depth with
  | wrapped inner ih =>
      cases depth with
      | zero => rfl
      -- Each wrapping uses up one level, for the resolver and for the core.
      | succ depth => rw [Argument.core?_wrapped_succ, ← ih, resolveWithin]
  | callResult callee =>
      have trusted_iff := sources.contains_iff callee
      by_cases trusted : callee ∈ sources
      · simp [resolveWithin, trusted_iff, trusted, meaning, Argument.core?,
          Argument.layers, Argument.stripped]
      · simp [resolveWithin, trusted_iff, trusted, meaning, Argument.core?,
          Argument.layers, Argument.stripped]
  | constant value =>
      simp [resolveWithin, meaning, Argument.core?, Argument.layers,
        Argument.stripped]
  | unresolved origin =>
      simp [resolveWithin, meaning, Argument.core?, Argument.layers,
        Argument.stripped]

theorem resolve_eq_meaning (resolver : Resolver) (argument : Argument) :
    resolver.resolve argument =
      meaning resolver.secureSources (argument.core? resolver.maxDepth) :=
  resolveWithin_eq_meaning _ _ _

section

variable (sources : SymbolSet) (core : Option Argument)

theorem meaning_eq_secureSource_iff :
    meaning sources core = .secureSource ↔
      ∃ callee ∈ sources, core = some (.callResult callee) := by
  rcases core with - | (value | inner | callee | origin)
  · simp [meaning]
  · simp [meaning]
  · simp [meaning]
  · by_cases trusted : callee ∈ sources <;> simp [meaning, trusted]
  · simp [meaning]

theorem meaning_eq_constant_iff (value : Literal) :
    meaning sources core = .constant value ↔ core = some (.constant value) := by
  rcases core with - | (value | inner | callee | origin)
  · simp [meaning]
  · simp [meaning]
  · simp [meaning]
  · by_cases trusted : callee ∈ sources <;> simp [meaning, trusted]
  · simp [meaning]

theorem meaning_eq_callResult_iff (callee : String) :
    meaning sources core = .callResult callee ↔
      core = some (.callResult callee) ∧ callee ∉ sources := by
  rcases core with - | (value | inner | found | origin)
  · simp [meaning]
  · simp [meaning]
  · simp [meaning]
  · by_cases trusted : found ∈ sources
    · simp only [meaning, if_pos trusted]
      constructor
      · intro impossible
        cases impossible
      · rintro ⟨same, untrusted⟩
        cases same
        exact absurd trusted untrusted
    · simp only [meaning, if_neg trusted]
      constructor
      · intro same
        cases same
        exact ⟨rfl, trusted⟩
      · rintro ⟨same, -⟩
        cases same
        rfl
  · simp [meaning]

end

theorem foldl_choose_secureSource (names : List String) (draft : Draft) :
    (names.map Choice.secureSource).foldl Draft.choose draft =
      { draft with
        secureSources :=
          names.foldl (fun set name => set.insert name) draft.secureSources } := by
  induction names generalizing draft with
  | nil => rfl
  | cons name rest ih => rw [List.map_cons, List.foldl_cons, ih]; rfl

/-- The resolver of a policy trusts its sources and no others. -/
theorem mem_secureSources_ofPolicy (policy : Policy) (name : String) :
    name ∈ (ofPolicy policy).secureSources ↔ name ∈ policy.secureSourceSymbols := by
  rw [ofPolicy, build, List.foldl_cons, foldl_choose_secureSource]
  refine (SymbolSet.mem_foldl_insert _ SymbolSet.empty name).trans ?_
  constructor
  · rintro (impossible | member)
    · cases impossible
    · exact member
  · exact .inr

theorem maxDepth_ofPolicy (policy : Policy) :
    (ofPolicy policy).maxDepth = standardDepth := by
  rw [ofPolicy, build, List.foldl_cons, foldl_choose_secureSource]
  rfl

end Resolver

namespace Resolution

theorem isSecureSource_iff (found : Resolution) :
    found.isSecureSource = true ↔ found = .secureSource := by
  cases found <;> simp [isSecureSource]

theorem literal?_eq_some_iff (found : Resolution) (value : Literal) :
    found.literal? = some value ↔ found = .constant value := by
  cases found <;> simp [literal?]

theorem int?_eq_some_iff (found : Resolution) (number : Int64) :
    found.int? = some number ↔ found = .constant (.int number) := by
  rcases found with - | (number | text | content | -) | callee | obstacle <;>
    simp [int?, literal?, Literal.int?]

theorem isNil_iff (found : Resolution) :
    found.isNil = true ↔ found = .constant .nil := by
  rcases found with - | (number | text | content | -) | callee | obstacle <;>
    simp [isNil, literal?, Literal.isNil]

theorem callee?_eq_some_iff (found : Resolution) (callee : String) :
    found.callee? = some callee ↔ found = .callResult callee := by
  cases found <;> simp [callee?]

end Resolution

end RsaAudit
