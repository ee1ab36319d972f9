import RsaAudit.Policy

/-!
# Resolving arguments

A resolver sees through a bounded number of wrappings and tells results of
trusted entropy sources from other call results.  What it cannot see through
stays unresolved, and why is recorded.
-/

namespace RsaAudit

/-- Why an argument could not be resolved. -/
inductive Obstacle where
  | externalInput
  | depthExceeded
  deriving DecidableEq

/-- What a resolver makes of an argument. -/
inductive Resolution where
  | secureSource
  | constant (value : Literal)
  | callResult (callee : String)
  | unresolved (obstacle : Obstacle)
  deriving DecidableEq

namespace Obstacle

def label : Obstacle → String
  | .externalInput => "external_input"
  | .depthExceeded => "depth_exceeded"

end Obstacle

namespace Resolution

def isSecureSource : Resolution → Bool
  | .secureSource => true
  | _ => false

def isResolved : Resolution → Bool
  | .unresolved _ => false
  | _ => true

def literal? : Resolution → Option Literal
  | .constant value => some value
  | _ => none

def int? (resolution : Resolution) : Option Int64 :=
  resolution.literal?.bind Literal.int?

def isNil (resolution : Resolution) : Bool :=
  resolution.literal?.any Literal.isNil

/-- The callee of an argument that is an untrusted call result. -/
def callee? : Resolution → Option String
  | .callResult callee => some callee
  | _ => none

def describe : Resolution → String
  | .secureSource => "secure_source"
  | .constant value => "constant(" ++ value.display ++ ")"
  | .callResult callee => "call_result(" ++ callee ++ ")"
  | .unresolved obstacle => "unresolved(" ++ obstacle.label ++ ")"

end Resolution

/-- A trusted set of entropy sources and a number of wrappings to see through. -/
structure Resolver where
  secureSources : SymbolSet
  maxDepth : Nat
  deriving DecidableEq

namespace Resolver

/-- The number of wrappings seen through unless said otherwise. -/
def standardDepth : Nat := 1

/-- See through at most `depth` wrappings, with `sources` trusted. -/
def resolveWithin (sources : SymbolSet) : Nat → Argument → Resolution
  | 0, .wrapped _ => .unresolved .depthExceeded
  | depth + 1, .wrapped inner => resolveWithin sources depth inner
  | _, .callResult callee =>
      if sources.contains callee then .secureSource else .callResult callee
  | _, .constant value => .constant value
  | _, .unresolved _ => .unresolved .externalInput

def resolve (resolver : Resolver) (argument : Argument) : Resolution :=
  resolveWithin resolver.secureSources resolver.maxDepth argument

/-- One choice made while a resolver is put together. -/
inductive Choice where
  /-- Trust one more entropy source. -/
  | secureSource (symbol : String)
  /-- See through this many wrappings; the last such choice counts. -/
  | maxDepth (depth : Nat)
  /-- Do not trust the standard entropy source by itself. -/
  | withoutDefaults

/-- A resolver under construction. -/
structure Draft where
  secureSources : SymbolSet
  maxDepth : Nat
  includeDefaults : Bool

namespace Draft

def initial : Draft := ⟨.empty, standardDepth, true⟩

def choose (draft : Draft) : Choice → Draft
  | .secureSource symbol =>
      { draft with secureSources := draft.secureSources.insert symbol }
  | .maxDepth depth => { draft with maxDepth := depth }
  | .withoutDefaults => { draft with includeDefaults := false }

def finish (draft : Draft) : Resolver where
  secureSources :=
    if draft.includeDefaults then draft.secureSources.insert Policy.standardSource
    else draft.secureSources
  maxDepth := draft.maxDepth

end Draft

/-- The resolver that a list of choices, made one after the other, leads to. -/
def build (choices : List Choice) : Resolver :=
  (choices.foldl Draft.choose .initial).finish

/-- The resolver that trusts exactly the sources of a policy. -/
def ofPolicy (policy : Policy) : Resolver :=
  build (.withoutDefaults :: policy.secureSourceSymbols.names.map .secureSource)

end Resolver

end RsaAudit
