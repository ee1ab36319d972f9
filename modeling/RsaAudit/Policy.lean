import RsaAudit.HashName
import RsaAudit.SymbolSet

/-!
# Audit policies

A policy sets the thresholds and the accepted names that the checks compare
with.  A policy that is read from a file is also validated; the checks
themselves work for any policy.
-/

namespace RsaAudit

/-- What an audit demands of the calls it sees. -/
structure Policy where
  /-- The least acceptable key size in bits. -/
  minimumBits : Int64
  /-- Key sizes are to be multiples of this number. -/
  bitAlignment : Int64
  /-- The least acceptable length of a session key. -/
  minimumSessionKeyBytes : UInt64
  /-- Hashes that may be used to sign, under any of their names. -/
  acceptedHashIdentifiers : SymbolSet
  /-- Functions that construct an acceptable hash. -/
  acceptedHashConstructors : SymbolSet
  /-- Symbols whose results are secure entropy. -/
  secureSourceSymbols : SymbolSet
  /-- Whether the functions of a program may be examined at the same time. -/
  parallel : Bool
  deriving DecidableEq

namespace Policy

/-- The entropy source that is trusted unless a policy says otherwise. -/
def standardSource : String := "crypto/rand.Reader"

/-- The policy in force where none is given. -/
def standard : Policy where
  minimumBits := 2048
  bitAlignment := 8
  minimumSessionKeyBytes := 16
  acceptedHashIdentifiers := .ofList ["SHA-256", "SHA-512"]
  acceptedHashConstructors := .ofList ["crypto/sha256.New", "crypto/sha512.New"]
  secureSourceSymbols := .ofList [standardSource]
  parallel := false

instance : Inhabited Policy := ⟨standard⟩

/-- Whether a hash with this canonical name may be used to sign. -/
def acceptsHash (policy : Policy) (name : String) : Bool :=
  policy.acceptedHashIdentifiers.names.any fun accepted =>
    HashName.canonical accepted == name

def withParallel (policy : Policy) (parallel : Bool) : Policy :=
  { policy with parallel }

/-- What makes a policy unusable. -/
inductive Defect where
  | minimumBits
  | bitAlignment
  | secureSourceSymbols
  deriving DecidableEq

namespace Defect

/-- The setting that is at fault. -/
def setting : Defect → String
  | .minimumBits => "minimum_bits"
  | .bitAlignment => "bit_alignment"
  | .secureSourceSymbols => "secure_source_symbols"

/-- What the setting has to satisfy. -/
def demand : Defect → String
  | .minimumBits | .bitAlignment => "must be greater than zero"
  | .secureSourceSymbols => "at least one secure source is required"

def message (defect : Defect) : String :=
  "invalid config value for " ++ defect.setting ++ ": " ++ defect.demand

end Defect

def defect? (policy : Policy) : Option Defect :=
  if policy.minimumBits ≤ 0 then some .minimumBits
  else if policy.bitAlignment ≤ 0 then some .bitAlignment
  else if policy.secureSourceSymbols.isEmpty then some .secureSourceSymbols
  else none

end Policy

end RsaAudit
