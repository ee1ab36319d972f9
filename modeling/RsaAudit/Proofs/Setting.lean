import Mathlib.Data.List.Nodup
import RsaAudit.Policy

/-!
# Settings

A policy is a choice of values for seven settings, each with a key under which documents
give it.  To set one of them to another value leaves the others as they are.
-/

namespace RsaAudit

inductive Setting where
  | minimumBits
  | bitAlignment
  | minimumSessionKeyBytes
  | acceptedHashIdentifiers
  | acceptedHashConstructors
  | secureSourceSymbols
  | parallel
  deriving DecidableEq

namespace Setting

/-- The key of a setting in a document. -/
def name : Setting → String
  | minimumBits => "minimum_bits"
  | bitAlignment => "bit_alignment"
  | minimumSessionKeyBytes => "minimum_session_key_bytes"
  | acceptedHashIdentifiers => "accepted_hash_identifiers"
  | acceptedHashConstructors => "accepted_hash_constructors"
  | secureSourceSymbols => "secure_source_symbols"
  | parallel => "parallel"

/-- What a setting can be set to. -/
def Content : Setting → Type
  | minimumBits | bitAlignment => Int64
  | minimumSessionKeyBytes => UInt64
  | acceptedHashIdentifiers | acceptedHashConstructors | secureSourceSymbols => SymbolSet
  | parallel => Bool

def all : List Setting := [
  minimumBits, bitAlignment, minimumSessionKeyBytes, acceptedHashIdentifiers,
  acceptedHashConstructors, secureSourceSymbols, parallel]

theorem mem_all (setting : Setting) : setting ∈ all := by
  cases setting <;> decide

theorem nodup_names : (all.map name).Nodup := by
  decide

theorem name_injective {first second : Setting} (same : first.name = second.name) :
    first = second :=
  List.inj_on_of_nodup_map nodup_names first.mem_all second.mem_all same

end Setting

namespace Policy

/-- What a policy sets a setting to. -/
def value (policy : Policy) : (setting : Setting) → setting.Content
  | .minimumBits => policy.minimumBits
  | .bitAlignment => policy.bitAlignment
  | .minimumSessionKeyBytes => policy.minimumSessionKeyBytes
  | .acceptedHashIdentifiers => policy.acceptedHashIdentifiers
  | .acceptedHashConstructors => policy.acceptedHashConstructors
  | .secureSourceSymbols => policy.secureSourceSymbols
  | .parallel => policy.parallel

def ofValues (values : (setting : Setting) → setting.Content) : Policy where
  minimumBits := values .minimumBits
  bitAlignment := values .bitAlignment
  minimumSessionKeyBytes := values .minimumSessionKeyBytes
  acceptedHashIdentifiers := values .acceptedHashIdentifiers
  acceptedHashConstructors := values .acceptedHashConstructors
  secureSourceSymbols := values .secureSourceSymbols
  parallel := values .parallel

theorem value_ofValues (values : (setting : Setting) → setting.Content) (setting : Setting) :
    (ofValues values).value setting = values setting := by
  cases setting <;> rfl

theorem ofValues_value (policy : Policy) : ofValues policy.value = policy :=
  rfl

/-- The policy with another value for one setting. -/
def set (policy : Policy) : (setting : Setting) → setting.Content → Policy
  | .minimumBits, (bits : Int64) => { policy with minimumBits := bits }
  | .bitAlignment, (bits : Int64) => { policy with bitAlignment := bits }
  | .minimumSessionKeyBytes, (bytes : UInt64) => { policy with minimumSessionKeyBytes := bytes }
  | .acceptedHashIdentifiers, (names : SymbolSet) =>
      { policy with acceptedHashIdentifiers := names }
  | .acceptedHashConstructors, (names : SymbolSet) =>
      { policy with acceptedHashConstructors := names }
  | .secureSourceSymbols, (names : SymbolSet) => { policy with secureSourceSymbols := names }
  | .parallel, (choice : Bool) => { policy with parallel := choice }

theorem set_eq_ofValues (policy : Policy) (setting : Setting) (content : setting.Content) :
    policy.set setting content = ofValues (Function.update policy.value setting content) := by
  cases setting <;> rfl

end Policy

end RsaAudit
