import RsaAudit.Program

/-!
# Hash names

A hash is identified by a number, by the name of its constant, with or without
its package, or by its canonical name.  Everything is compared under the
canonical name.
-/

namespace RsaAudit.HashName

/-- The canonical names of the known hashes, in the order of their numbers, which
start at one. -/
def numbered : List String := [
  "MD4",
  "MD5",
  "SHA-1",
  "SHA-224",
  "SHA-256",
  "SHA-384",
  "SHA-512",
  "MD5+SHA1",
  "RIPEMD-160",
  "SHA3-224",
  "SHA3-256",
  "SHA3-384",
  "SHA3-512",
  "SHA-512/224",
  "SHA-512/256",
  "BLAKE2s-256",
  "BLAKE2b-256",
  "BLAKE2b-384",
  "BLAKE2b-512"]

/-- The names of constants for hashes, each with the canonical name of its hash. -/
def constants : List (String × String) := [
  ("MD4", "MD4"),
  ("MD5", "MD5"),
  ("SHA1", "SHA-1"),
  ("SHA224", "SHA-224"),
  ("SHA256", "SHA-256"),
  ("SHA384", "SHA-384"),
  ("SHA512", "SHA-512"),
  ("MD5SHA1", "MD5+SHA1"),
  ("RIPEMD160", "RIPEMD-160"),
  ("SHA3_224", "SHA3-224"),
  ("SHA3_256", "SHA3-256"),
  ("SHA3_384", "SHA3-384"),
  ("SHA3_512", "SHA3-512"),
  ("SHA512_224", "SHA-512/224"),
  ("SHA512_256", "SHA-512/256"),
  ("BLAKE2s_256", "BLAKE2s-256"),
  ("BLAKE2b_256", "BLAKE2b-256"),
  ("BLAKE2b_384", "BLAKE2b-384"),
  ("BLAKE2b_512", "BLAKE2b-512")]

/-- A name without the package it may be qualified with. -/
def unqualified (name : String) : String :=
  match "crypto.".toList.isPrefixOf? name.toList with
  | some rest => String.ofList rest
  | none => name

/-- The canonical form of a hash name; a name that is no constant for a hash
stands for itself. -/
def canonical (name : String) : String :=
  let bare := unqualified name
  match constants.find? (fun entry => entry.1 == bare) with
  | some entry => entry.2
  | none => bare

/-- The canonical name of the known hash with a given number. -/
def known? : Int → Option String
  | .ofNat (index + 1) => numbered[index]?
  | _ => none

/-- The canonical name of the hash with a given number; a number that no known
hash has is shown as such. -/
def ofNumber (number : Int64) : String :=
  match known? number.toInt with
  | some name => name
  | none => "Hash(" ++ Decimal.intText number.toInt ++ ")"

/-- The canonical name of the hash that a literal identifies. -/
def ofLiteral? : Literal → Option String
  | .int number => some (ofNumber number)
  | .str text => some (canonical text)
  | _ => none

end RsaAudit.HashName
