import RsaAudit.Finding
import RsaAudit.Resolver

/-!
# Checks on one call

A check looks at one or two arguments of a call, resolved, and says nothing or
reports one finding.  An argument that is not there makes the check fail.
-/

namespace RsaAudit

/-- An auditor judges calls under a policy, with a resolver for their arguments. -/
structure Auditor where
  policy : Policy
  resolver : Resolver

/-- A check, with the indices of the arguments it looks at. -/
inductive Check where
  /-- The argument is a secure entropy source. -/
  | secureEntropy (argument : Nat)
  /-- The argument is not nil, so that blinding takes place. -/
  | blinding (argument : Nat)
  /-- The argument is no smaller than the minimum key size. -/
  | minimumBits (argument : Nat)
  /-- The argument is a multiple of the alignment. -/
  | bitAlignment (argument : Nat)
  /-- The number of primes is within the recommendation for the key size. -/
  | primeCount (primes bits : Nat)
  /-- The argument identifies an accepted hash. -/
  | hashIdentifier (argument : Nat)
  /-- The argument comes from an accepted hash constructor. -/
  | hashConstructor (argument : Nat)
  /-- The argument is a long enough session key. -/
  | sessionKeySize (argument : Nat)
  deriving DecidableEq

/-- The largest recommended number of primes for a key size that has one. -/
def recommendedMaxPrimes (bits : Int64) : Option Int64 :=
  if bits = 1024 then some 3
  else if bits = 2048 then some 3
  else if bits = 4096 then some 4
  else if bits = 8192 then some 5
  else none

/-- The argument of a call at an index, or the error that it is missing. -/
def Call.argument (call : Call) (index : Nat) : Except CallError Argument :=
  match call.args[index]? with
  | some argument => .ok argument
  | none => .error (.missingArgument call.callee index call.position)

namespace Auditor

def resolve (auditor : Auditor) (call : Call) (index : Nat) :
    Except CallError Resolution :=
  (call.argument index).map auditor.resolver.resolve

end Auditor

namespace Check

def code : Check → String
  | .secureEntropy _ => "weak-entropy"
  | .blinding _ => "missing-blinding"
  | .minimumBits _ => "weak-bit-size"
  | .bitAlignment _ => "bit-alignment"
  | .primeCount _ _ => "prime-count"
  | .hashIdentifier _ => "weak-signing-hash"
  | .hashConstructor _ => "weak-oaep-hash"
  | .sessionKeySize _ => "weak-session-key"

def arguments : Check → List Nat
  | .primeCount primes bits => [primes, bits]
  | .secureEntropy argument | .blinding argument | .minimumBits argument
  | .bitAlignment argument | .hashIdentifier argument | .hashConstructor argument
  | .sessionKeySize argument => [argument]

/-- What a check demands, in words. -/
def describe : Check → String
  | .secureEntropy argument =>
      "arg" ++ Decimal.natText argument ++ " is a secure entropy source"
  | .blinding argument => "arg" ++ Decimal.natText argument ++ " is not nil"
  | .minimumBits argument =>
      "arg" ++ Decimal.natText argument ++ " meets the minimum bit size"
  | .bitAlignment argument => "arg" ++ Decimal.natText argument ++ " is byte aligned"
  | .primeCount primes bits =>
      "arg" ++ Decimal.natText primes ++
        " primes within the recommended maximum for arg" ++ Decimal.natText bits ++
        " bits"
  | .hashIdentifier argument =>
      "arg" ++ Decimal.natText argument ++ " names an accepted hash"
  | .hashConstructor argument =>
      "arg" ++ Decimal.natText argument ++ " constructs an accepted hash"
  | .sessionKeySize argument =>
      "arg" ++ Decimal.natText argument ++ " meets the minimum session key size"

def entropyMessage : String :=
  "use the crypto/rand.Reader instead for a cryptographically secure random number generator"

def blindingMessage : String :=
  "do not use nil for entropy source to perform blinding to avoid timing side-channel attacks"

def signingHashMessage : String :=
  "use SHA 256/512 for hash when signing"

def oaepHashMessage : String :=
  "use SHA 256/512 for hash when decrypting or encrypting"

/-- Whether a number is no multiple of an alignment; no number is misaligned to
zero. -/
def misaligned (bits alignment : Int64) : Bool :=
  alignment != 0 && bits % alignment != 0

/-- Whether a constant is too short for a session key; nil is. -/
def tooShort (minimum : Nat) (key : Literal) : Bool :=
  key.isNil || key.byteLength?.any (· < minimum)

/-- What a check on one resolved argument has to say under a policy.  The check on
the number of primes looks at two arguments and is left to `judgePrimes`. -/
def judge (policy : Policy) : Check → Resolution → Option String
  | .secureEntropy _, found =>
      if found.isSecureSource then none else some entropyMessage
  | .blinding _, found => if found.isNil then some blindingMessage else none
  | .minimumBits _, found =>
      if found.int?.any (· < policy.minimumBits) then
        some ("always use " ++ Decimal.intText policy.minimumBits.toInt ++
          " bits or greater")
      else none
  | .bitAlignment _, found =>
      if found.int?.any (misaligned · policy.bitAlignment) then
        some ("use a bit size that is a multiple of " ++
          Decimal.intText policy.bitAlignment.toInt)
      else none
  | .hashIdentifier _, found =>
      if (found.literal?.bind HashName.ofLiteral?).any (!policy.acceptsHash ·) then
        some signingHashMessage
      else none
  | .hashConstructor _, found =>
      if found.callee?.any (!policy.acceptedHashConstructors.contains ·) then
        some oaepHashMessage
      else none
  | .sessionKeySize _, found =>
      if found.literal?.any (tooShort policy.minimumSessionKeyBytes.toNat) then
        some ("use a session key size of " ++
          Decimal.natText policy.minimumSessionKeyBytes.toNat ++ " bytes or greater")
      else none
  | .primeCount _ _, _ => none

def judgePrimes (primes bits : Resolution) : Option String := do
  let primes ← primes.int?
  let bits ← bits.int?
  let recommended ← recommendedMaxPrimes bits
  if recommended < primes then
    some ("the recommended maximum number of primes for " ++
      Decimal.intText bits.toInt ++ " bits is " ++ Decimal.intText recommended.toInt)
  else none

/-- The message of a check on a call, if it has something to say. -/
def message? (auditor : Auditor) (call : Call) (check : Check) :
    Except CallError (Option String) :=
  match check with
  | .primeCount primes bits => do
      let primes ← auditor.resolve call primes
      let bits ← auditor.resolve call bits
      return judgePrimes primes bits
  | .secureEntropy argument | .blinding argument | .minimumBits argument
  | .bitAlignment argument | .hashIdentifier argument | .hashConstructor argument
  | .sessionKeySize argument => do
      return judge auditor.policy check (← auditor.resolve call argument)

/-- The finding of a check on a call, if it has something to say. -/
def evaluate (auditor : Auditor) (call : Call) (check : Check) :
    Except CallError (Option Finding) := do
  let message ← check.message? auditor call
  return message.map fun message =>
    { position := call.position, message, rule := check.code, callee := call.callee }

end Check

end RsaAudit
