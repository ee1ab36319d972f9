import RsaAudit.Check

/-!
# The rule table

Each operation that the audit judges has a rule: the checks that apply to a call
of it, in the order in which they report, and for some operations a finding that
every call gets.
-/

namespace RsaAudit

/-- The operations that the audit judges. -/
inductive Operation where
  | generateKey
  | generateMultiPrimeKey
  | encryptPKCS1v15
  | signPKCS1v15
  | decryptOAEP
  | decryptPKCS1v15SessionKey
  deriving DecidableEq

/-- A remark that every call of an operation gets. -/
structure Remark where
  code : String
  message : String
  deriving DecidableEq

/-- The checks for one operation, and its remark if it has one. -/
structure Rule where
  operation : Operation
  checks : List Check
  unconditional : Option Remark
  deriving DecidableEq

namespace Operation

def all : List Operation :=
  [.generateKey, .generateMultiPrimeKey, .encryptPKCS1v15, .signPKCS1v15,
    .decryptOAEP, .decryptPKCS1v15SessionKey]

def symbol : Operation → String
  | .generateKey => "crypto/rsa.GenerateKey"
  | .generateMultiPrimeKey => "crypto/rsa.GenerateMultiPrimeKey"
  | .encryptPKCS1v15 => "crypto/rsa.EncryptPKCS1v15"
  | .signPKCS1v15 => "crypto/rsa.SignPKCS1v15"
  | .decryptOAEP => "crypto/rsa.DecryptOAEP"
  | .decryptPKCS1v15SessionKey => "crypto/rsa.DecryptPKCS1v15SessionKey"

def ofSymbol? (symbol : String) : Option Operation :=
  all.find? fun operation => operation.symbol == symbol

def checks : Operation → List Check
  | .generateKey => [.secureEntropy 0, .minimumBits 1, .bitAlignment 1]
  | .generateMultiPrimeKey =>
      [.secureEntropy 0, .minimumBits 2, .bitAlignment 2, .primeCount 1 2]
  | .encryptPKCS1v15 => [.secureEntropy 0]
  | .signPKCS1v15 => [.secureEntropy 0, .blinding 0, .hashIdentifier 2]
  | .decryptOAEP => [.hashConstructor 0, .secureEntropy 1, .blinding 1]
  | .decryptPKCS1v15SessionKey => [.blinding 0, .sessionKeySize 3]

def remark? : Operation → Option Remark
  | .generateMultiPrimeKey => some {
      code := "deprecated-multi-prime"
      message := "use single-prime key generation (rsa.GenerateKey) instead of " ++
        "rsa.GenerateMultiPrimeKey" }
  | .encryptPKCS1v15 => some {
      code := "deprecated-pkcs1v15-encrypt"
      message := "use rsa.EncryptOAEP instead of rsa.EncryptPKCS1v15" }
  | .signPKCS1v15 => some {
      code := "deprecated-pkcs1v15-sign"
      message := "use rsa.SignPSS instead of rsa.SignPKCS1v15" }
  | _ => none

def rule (operation : Operation) : Rule :=
  ⟨operation, operation.checks, operation.remark?⟩

end Operation

namespace Rule

def table : List Rule :=
  Operation.all.map Operation.rule

/-- The rule for a callee, if it is one of the judged operations. -/
def lookup (symbol : String) : Option Rule :=
  (Operation.ofSymbol? symbol).map Operation.rule

def symbol (rule : Rule) : String :=
  rule.operation.symbol

/-- The number of arguments a call needs for every check to run. -/
def arity (rule : Rule) : Nat :=
  (rule.checks.flatMap Check.arguments).foldl (fun most index => max most (index + 1)) 0

end Rule

end RsaAudit
