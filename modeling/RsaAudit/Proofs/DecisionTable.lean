import RsaAudit.Proofs.HashTable
import RsaAudit.Proofs.Resolution
import RsaAudit.Proofs.Verdict

/-!
# The decision table

What a check reports is decided by the cores of the arguments it looks at.  The
table below says for each check under which condition it reports, with which code
and with which message.  It speaks of integers where the checks compute with
64-bit words, and it does not mention how arguments are resolved.  A second table has
an entry for each judged operation, with its checks and its remark.

The main result of this file is that the rules are the entries of the second table,
and that a call with a usable position and enough arguments gets exactly the findings
of the first one, in the order of the checks of its entry, and the remark of the entry
after them.
-/

namespace RsaAudit

/-- The recommended numbers of primes: key size and largest number. -/
def primeRecommendations : List (Int × Int) :=
  [(1024, 3), (2048, 3), (4096, 4), (8192, 5)]

namespace Policy

theorem acceptsHash_eq_false_iff (policy : Policy) (name : String) :
    policy.acceptsHash name = false ↔
      ∀ accepted ∈ policy.acceptedHashIdentifiers, ¬ HashName.Spells accepted name := by
  rw [acceptsHash, List.any_eq_false]
  simp only [beq_iff_eq, HashName.spells_iff]
  exact Iff.rfl

end Policy

namespace HashName

/-- The constant in a place names a hash when it is a number or a text. -/
theorem exists_ofLiteral?_iff (core : Option Argument) (name : String) :
    (∃ literal, core = some (.constant literal) ∧ ofLiteral? literal = some name) ↔
      (∃ number, core = some (.constant (.int number)) ∧ Numbers number.toInt name) ∨
        ∃ text, core = some (.constant (.str text)) ∧ Spells text name := by
  simp only [numbers_iff, spells_iff]
  constructor
  · rintro ⟨literal, constant, named⟩
    cases literal with
    | int number => exact .inl ⟨number, constant, Option.some.inj named⟩
    | str text => exact .inr ⟨text, constant, Option.some.inj named⟩
    | bytes content => cases named
    | nil => cases named
  · rintro (⟨number, constant, rfl⟩ | ⟨text, constant, rfl⟩)
    · exact ⟨.int number, constant, rfl⟩
    · exact ⟨.str text, constant, rfl⟩

end HashName

/-- The core of the argument at an index, unless it is out of reach. -/
def Call.core? (call : Call) (depth index : Nat) : Option Argument :=
  (call.argumentAt index).core? depth

namespace Check

/-- The decision table.  A check reports a code and a message under a policy, when
the results of `sources` are secure entropy and `core` gives the core of each
argument that is not out of reach. -/
def Reports (policy : Policy) (sources : SymbolSet)
    (core : Nat → Option Argument) (code message : String) : Check → Prop
  | .secureEntropy argument =>
      code = "weak-entropy" ∧
      message =
        "use the crypto/rand.Reader instead for a cryptographically secure random number generator" ∧
      ¬ ∃ callee ∈ sources, core argument = some (.callResult callee)
  | .blinding argument =>
      code = "missing-blinding" ∧
      message =
        "do not use nil for entropy source to perform blinding to avoid timing side-channel attacks" ∧
      core argument = some (.constant .nil)
  | .minimumBits argument =>
      code = "weak-bit-size" ∧
      message = "always use " ++ Decimal.intText policy.minimumBits.toInt ++
        " bits or greater" ∧
      ∃ bits, core argument = some (.constant (.int bits)) ∧
        bits.toInt < policy.minimumBits.toInt
  | .bitAlignment argument =>
      code = "bit-alignment" ∧
      message = "use a bit size that is a multiple of " ++
        Decimal.intText policy.bitAlignment.toInt ∧
      ∃ bits, core argument = some (.constant (.int bits)) ∧
        policy.bitAlignment.toInt ≠ 0 ∧ ¬ policy.bitAlignment.toInt ∣ bits.toInt
  | .primeCount primesArgument bitsArgument =>
      code = "prime-count" ∧
      ∃ primes bits most, core primesArgument = some (.constant (.int primes)) ∧
        core bitsArgument = some (.constant (.int bits)) ∧
        (bits.toInt, most) ∈ primeRecommendations ∧ most < primes.toInt ∧
        message = "the recommended maximum number of primes for " ++
          Decimal.intText bits.toInt ++ " bits is " ++ Decimal.intText most
  | .hashIdentifier argument =>
      code = "weak-signing-hash" ∧
      message = "use SHA 256/512 for hash when signing" ∧
      ∃ name,
        ((∃ number, core argument = some (.constant (.int number)) ∧
            HashName.Numbers number.toInt name) ∨
          ∃ text, core argument = some (.constant (.str text)) ∧
            HashName.Spells text name) ∧
        ∀ accepted ∈ policy.acceptedHashIdentifiers, ¬ HashName.Spells accepted name
  | .hashConstructor argument =>
      code = "weak-oaep-hash" ∧
      message = "use SHA 256/512 for hash when decrypting or encrypting" ∧
      ∃ callee, core argument = some (.callResult callee) ∧
        callee ∉ sources ∧ callee ∉ policy.acceptedHashConstructors
  | .sessionKeySize argument =>
      code = "weak-session-key" ∧
      message = "use a session key size of " ++
        Decimal.natText policy.minimumSessionKeyBytes.toNat ++ " bytes or greater" ∧
      (core argument = some (.constant .nil) ∨
        (∃ content, core argument = some (.constant (.bytes content)) ∧
          content.length < policy.minimumSessionKeyBytes.toNat) ∨
        ∃ text, core argument = some (.constant (.str text)) ∧
          text.utf8ByteSize < policy.minimumSessionKeyBytes.toNat)

/-- Alignment is divisibility of integers, also for negative numbers and for the
one quotient that does not fit a word. -/
theorem misaligned_iff (bits alignment : Int64) :
    misaligned bits alignment = true ↔
      alignment.toInt ≠ 0 ∧ ¬ alignment.toInt ∣ bits.toInt := by
  rw [misaligned, Bool.and_eq_true, bne_iff_ne, bne_iff_ne]
  rw [Ne, Ne, ← Int64.toInt_inj, ← Int64.toInt_inj, Int64.toInt_mod,
    Int64.toInt_zero, Int.dvd_iff_tmod_eq_zero]

/-- The constant in a place is too short a key when it is nil, or a byte string or
text with too few bytes. -/
theorem exists_tooShort_iff (minimum : Nat) (core : Option Argument) :
    (∃ key, core = some (.constant key) ∧ tooShort minimum key = true) ↔
      core = some (.constant .nil) ∨
        (∃ content, core = some (.constant (.bytes content)) ∧
          content.length < minimum) ∨
        ∃ text, core = some (.constant (.str text)) ∧ text.utf8ByteSize < minimum := by
  constructor
  · rintro ⟨key, constant, short⟩
    cases key with
    | int number => simp [tooShort, Literal.isNil, Literal.byteLength?] at short
    | str text =>
        have fewer : text.utf8ByteSize < minimum := by
          simpa [tooShort, Literal.isNil, Literal.byteLength?] using short
        exact .inr (.inr ⟨text, constant, fewer⟩)
    | bytes content =>
        have fewer : content.length < minimum := by
          simpa [tooShort, Literal.isNil, Literal.byteLength?] using short
        exact .inr (.inl ⟨content, constant, fewer⟩)
    | nil => exact .inl constant
  · rintro (constant | ⟨content, constant, fewer⟩ | ⟨text, constant, fewer⟩)
    · exact ⟨.nil, constant, rfl⟩
    · exact ⟨.bytes content, constant, by
        simpa [tooShort, Literal.isNil, Literal.byteLength?] using fewer⟩
    · exact ⟨.str text, constant, by
        simpa [tooShort, Literal.isNil, Literal.byteLength?] using fewer⟩

theorem mem_primeRecommendations_iff (bits : Int64) (most : Int) :
    (bits.toInt, most) ∈ primeRecommendations ↔
      ∃ recommended, recommendedMaxPrimes bits = some recommended ∧
        recommended.toInt = most := by
  constructor
  · intro listed
    simp only [primeRecommendations, List.mem_cons, Prod.mk.injEq,
      List.not_mem_nil, or_false] at listed
    rcases listed with ⟨size, rfl⟩ | ⟨size, rfl⟩ | ⟨size, rfl⟩ | ⟨size, rfl⟩
    · obtain rfl : bits = 1024 := Int64.toInt_inj.mp size
      exact ⟨3, rfl, rfl⟩
    · obtain rfl : bits = 2048 := Int64.toInt_inj.mp size
      exact ⟨3, rfl, rfl⟩
    · obtain rfl : bits = 4096 := Int64.toInt_inj.mp size
      exact ⟨4, rfl, rfl⟩
    · obtain rfl : bits = 8192 := Int64.toInt_inj.mp size
      exact ⟨5, rfl, rfl⟩
  · rintro ⟨recommended, found, rfl⟩
    rw [recommendedMaxPrimes] at found
    split at found
    · cases found
      subst bits
      decide
    split at found
    · cases found
      subst bits
      decide
    split at found
    · cases found
      subst bits
      decide
    split at found
    · cases found
      subst bits
      decide
    · cases found

theorem judgePrimes_eq_some_iff (primesFound bitsFound : Resolution)
    (message : String) :
    judgePrimes primesFound bitsFound = some message ↔
      ∃ primes bits most, primesFound = .constant (.int primes) ∧
        bitsFound = .constant (.int bits) ∧
        (bits.toInt, most) ∈ primeRecommendations ∧ most < primes.toInt ∧
        message = "the recommended maximum number of primes for " ++
          Decimal.intText bits.toInt ++ " bits is " ++ Decimal.intText most := by
  rw [judgePrimes]
  simp only [Option.bind_eq_bind, Option.bind_eq_some_iff,
    Resolution.int?_eq_some_iff, Option.ite_none_right_eq_some, Option.some.injEq,
    Int64.lt_iff_toInt_lt, mem_primeRecommendations_iff]
  constructor
  · rintro ⟨primes, primesEq, bits, bitsEq, recommended, found, many, same⟩
    exact ⟨primes, bits, recommended.toInt, primesEq, bitsEq,
      ⟨recommended, found, rfl⟩, many, same.symm⟩
  · rintro ⟨primes, bits, _, primesEq, bitsEq, ⟨recommended, found, rfl⟩, many, same⟩
    exact ⟨primes, primesEq, bits, bitsEq, recommended, found, many, same.symm⟩

private theorem says_iff {condition : Prop} [Decidable condition]
    {said message : String} :
    (if condition then some said else none) = some message ↔
      message = said ∧ condition := by
  rw [Option.ite_none_right_eq_some, Option.some.injEq, and_comm, eq_comm]

/-- A check has to say of resolved arguments what the table says of their cores. -/
theorem opinion_eq_some_iff (policy : Policy) (sources : SymbolSet)
    (core : Nat → Option Argument) (check : Check) (message : String) :
    check.opinion policy (fun index => Resolver.meaning sources (core index)) =
        some message ↔
      check.Reports policy sources core check.code message := by
  -- In each case the condition of the check is turned into the one of the table,
  -- from what is resolved to the core, and from words to integers.
  cases check with
  | secureEntropy argument =>
      rw [opinion, judge, ← ite_not, says_iff, Resolution.isSecureSource_iff,
        Resolver.meaning_eq_secureSource_iff]
      simp only [Reports, code, true_and]
      rfl
  | blinding argument =>
      rw [opinion, judge, says_iff, Resolution.isNil_iff,
        Resolver.meaning_eq_constant_iff]
      simp only [Reports, code, true_and]
      rfl
  | minimumBits argument =>
      rw [opinion, judge, says_iff, Option.any_eq_true]
      simp only [Reports, code, true_and, Resolution.int?_eq_some_iff,
        Resolver.meaning_eq_constant_iff, decide_eq_true_eq, Int64.lt_iff_toInt_lt]
  | bitAlignment argument =>
      rw [opinion, judge, says_iff, Option.any_eq_true]
      simp only [Reports, code, true_and, Resolution.int?_eq_some_iff,
        Resolver.meaning_eq_constant_iff, misaligned_iff]
  | primeCount primes bits =>
      rw [opinion, judgePrimes_eq_some_iff]
      simp only [Reports, code, true_and, Resolver.meaning_eq_constant_iff]
  | hashIdentifier argument =>
      rw [opinion, judge, says_iff, Option.any_eq_true]
      simp only [Reports, code, true_and, Option.bind_eq_some_iff,
        Resolution.literal?_eq_some_iff, Resolver.meaning_eq_constant_iff,
        Bool.not_eq_true', policy.acceptsHash_eq_false_iff]
      simp only [HashName.exists_ofLiteral?_iff]
      rfl
  | hashConstructor argument =>
      rw [opinion, judge, says_iff, Option.any_eq_true]
      simp only [Reports, code, true_and, Resolution.callee?_eq_some_iff,
        Resolver.meaning_eq_callResult_iff, Bool.not_eq_true', and_assoc,
        ← Bool.not_eq_true, SymbolSet.contains_iff]
      rfl
  | sessionKeySize argument =>
      rw [opinion, judge, says_iff, Option.any_eq_true]
      simp only [Reports, code, true_and, Resolution.literal?_eq_some_iff,
        Resolver.meaning_eq_constant_iff, exists_tooShort_iff]

/-- The table has one code for each check. -/
theorem Reports.code_eq {policy : Policy} {sources : SymbolSet}
    {core : Nat → Option Argument} {code message : String} {check : Check}
    (reports : check.Reports policy sources core code message) :
    code = check.code := by
  cases check <;> exact reports.1

theorem verdict_eq_some_iff (auditor : Auditor) (call : Call) (check : Check)
    (finding : Finding) :
    check.verdict auditor call = some finding ↔
      ∃ code message,
        check.Reports auditor.policy auditor.resolver.secureSources
          (call.core? auditor.resolver.maxDepth) code message ∧
        finding = call.finding code message := by
  have resolved : auditor.resolutionAt call = fun index =>
      Resolver.meaning auditor.resolver.secureSources
        (call.core? auditor.resolver.maxDepth index) := by
    funext index
    exact auditor.resolver.resolve_eq_meaning (call.argumentAt index)
  rw [verdict, resolved, Option.map_eq_some_iff]
  simp only [opinion_eq_some_iff]
  constructor
  · rintro ⟨message, reports, rfl⟩
    exact ⟨check.code, message, reports, rfl⟩
  · rintro ⟨code, message, reports, rfl⟩
    obtain rfl := reports.code_eq
    exact ⟨message, reports, rfl⟩

end Check

/-- A call without fault is judged by the decision table. -/
theorem Auditor.exists_checkCall_eq (auditor : Auditor) (rule : Rule) (call : Call)
    (named : call.position.file ≠ "") (numbered : call.position.line ≠ 0)
    (enough : rule.arity ≤ call.args.length) :
    ∃ verdict : Check → Option Finding,
      (∀ check finding, verdict check = some finding ↔
        ∃ code message,
          check.Reports auditor.policy auditor.resolver.secureSources
            (call.core? auditor.resolver.maxDepth) code message ∧
          finding = ⟨call.position, message, code, call.callee⟩) ∧
      auditor.checkCall rule call =
        .ok (rule.checks.filterMap verdict ++
          rule.unconditional.toList.map fun remark =>
            ⟨call.position, remark.message, remark.code, call.callee⟩) := by
  refine ⟨Check.verdict auditor call, Check.verdict_eq_some_iff auditor call, ?_⟩
  have faultless : rule.fault? call = none := by
    rw [Rule.fault?, if_neg (not_or.mpr ⟨named, numbered⟩), if_neg (by omega)]
  rw [auditor.checkCall_eq, faultless]
  rfl

/-! ## The judged operations -/

/-- What there is to say of the calls of one symbol: the arguments they need, the checks
on them in the order of their findings, and the remark that each of them gets. -/
structure TableEntry where
  symbol : String
  arity : Nat
  checks : List Check
  remark : Option Remark

/-- The entries for the judged operations. -/
def decisionTable : List TableEntry := [
  { symbol := "crypto/rsa.GenerateKey"
    arity := 2
    checks := [.secureEntropy 0, .minimumBits 1, .bitAlignment 1]
    remark := none },
  { symbol := "crypto/rsa.GenerateMultiPrimeKey"
    arity := 3
    checks := [.secureEntropy 0, .minimumBits 2, .bitAlignment 2, .primeCount 1 2]
    remark := some ⟨"deprecated-multi-prime",
      "use single-prime key generation (rsa.GenerateKey) instead of " ++
        "rsa.GenerateMultiPrimeKey"⟩ },
  { symbol := "crypto/rsa.EncryptPKCS1v15"
    arity := 1
    checks := [.secureEntropy 0]
    remark := some ⟨"deprecated-pkcs1v15-encrypt",
      "use rsa.EncryptOAEP instead of rsa.EncryptPKCS1v15"⟩ },
  { symbol := "crypto/rsa.SignPKCS1v15"
    arity := 3
    checks := [.secureEntropy 0, .blinding 0, .hashIdentifier 2]
    remark := some ⟨"deprecated-pkcs1v15-sign",
      "use rsa.SignPSS instead of rsa.SignPKCS1v15"⟩ },
  { symbol := "crypto/rsa.DecryptOAEP"
    arity := 2
    checks := [.hashConstructor 0, .secureEntropy 1, .blinding 1]
    remark := none },
  { symbol := "crypto/rsa.DecryptPKCS1v15SessionKey"
    arity := 4
    checks := [.blinding 0, .sessionKeySize 3]
    remark := none }]

def Rule.entry (rule : Rule) : TableEntry :=
  ⟨rule.symbol, rule.arity, rule.checks, rule.unconditional⟩

theorem map_entry_table : Rule.table.map Rule.entry = decisionTable := rfl

theorem mem_decisionTable_iff (entry : TableEntry) :
    entry ∈ decisionTable ↔ ∃ operation : Operation, operation.rule.entry = entry := by
  rw [← map_entry_table, Rule.table, List.map_map, List.mem_map]
  constructor
  · rintro ⟨operation, -, same⟩
    exact ⟨operation, same⟩
  · rintro ⟨operation, same⟩
    exact ⟨operation, by cases operation <;> decide, same⟩

/-- The rules are the entries of the table, each found under its symbol.  A call with a
usable position and enough arguments for an entry gets the findings of the checks of the
entry that report, in their order, and after them the remark of the entry, all with its
own position and callee. -/
theorem checkCall_decisionTable :
    (∀ symbol, (∃ rule, Rule.lookup symbol = some rule) ↔
        ∃ entry ∈ decisionTable, entry.symbol = symbol) ∧
      ∀ entry ∈ decisionTable, ∃ rule, Rule.lookup entry.symbol = some rule ∧
        rule.arity = entry.arity ∧
        ∀ (auditor : Auditor) (call : Call), call.position.file ≠ "" →
          call.position.line ≠ 0 → entry.arity ≤ call.args.length →
            ∃ verdict : Check → Option Finding,
              (∀ check finding, verdict check = some finding ↔
                ∃ code message,
                  check.Reports auditor.policy auditor.resolver.secureSources
                    (call.core? auditor.resolver.maxDepth) code message ∧
                  finding = ⟨call.position, message, code, call.callee⟩) ∧
              auditor.checkCall rule call =
                .ok (entry.checks.filterMap verdict ++
                  entry.remark.toList.map fun remark =>
                    ⟨call.position, remark.message, remark.code, call.callee⟩) := by
  constructor
  · intro symbol
    simp only [Rule.lookup_eq_some_iff, mem_decisionTable_iff]
    constructor
    · rintro ⟨_, operation, rfl, rfl⟩
      exact ⟨_, ⟨operation, rfl⟩, rfl⟩
    · rintro ⟨_, ⟨operation, rfl⟩, rfl⟩
      exact ⟨_, operation, rfl, rfl⟩
  · intro entry listed
    obtain ⟨operation, rfl⟩ := (mem_decisionTable_iff entry).mp listed
    exact ⟨operation.rule, Rule.lookup_eq_some_iff.mpr ⟨operation, rfl, rfl⟩, rfl,
      fun auditor => auditor.exists_checkCall_eq operation.rule⟩

/-- A signature with nil, wrapped once, for entropy and with a hash that is named
by its constant. -/
def nilEntropySignature : Call where
  callee := "crypto/rsa.SignPKCS1v15"
  args := [.wrapped (.constant .nil), .unresolved none,
    .constant (.str "crypto.MD5")]
  position := ⟨"main.go", 3, 1⟩
  result := none

theorem checkCall_decisionTable_nilEntropySignature :
    nilEntropySignature.position.file ≠ "" ∧ nilEntropySignature.position.line ≠ 0 ∧
      nilEntropySignature.args.length = 3 ∧
      ∃ rule, Rule.lookup nilEntropySignature.callee = some rule ∧ rule.arity = 3 ∧
        (Auditor.ofPolicy Policy.standard).checkCall rule nilEntropySignature = .ok [
          ⟨⟨"main.go", 3, 1⟩, "use the crypto/rand.Reader instead for a " ++
              "cryptographically secure random number generator",
            "weak-entropy", "crypto/rsa.SignPKCS1v15"⟩,
          ⟨⟨"main.go", 3, 1⟩, "do not use nil for entropy source to perform blinding " ++
              "to avoid timing side-channel attacks",
            "missing-blinding", "crypto/rsa.SignPKCS1v15"⟩,
          ⟨⟨"main.go", 3, 1⟩, "use SHA 256/512 for hash when signing",
            "weak-signing-hash", "crypto/rsa.SignPKCS1v15"⟩,
          ⟨⟨"main.go", 3, 1⟩, "use rsa.SignPSS instead of rsa.SignPKCS1v15",
            "deprecated-pkcs1v15-sign", "crypto/rsa.SignPKCS1v15"⟩] := by
  have listed : decisionTable[3] ∈ decisionTable := List.getElem_mem _
  obtain ⟨rule, found, arity, judged⟩ := checkCall_decisionTable.2 _ listed
  obtain ⟨verdict, reports, made⟩ :=
    judged (.ofPolicy Policy.standard) nilEntropySignature (by decide) (by decide) (by decide)
  have entropy := (reports (.secureEntropy 0) _).mpr
    ⟨_, _, ⟨rfl, rfl, by rintro ⟨callee, -, isCall⟩; cases isCall⟩, rfl⟩
  have blinding := (reports (.blinding 0) _).mpr ⟨_, _, ⟨rfl, rfl, rfl⟩, rfl⟩
  have refused : ∀ accepted ∈ Policy.standard.acceptedHashIdentifiers,
      ¬ HashName.Spells accepted "MD5" := by
    simp only [HashName.spells_iff]
    decide +kernel
  have spelled : HashName.Spells "crypto.MD5" "MD5" :=
    .inl ⟨"MD5", rfl, .inl ⟨⟨2, "MD5", "MD5"⟩, by simp [HashName.knownHashes], rfl, rfl⟩⟩
  have hash := (reports (.hashIdentifier 2) _).mpr
    ⟨_, _, ⟨rfl, rfl, "MD5", .inr ⟨"crypto.MD5", rfl, spelled⟩, refused⟩, rfl⟩
  refine ⟨by decide, by decide, rfl, rule, found, arity, made.trans ?_⟩
  have checks : decisionTable[3].checks = [.secureEntropy 0, .blinding 0, .hashIdentifier 2] :=
    rfl
  rw [checks, List.filterMap_cons_some entropy, List.filterMap_cons_some blinding,
    List.filterMap_cons_some hash]
  rfl

end RsaAudit
