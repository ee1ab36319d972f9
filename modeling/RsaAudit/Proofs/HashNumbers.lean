import RsaAudit.Proofs.HashTable

/-!
# Hashes identified by numbers

The numbers from one to nineteen have the names of known hashes, and every other number
is shown in decimal.  No two numbers share a name, so an accepted name lets at most one
number pass.  The known names stand in two tables, one in the order of the numbers and
one by constants, and place by place both tables have the name of the same known hash.  So
a known hash is judged alike under its number, its constant and its canonical name.
-/

namespace RsaAudit

namespace Decimal

theorem toChar_injective : Function.Injective Digit.toChar := by
  have distinct : ∀ first second : Digit, first.toChar = second.toChar → first = second := by
    decide
  exact fun first second => distinct first second

theorem natText_injective : Function.Injective natText := by
  intro first second same
  have written : (digits first).map Digit.toChar = (digits second).map Digit.toChar :=
    String.ofList_injective same
  have sameDigits : digits first = digits second :=
    List.map_injective_iff.mpr toChar_injective written
  rw [← value_digits first, sameDigits, value_digits]

theorem natText_ne_minus (number magnitude : Nat) :
    natText number ≠ "-" ++ natText magnitude := by
  intro same
  have minus : '-' ∈ chars number := by
    have written : chars number = ("-" ++ natText magnitude).toList :=
      String.toList_ofList.symm.trans (congrArg String.toList same)
    rw [written, String.toList_append]
    exact List.mem_cons_self
  obtain ⟨digit, -, isMinus⟩ := List.mem_map.mp minus
  have noMinus : ∀ digit : Digit, digit.toChar ≠ '-' := by decide
  exact noMinus digit isMinus

theorem intText_injective : Function.Injective intText := by
  intro first second same
  cases first with
  | ofNat first =>
      cases second with
      | ofNat second => rw [natText_injective same]
      | negSucc second => exact absurd same (natText_ne_minus _ _)
  | negSucc first =>
      cases second with
      | ofNat second => exact absurd same.symm (natText_ne_minus _ _)
      | negSucc second =>
          have magnitudes := natText_injective ((String.append_right_inj _).mp same)
          rw [Nat.succ.inj magnitudes]

end Decimal

namespace HashName

theorem known?_injective {first second : Int} {name : String}
    (ofFirst : known? first = some name) (ofSecond : known? second = some name) :
    first = second := by
  obtain ⟨place, rfl, firstListed⟩ := (known?_eq_some_iff _ _).mp ofFirst
  obtain ⟨other, rfl, secondListed⟩ := (known?_eq_some_iff _ _).mp ofSecond
  have distinct : numbered.Nodup := by decide +kernel
  have inside : place < numbered.length := (List.getElem?_eq_some_iff.mp firstListed).1
  rw [(List.getElem?_inj inside distinct).mp (firstListed.trans secondListed.symm)]

theorem ofNumber_ne_of_known {first second : Int64} {name : String}
    (known : known? first.toInt = some name) (unknown : known? second.toInt = none) :
    ofNumber first ≠ ofNumber second := by
  obtain ⟨entry, listed, rfl⟩ := exists_constant_of_known? known
  intro same
  rw [ofNumber_of_known known] at same
  exact (head?_constants entry listed).2.2 (same ▸ head?_ofNumber unknown)

/-- No two numbers have the same name, known or not. -/
theorem ofNumber_injective : Function.Injective ofNumber := by
  intro first second same
  apply Int64.toInt_inj.mp
  cases ofFirst : known? first.toInt with
  | some name =>
      cases ofSecond : known? second.toInt with
      | some other =>
          rw [ofNumber_of_known ofFirst, ofNumber_of_known ofSecond] at same
          exact known?_injective ofFirst (same ▸ ofSecond)
      | none => exact absurd same (ofNumber_ne_of_known ofFirst ofSecond)
  | none =>
      cases ofSecond : known? second.toInt with
      | some name => exact absurd same.symm (ofNumber_ne_of_known ofSecond ofFirst)
      | none =>
          simp only [ofNumber, ofFirst, ofSecond] at same
          have inside := (String.append_left_inj _).mp same
          exact Decimal.intText_injective ((String.append_right_inj _).mp inside)

/-- A known hash is at the same place in both tables. -/
theorem listed_of_knownHashes {index : Nat} {hash : KnownHash}
    (listed : knownHashes[index]? = some hash) :
    constants[index]? = some (hash.constant, hash.name) ∧
      numbered[index]? = some hash.name := by
  rw [← map_constants, ← map_numbered, List.getElem?_map, List.getElem?_map, listed]
  exact ⟨rfl, rfl⟩

theorem ofLiteral?_of_knownHashes {hash : KnownHash} (listed : hash ∈ knownHashes) :
    (∀ number : Int64, number.toInt = hash.number →
        ofLiteral? (.int number) = some hash.name) ∧
      ∀ text ∈ [hash.constant, "crypto." ++ hash.constant, hash.name],
        ofLiteral? (.str text) = some hash.name := by
  constructor
  · intro number same
    have numbers : Numbers number.toInt hash.name := .inl ⟨hash, listed, same.symm, rfl⟩
    exact congrArg some ((numbers_iff _ _).mp numbers)
  · have member : (hash.constant, hash.name) ∈ constants := by
      rw [← map_constants]
      exact List.mem_map.mpr ⟨hash, listed, rfl⟩
    have bare := not_qualified_constants member
    have fromConstant : canonical hash.constant = hash.name :=
      canonical_of_constant member (unqualified_of_not_qualified bare.1)
    have fromQualified : canonical ("crypto." ++ hash.constant) = hash.name :=
      canonical_of_constant member (unqualified_append hash.constant)
    have fromName : canonical hash.name = hash.name :=
      canonical_eq_self (settled_constants _ member) bare.2
    simp [ofLiteral?, fromConstant, fromQualified, fromName]

end HashName

def Auditor.acceptingOnly (auditor : Auditor) (identifier : String) : Auditor :=
  { auditor with policy := auditor.policy.acceptingOnly identifier }

namespace Check

theorem evaluate_acceptingOnly_iff {auditor : Auditor} {call : Call} {argument : Nat}
    {literal : Literal} {name : String} (accepted : String)
    (resolved : auditor.resolve call argument = .ok (.constant literal))
    (named : HashName.ofLiteral? literal = some name) :
    (Check.hashIdentifier argument).evaluate (auditor.acceptingOnly accepted) call =
        .ok none ↔
      HashName.canonical accepted = name := by
  have single (other : String) :
      other ∈ (auditor.acceptingOnly accepted).policy.acceptedHashIdentifiers ↔
        other = accepted := List.mem_singleton
  -- Another policy leaves the resolver as it is.
  have resolvedOnly : (auditor.acceptingOnly accepted).resolve call argument =
      .ok (.constant literal) := resolved
  rw [evaluate_hashIdentifier_iff resolvedOnly named]
  simp [single]

/-- Numbers of hashes are told apart, and they are judged like the texts for the same
hash.  Two numbers have different names.  The check on hash identifiers is content with
a number exactly if it would be so with one of the accepted names alone, and one name
alone does this for one number at most.  Each number from one to nineteen is that of a
known hash.  Both tables have this hash at the place of its number, and the check is
content with its number, its constant and its name or with none of them. -/
theorem evaluate_hashIdentifier_numbers (auditor : Auditor) :
    (∀ first second : Int64,
        HashName.ofLiteral? (.int first) = HashName.ofLiteral? (.int second) →
          first = second) ∧
      (∀ call argument number,
        auditor.resolve call argument = .ok (.constant (.int number)) →
          ((Check.hashIdentifier argument).evaluate auditor call = .ok none ↔
            ∃ accepted ∈ auditor.policy.acceptedHashIdentifiers,
              (Check.hashIdentifier argument).evaluate (auditor.acceptingOnly accepted)
                call = .ok none)) ∧
      (∀ accepted call argument number other place sibling,
        auditor.resolve call argument = .ok (.constant (.int number)) →
        auditor.resolve other place = .ok (.constant (.int sibling)) →
        (Check.hashIdentifier argument).evaluate (auditor.acceptingOnly accepted) call =
          .ok none →
        (Check.hashIdentifier place).evaluate (auditor.acceptingOnly accepted) other =
          .ok none →
          number = sibling) ∧
      ∀ (number : Int64) (index : Nat), number.toInt = index + 1 → index < 19 →
        ∃ hash ∈ HashName.knownHashes, hash.number = number.toInt ∧
          HashName.constants[index]? = some (hash.constant, hash.name) ∧
          HashName.numbered[index]? = some hash.name ∧
          ∀ text ∈ [hash.constant, "crypto." ++ hash.constant, hash.name],
            ∀ call argument other place,
              auditor.resolve call argument = .ok (.constant (.int number)) →
              auditor.resolve other place = .ok (.constant (.str text)) →
                ((Check.hashIdentifier argument).evaluate auditor call = .ok none ↔
                  (Check.hashIdentifier place).evaluate auditor other = .ok none) := by
  refine ⟨?_, ?_, ?_, ?_⟩
  · intro first second same
    exact HashName.ofNumber_injective (Option.some.inj same)
  · intro call argument number resolved
    rw [evaluate_hashIdentifier_iff resolved rfl]
    simp only [evaluate_acceptingOnly_iff _ resolved rfl]
  · intro accepted call argument number other place sibling resolved otherResolved
      passes otherPasses
    rw [evaluate_acceptingOnly_iff _ resolved rfl] at passes
    rw [evaluate_acceptingOnly_iff _ otherResolved rfl] at otherPasses
    exact HashName.ofNumber_injective (passes.symm.trans otherPasses)
  · intro number index placed inside
    obtain ⟨hash, listed⟩ : ∃ hash, HashName.knownHashes[index]? = some hash :=
      ⟨_, List.getElem?_eq_getElem inside⟩
    have member : hash ∈ HashName.knownHashes := List.mem_of_getElem? listed
    have same : number.toInt = hash.number := placed.trans (HashName.number_eq listed).symm
    obtain ⟨inConstants, inNumbered⟩ := HashName.listed_of_knownHashes listed
    refine ⟨hash, member, same.symm, inConstants, inNumbered, ?_⟩
    intro text spelled call argument other place resolved otherResolved
    obtain ⟨ofNumber, ofText⟩ := HashName.ofLiteral?_of_knownHashes member
    rw [evaluate_hashIdentifier_iff resolved (ofNumber number same),
      evaluate_hashIdentifier_iff otherResolved (ofText text spelled)]

end Check

theorem evaluate_hashIdentifier_numbers_sha384 :
    let auditor := Auditor.ofPolicy (Policy.standard.acceptingOnly "crypto.SHA384")
    (6 : Int64).toInt = (5 : Nat) + 1 ∧ 5 < 19 ∧
      (∀ hash, auditor.resolve (signatureWith hash) 2 = .ok (.constant hash)) ∧
      (∀ number, (Check.hashIdentifier 2).evaluate auditor (signatureWith (.int number)) =
        .ok none ↔ number = 6) ∧
      ∀ text ∈ ["SHA384", "crypto.SHA384", "SHA-384"],
        (Check.hashIdentifier 2).evaluate auditor (signatureWith (.str text)) = .ok none := by
  intro auditor
  have resolved (hash : Literal) :
      auditor.resolve (signatureWith hash) 2 = .ok (.constant hash) := rfl
  have passes : (Check.hashIdentifier 2).evaluate auditor (signatureWith (.int 6)) =
      .ok none := by decide +kernel
  obtain ⟨-, -, unique, alike⟩ := Check.evaluate_hashIdentifier_numbers auditor
  obtain ⟨hash, -, -, listed, -, judged⟩ := alike 6 5 rfl (by decide)
  obtain ⟨constant, name⟩ : "SHA384" = hash.constant ∧ "SHA-384" = hash.name :=
    Prod.mk.inj (Option.some.inj listed)
  rw [← constant, ← name] at judged
  refine ⟨rfl, by decide, resolved, ?_, ?_⟩
  · intro number
    constructor
    · intro content
      exact unique "crypto.SHA384" _ 2 number _ 2 6 (resolved _) (resolved _) content passes
    · rintro rfl
      exact passes
  · intro text spelled
    exact (judged text spelled _ 2 _ 2 (resolved _) (resolved _)).mp passes

end RsaAudit
