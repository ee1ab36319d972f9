import Mathlib.Data.List.Nodup
import RsaAudit.Proofs.Verdict

/-!
# Canonical hash names

A name is made canonical in two steps: its package is taken off, and if the rest is the
name of a constant, the canonical name of the hash takes its place.  A policy is compared
with a literal under canonical names, and only its own names are made canonical for that;
the name of the literal is taken as it is.

So it matters which names the two steps leave alone.  They leave alone the name of every
number, and what they have made of a text themselves, with one exception: only one
package is taken off, so a text that carries it twice still carries it afterwards.
-/

namespace RsaAudit

namespace HashName

/-- The name carries the package that names can be qualified with. -/
def Qualified (name : String) : Prop :=
  ∃ bare, name = "crypto." ++ bare

/-- The name is replaced by no other name in the table of constants. -/
def Settled (name : String) : Prop :=
  ∀ entry ∈ constants, entry.1 = name → entry.2 = name

/-! ## Taking off the package -/

theorem unqualified_append (bare : String) : unqualified ("crypto." ++ bare) = bare := by
  have stripped :
      "crypto.".toList.isPrefixOf? ("crypto." ++ bare).toList = some bare.toList :=
    List.isPrefixOf?_eq_some_iff_append_eq.mpr String.toList_append.symm
  simp only [unqualified, stripped, String.ofList_toList]

theorem unqualified_of_not_qualified {name : String} (plain : ¬ Qualified name) :
    unqualified name = name := by
  unfold unqualified
  split
  case h_1 rest stripped =>
    have joined : "crypto.".toList ++ rest = name.toList :=
      List.isPrefixOf?_eq_some_iff_append_eq.mp stripped
    have chars : ("crypto." ++ String.ofList rest).toList = "crypto.".toList ++ rest :=
      String.toList_append.trans (congrArg _ String.toList_ofList)
    have carries : Qualified name :=
      ⟨String.ofList rest, String.toList_injective (joined.symm.trans chars.symm)⟩
    exact absurd carries plain
  case h_2 => rfl

theorem head?_of_qualified {name : String} (qualified : Qualified name) :
    name.toList.head? = some 'c' := by
  obtain ⟨bare, rfl⟩ := qualified
  rw [String.toList_append]
  rfl

theorem append_ne_self (bare : String) : bare ≠ "crypto." ++ bare := by
  intro same
  have sizes := congrArg String.length same
  rw [String.length_append] at sizes
  have : "crypto.".length = 7 := rfl
  omega

theorem append_twice (bare : String) :
    "crypto.crypto." ++ bare = "crypto." ++ ("crypto." ++ bare) := by
  rw [← String.append_assoc]
  rfl

/-! ## The table of constants -/

/-- No name of the table begins like a package or like the name of an unknown number. -/
theorem head?_constants : ∀ entry ∈ constants,
    (entry.1.toList.head? ≠ some 'c' ∧ entry.2.toList.head? ≠ some 'c') ∧
      entry.1.toList.head? ≠ some 'H' ∧ entry.2.toList.head? ≠ some 'H' := by
  decide +kernel

theorem not_qualified_constants {entry : String × String} (listed : entry ∈ constants) :
    ¬ Qualified entry.1 ∧ ¬ Qualified entry.2 := by
  obtain ⟨⟨constant, name⟩, -⟩ := head?_constants entry listed
  exact ⟨mt head?_of_qualified constant, mt head?_of_qualified name⟩

/-- A canonical name of the table may also be the name of a constant, but then it is
the constant of the same hash. -/
theorem settled_constants : ∀ entry ∈ constants, Settled entry.2 := by
  unfold Settled
  decide +kernel

theorem eq_of_constants {first second : String × String} (ofFirst : first ∈ constants)
    (ofSecond : second ∈ constants) (same : first.1 = second.1) : first = second := by
  have distinct : (constants.map Prod.fst).Nodup := by decide +kernel
  exact List.inj_on_of_nodup_map distinct ofFirst ofSecond same

/-! ## Canonical names -/

/-- Either the rest of a name without its package is the name of a constant, or it is
the canonical name already. -/
theorem canonical_cases (name : String) :
    (∃ entry ∈ constants, entry.1 = unqualified name ∧ canonical name = entry.2) ∨
      (∀ entry ∈ constants, entry.1 ≠ unqualified name) ∧
        canonical name = unqualified name := by
  cases found : constants.find? fun entry => entry.1 == unqualified name with
  | some entry =>
      refine .inl ⟨entry, List.mem_of_find?_eq_some found, ?_, ?_⟩
      · simpa using List.find?_some found
      · simp only [canonical, found]
  | none =>
      refine .inr ⟨?_, ?_⟩
      · simpa using found
      · simp only [canonical, found]

theorem canonical_of_constant {entry : String × String} {name : String}
    (listed : entry ∈ constants) (named : unqualified name = entry.1) :
    canonical name = entry.2 := by
  rcases canonical_cases name with ⟨other, otherListed, constant, made⟩ | ⟨noConstant, -⟩
  · rw [made, eq_of_constants otherListed listed (constant.trans named)]
  · exact absurd named.symm (noConstant entry listed)

theorem settled_canonical (name : String) : Settled (canonical name) := by
  rcases canonical_cases name with ⟨entry, listed, -, made⟩ | ⟨noConstant, made⟩
  · rw [made]
    exact settled_constants entry listed
  · intro entry listed constant
    exact absurd (constant.trans made) (noConstant entry listed)

theorem canonical_eq_self {name : String} (settled : Settled name)
    (plain : ¬ Qualified name) : canonical name = name := by
  have rest := unqualified_of_not_qualified plain
  rcases canonical_cases name with ⟨entry, listed, constant, made⟩ | ⟨-, made⟩
  · rw [made]
    exact settled entry listed (constant.trans rest)
  · rw [made, rest]

/-- A name that is canonical and still carries its package carried it twice before. -/
theorem canonical_eq_append_iff (name bare : String) :
    canonical name = "crypto." ++ bare ↔ name = "crypto.crypto." ++ bare := by
  rw [append_twice]
  constructor
  · intro same
    -- The package cannot come from the table, so it was there under another one.
    rcases canonical_cases name with ⟨entry, listed, -, made⟩ | ⟨-, made⟩
    · exact absurd ⟨bare, made.symm.trans same⟩ (not_qualified_constants listed).2
    · have rest : unqualified name = "crypto." ++ bare := made.symm.trans same
      by_cases qualified : Qualified name
      · obtain ⟨front, rfl⟩ := qualified
        rw [← rest, unqualified_append]
      · rw [unqualified_of_not_qualified qualified] at rest
        exact absurd ⟨bare, rest⟩ qualified
  · rintro rfl
    rcases canonical_cases ("crypto." ++ ("crypto." ++ bare)) with
      ⟨entry, listed, constant, -⟩ | ⟨-, made⟩
    · rw [unqualified_append] at constant
      exact absurd ⟨bare, constant⟩ (not_qualified_constants listed).1
    · rw [made, unqualified_append]

theorem canonical_ne_self {name : String} (qualified : Qualified name) :
    canonical name ≠ name := by
  obtain ⟨bare, rfl⟩ := qualified
  intro same
  have twice := (canonical_eq_append_iff _ bare).mp same
  rw [append_twice] at twice
  exact append_ne_self _ twice

theorem canonical_eq_self_iff {name : String} (settled : Settled name) :
    canonical name = name ↔ ¬ Qualified name := by
  constructor
  · intro same qualified
    exact canonical_ne_self qualified same
  · exact canonical_eq_self settled

theorem qualified_canonical_iff (name : String) :
    Qualified (canonical name) ↔ ∃ bare, name = "crypto.crypto." ++ bare :=
  exists_congr (canonical_eq_append_iff name)

/-! ## Names of numbers -/

/-- Place by place, both tables have the same canonical names. -/
theorem map_snd_constants : constants.map Prod.snd = numbered := rfl

theorem known?_eq_some_iff (number : Int) (name : String) :
    known? number = some name ↔
      ∃ index : Nat, number = index + 1 ∧ numbered[index]? = some name := by
  constructor
  · intro known
    unfold known? at known
    split at known
    case h_1 index => exact ⟨index, rfl, known⟩
    case h_2 => cases known
  · rintro ⟨index, rfl, listed⟩
    exact listed

theorem exists_constant_of_known? {number : Int} {name : String}
    (known : known? number = some name) : ∃ entry ∈ constants, entry.2 = name := by
  obtain ⟨index, -, listed⟩ := (known?_eq_some_iff number name).mp known
  rw [← map_snd_constants] at listed
  exact List.mem_map.mp (List.mem_of_getElem? listed)

theorem head?_ofNumber {number : Int64} (unknown : known? number.toInt = none) :
    (ofNumber number).toList.head? = some 'H' := by
  simp only [ofNumber, unknown]
  rw [String.toList_append, String.toList_append]
  rfl

theorem ofNumber_of_known {number : Int64} {name : String}
    (known : known? number.toInt = some name) : ofNumber number = name := by
  simp only [ofNumber, known]

theorem settled_ofNumber (number : Int64) : Settled (ofNumber number) := by
  cases known : known? number.toInt with
  | some name =>
      obtain ⟨entry, listed, rfl⟩ := exists_constant_of_known? known
      rw [ofNumber_of_known known]
      exact settled_constants entry listed
  | none =>
      intro entry listed constant
      have head := head?_ofNumber known
      rw [← constant] at head
      exact absurd head (head?_constants entry listed).2.1

theorem not_qualified_ofNumber (number : Int64) : ¬ Qualified (ofNumber number) := by
  cases known : known? number.toInt with
  | some name =>
      obtain ⟨entry, listed, rfl⟩ := exists_constant_of_known? known
      rw [ofNumber_of_known known]
      exact (not_qualified_constants listed).2
  | none =>
      intro qualified
      have head := head?_of_qualified qualified
      rw [head?_ofNumber known] at head
      exact absurd head (by decide)

/-! ## Names of literals -/

theorem settled_ofLiteral? {literal : Literal} {name : String}
    (named : ofLiteral? literal = some name) : Settled name := by
  cases literal with
  | int number =>
      cases named
      exact settled_ofNumber number
  | str text =>
      cases named
      exact settled_canonical text
  | bytes content => cases named
  | nil => cases named

/-- Only a text that carries the package twice leaves it on the name of its hash. -/
theorem qualified_ofLiteral?_iff {literal : Literal} {name : String}
    (named : ofLiteral? literal = some name) :
    Qualified name ↔ ∃ bare, literal = .str ("crypto.crypto." ++ bare) := by
  cases literal with
  | int number =>
      cases named
      simp [not_qualified_ofNumber]
  | str text =>
      cases named
      simp [qualified_canonical_iff]
  | bytes content => cases named
  | nil => cases named

end HashName

theorem Policy.acceptsHash_iff (policy : Policy) (name : String) :
    policy.acceptsHash name = true ↔
      ∃ accepted ∈ policy.acceptedHashIdentifiers, HashName.canonical accepted = name := by
  rw [acceptsHash, List.any_eq_true]
  simp only [beq_iff_eq]
  rfl

namespace Check

theorem judge_hashIdentifier (policy : Policy) (argument : Nat) {literal : Literal}
    {name : String} (named : HashName.ofLiteral? literal = some name) :
    judge policy (.hashIdentifier argument) (.constant literal) =
      if policy.acceptsHash name then none else some signingHashMessage := by
  cases accepted : policy.acceptsHash name with
  | false => simp [judge, Resolution.literal?, named, accepted]
  | true => simp [judge, Resolution.literal?, named, accepted]

/-- The check on hash identifiers has nothing to say of a hash exactly if some accepted
name has the same canonical form. -/
theorem evaluate_hashIdentifier_iff {auditor : Auditor} {call : Call} {argument : Nat}
    {literal : Literal} {name : String}
    (resolved : auditor.resolve call argument = .ok (.constant literal))
    (named : HashName.ofLiteral? literal = some name) :
    (Check.hashIdentifier argument).evaluate auditor call = .ok none ↔
      ∃ accepted ∈ auditor.policy.acceptedHashIdentifiers,
        HashName.canonical accepted = name := by
  have evaluated : (Check.hashIdentifier argument).evaluate auditor call =
      .ok ((judge auditor.policy (.hashIdentifier argument) (.constant literal)).map
        (call.finding (Check.hashIdentifier argument).code)) := by
    rw [evaluate, message?, resolved]
    rfl
  rw [evaluated, judge_hashIdentifier _ _ named, ← Policy.acceptsHash_iff]
  cases auditor.policy.acceptsHash name <;> simp

/-- The check on hash identifiers, where the policy accepts the name that a literal is
known by.  The name is canonical, and the check is content with the literal, unless the
literal is a text that carries the package twice: then the text itself has to be
accepted.  For the same reason a canonical name is canonical for good unless it comes
from such a text. -/
theorem evaluate_hashIdentifier_of_name (literal : Literal) (name : String)
    (named : HashName.ofLiteral? literal = some name) :
    (HashName.canonical name = name ↔
        ¬ ∃ bare, literal = .str ("crypto.crypto." ++ bare)) ∧
      (∀ (auditor : Auditor) (call : Call) (argument : Nat),
        auditor.resolve call argument = .ok (.constant literal) →
        name ∈ auditor.policy.acceptedHashIdentifiers →
          ((Check.hashIdentifier argument).evaluate auditor call = .ok none ↔
            ∀ bare, literal = .str ("crypto.crypto." ++ bare) →
              "crypto.crypto." ++ bare ∈ auditor.policy.acceptedHashIdentifiers)) ∧
      ∀ text, HashName.canonical (HashName.canonical text) = HashName.canonical text ↔
        ¬ ∃ bare, text = "crypto.crypto." ++ bare := by
  have settled := HashName.settled_ofLiteral? named
  refine ⟨?_, ?_, ?_⟩
  · rw [HashName.canonical_eq_self_iff settled, HashName.qualified_ofLiteral?_iff named]
  · intro auditor call argument resolved accepted
    rw [evaluate_hashIdentifier_iff resolved named]
    by_cases qualified : HashName.Qualified name
    · -- No other name has this canonical form than the text itself.
      obtain ⟨bare, rfl⟩ := (HashName.qualified_ofLiteral?_iff named).mp qualified
      obtain rfl : HashName.canonical ("crypto.crypto." ++ bare) = name :=
        Option.some.inj named
      rw [(HashName.canonical_eq_append_iff _ bare).mpr rfl]
      simp only [HashName.canonical_eq_append_iff, exists_eq_right]
      constructor
      · intro textAccepted other same
        rw [← Literal.str.inj same]
        exact textAccepted
      · intro eachAccepted
        exact eachAccepted bare rfl
    · have once := mt (HashName.qualified_ofLiteral?_iff named).mpr qualified
      constructor
      · intro _ bare twice
        exact absurd ⟨bare, twice⟩ once
      · intro _
        exact ⟨name, accepted, HashName.canonical_eq_self settled qualified⟩
  · intro text
    rw [HashName.canonical_eq_self_iff (HashName.settled_canonical text),
      HashName.qualified_canonical_iff]

end Check

def Policy.acceptingOnly (policy : Policy) (identifier : String) : Policy :=
  { policy with acceptedHashIdentifiers := .ofList [identifier] }

def signatureWith (hash : Literal) : Call where
  callee := "crypto/rsa.SignPKCS1v15"
  args := [.callResult "crypto/rand.Reader", .unresolved none, .constant hash]
  position := ⟨"main.go", 3, 1⟩
  result := none

theorem evaluate_hashIdentifier_of_name_unknownNumber :
    let auditor := Auditor.ofPolicy (Policy.standard.acceptingOnly "Hash(-1)")
    HashName.ofLiteral? (.int (-1)) = some "Hash(-1)" ∧
      HashName.canonical "Hash(-1)" = "Hash(-1)" ∧
      auditor.resolve (signatureWith (.int (-1))) 2 = .ok (.constant (.int (-1))) ∧
      "Hash(-1)" ∈ auditor.policy.acceptedHashIdentifiers ∧
      (Check.hashIdentifier 2).evaluate auditor (signatureWith (.int (-1))) = .ok none := by
  intro auditor
  have named : HashName.ofLiteral? (.int (-1)) = some "Hash(-1)" := by decide +kernel
  have resolved : auditor.resolve (signatureWith (.int (-1))) 2 =
      .ok (.constant (.int (-1))) := rfl
  have accepted : "Hash(-1)" ∈ auditor.policy.acceptedHashIdentifiers := by decide
  have number (text : String) : Literal.int (-1) ≠ .str text := by
    intro same
    cases same
  obtain ⟨canonical, content, -⟩ :=
    Check.evaluate_hashIdentifier_of_name (.int (-1)) "Hash(-1)" named
  refine ⟨named, canonical.mpr ?_, resolved, accepted, ?_⟩
  · rintro ⟨bare, same⟩
    exact number _ same
  · refine (content auditor _ 2 resolved accepted).mpr ?_
    intro bare same
    exact absurd same (number _)

/-- A text that carries the package twice is known by a name that is not canonical, and
to accept that name is not to accept the text. -/
theorem accepted_name_reported_twiceQualified :
    let literal := Literal.str "crypto.crypto.SHA256"
    let auditor := Auditor.ofPolicy (Policy.standard.acceptingOnly "crypto.SHA256")
    HashName.ofLiteral? literal = some "crypto.SHA256" ∧
      HashName.canonical "crypto.SHA256" = "SHA-256" ∧
      HashName.canonical (HashName.canonical "crypto.crypto.SHA256") ≠
        HashName.canonical "crypto.crypto.SHA256" ∧
      "crypto.SHA256" ∈ auditor.policy.acceptedHashIdentifiers ∧
      (Check.hashIdentifier 2).evaluate auditor (signatureWith literal) =
        .ok (some ((signatureWith literal).finding "weak-signing-hash"
          "use SHA 256/512 for hash when signing")) := by
  decide +kernel

end RsaAudit
