import RsaAudit.Proofs.CanonicalNames

/-!
# The known hashes

The known hashes have numbers from one to nineteen.  Below they stand in one list, each
with its number, the name of its constant and its canonical name.  What a number or a text
says of a hash is put here in terms of this list, and `HashName`, which has two lists of
its own, says the same.
-/

namespace RsaAudit.HashName

/-- A hash with a number, under its constant and under its canonical name. -/
structure KnownHash where
  number : Int
  constant : String
  name : String

/-- The hashes with a number. -/
def knownHashes : List KnownHash := [
  ⟨1, "MD4", "MD4"⟩,
  ⟨2, "MD5", "MD5"⟩,
  ⟨3, "SHA1", "SHA-1"⟩,
  ⟨4, "SHA224", "SHA-224"⟩,
  ⟨5, "SHA256", "SHA-256"⟩,
  ⟨6, "SHA384", "SHA-384"⟩,
  ⟨7, "SHA512", "SHA-512"⟩,
  ⟨8, "MD5SHA1", "MD5+SHA1"⟩,
  ⟨9, "RIPEMD160", "RIPEMD-160"⟩,
  ⟨10, "SHA3_224", "SHA3-224"⟩,
  ⟨11, "SHA3_256", "SHA3-256"⟩,
  ⟨12, "SHA3_384", "SHA3-384"⟩,
  ⟨13, "SHA3_512", "SHA3-512"⟩,
  ⟨14, "SHA512_224", "SHA-512/224"⟩,
  ⟨15, "SHA512_256", "SHA-512/256"⟩,
  ⟨16, "BLAKE2s_256", "BLAKE2s-256"⟩,
  ⟨17, "BLAKE2b_256", "BLAKE2b-256"⟩,
  ⟨18, "BLAKE2b_384", "BLAKE2b-384"⟩,
  ⟨19, "BLAKE2b_512", "BLAKE2b-512"⟩]

/-- A number stands for a name: that of the known hash with the number, or else one that
shows the number. -/
def Numbers (number : Int) (name : String) : Prop :=
  (∃ hash ∈ knownHashes, hash.number = number ∧ hash.name = name) ∨
    (∀ hash ∈ knownHashes, hash.number ≠ number) ∧
      name = "Hash(" ++ Decimal.intText number ++ ")"

/-- A text without package stands for a name: that of the known hash with the constant, or
else itself. -/
def SpellsBare (text name : String) : Prop :=
  (∃ hash ∈ knownHashes, hash.constant = text ∧ hash.name = name) ∨
    (∀ hash ∈ knownHashes, hash.constant ≠ text) ∧ name = text

/-- A text stands for the name that it stands for without its package. -/
def Spells (text name : String) : Prop :=
  (∃ bare, text = "crypto." ++ bare ∧ SpellsBare bare name) ∨
    (∀ bare, text ≠ "crypto." ++ bare) ∧ SpellsBare text name

theorem map_constants : knownHashes.map (fun hash => (hash.constant, hash.name)) = constants :=
  rfl

theorem map_numbered : knownHashes.map KnownHash.name = numbered := rfl

/-- The numbers of the list are those of its places. -/
theorem number_eq {index : Nat} {hash : KnownHash} (listed : knownHashes[index]? = some hash) :
    hash.number = index + 1 := by
  have numbers : knownHashes.map KnownHash.number =
      (List.range 19).map fun index : Nat => (index : Int) + 1 := by decide
  have placed := congrArg (fun list => list[index]?) numbers
  simp only [List.getElem?_map, listed, Option.map_some] at placed
  obtain ⟨place, inRange, same⟩ := Option.map_eq_some_iff.mp placed.symm
  obtain ⟨below, rfl⟩ := List.getElem?_eq_some_iff.mp inRange
  rw [List.getElem_range] at same
  exact same.symm

theorem known?_eq_some_iff_mem (number : Int) (name : String) :
    known? number = some name ↔
      ∃ hash ∈ knownHashes, hash.number = number ∧ hash.name = name := by
  rw [known?_eq_some_iff, ← map_numbered]
  constructor
  · rintro ⟨index, rfl, listed⟩
    rw [List.getElem?_map, Option.map_eq_some_iff] at listed
    obtain ⟨hash, placed, named⟩ := listed
    exact ⟨hash, List.mem_of_getElem? placed, number_eq placed, named⟩
  · rintro ⟨hash, member, rfl, rfl⟩
    obtain ⟨index, placed⟩ := List.mem_iff_getElem?.mp member
    exact ⟨index, number_eq placed, by rw [List.getElem?_map, placed, Option.map_some]⟩

theorem numbers_iff (number : Int64) (name : String) :
    Numbers number.toInt name ↔ ofNumber number = name := by
  rw [Numbers, ← known?_eq_some_iff_mem]
  cases known : known? number.toInt with
  | some found =>
      obtain ⟨hash, member, same, -⟩ := (known?_eq_some_iff_mem _ _).mp known
      rw [ofNumber_of_known known, Option.some.injEq, or_iff_left]
      rintro ⟨unknown, -⟩
      exact unknown hash member same
  | none =>
      have unknown : ∀ hash ∈ knownHashes, hash.number ≠ number.toInt := by
        intro hash member same
        have found := (known?_eq_some_iff_mem _ _).mpr ⟨hash, member, same, rfl⟩
        cases known.symm.trans found
      simp only [ofNumber, known, reduceCtorEq, false_or]
      rw [and_iff_right unknown, eq_comm]

theorem spellsBare_iff (text name : String) :
    SpellsBare text name ↔
      (∃ entry ∈ constants, entry.1 = text ∧ entry.2 = name) ∨
        (∀ entry ∈ constants, entry.1 ≠ text) ∧ name = text := by
  rw [SpellsBare, ← map_constants]
  simp

theorem spells_iff_spellsBare (text name : String) :
    Spells text name ↔ SpellsBare (unqualified text) name := by
  by_cases qualified : Qualified text
  · obtain ⟨bare, rfl⟩ := qualified
    rw [unqualified_append, Spells, or_iff_left]
    · constructor
      · rintro ⟨other, same, spells⟩
        rw [(String.append_right_inj _).mp same]
        exact spells
      · intro spells
        exact ⟨bare, rfl, spells⟩
    · rintro ⟨plain, -⟩
      exact plain bare rfl
  · rw [unqualified_of_not_qualified qualified, Spells, or_iff_right]
    · exact and_iff_right (not_exists.mp qualified)
    · rintro ⟨bare, same, -⟩
      exact qualified ⟨bare, same⟩

theorem spells_iff (text name : String) : Spells text name ↔ canonical text = name := by
  rw [spells_iff_spellsBare, spellsBare_iff]
  rcases canonical_cases text with ⟨entry, listed, constant, made⟩ | ⟨noConstant, made⟩
  · rw [made]
    constructor
    · rintro (⟨other, otherListed, same, rfl⟩ | ⟨none, -⟩)
      · rw [eq_of_constants listed otherListed (constant.trans same.symm)]
      · exact absurd constant (none entry listed)
    · rintro rfl
      exact .inl ⟨entry, listed, constant, rfl⟩
  · rw [made, or_iff_right, and_iff_right noConstant, eq_comm]
    rintro ⟨entry, listed, same, -⟩
    exact noConstant entry listed same

end RsaAudit.HashName
