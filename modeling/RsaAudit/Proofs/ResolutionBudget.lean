import RsaAudit.Proofs.DecisionTable

/-!
# Seeing through more wrappings

A resolver that sees through more wrappings knows the cores that it knew before,
and further ones.  Seven of the eight checks report only what they know, so what
they report stays; the check on entropy reports what is not known to be secure, so
it can only fall silent.  The faults of a call have nothing to do with any of this.
-/

namespace RsaAudit

theorem Argument.core?_of_le {depth deeper : Nat} (more : depth ≤ deeper)
    {argument core : Argument} (known : argument.core? depth = some core) :
    argument.core? deeper = some core := by
  unfold core? at known ⊢
  split at known
  case isTrue within =>
    rw [if_pos (Nat.le_trans within more)]
    exact known
  case isFalse => cases known

namespace Check

variable {policy : Policy} {sources : SymbolSet} {core further : Nat → Option Argument}
  {code message : String} {check : Check}

/-- What a check other than the one on entropy reports, it also reports when more is
known. -/
theorem Reports.of_more_known
    (more : ∀ index argument, core index = some argument → further index = some argument)
    (noEntropy : check.code ≠ "weak-entropy")
    (reports : check.Reports policy sources core code message) :
    check.Reports policy sources further code message := by
  cases check with
  | secureEntropy argument => exact absurd rfl noEntropy
  | blinding argument =>
      obtain ⟨codeEq, messageEq, isNil⟩ := reports
      exact ⟨codeEq, messageEq, more _ _ isNil⟩
  | minimumBits argument =>
      obtain ⟨codeEq, messageEq, bits, found, small⟩ := reports
      exact ⟨codeEq, messageEq, bits, more _ _ found, small⟩
  | bitAlignment argument =>
      obtain ⟨codeEq, messageEq, bits, found, misaligned⟩ := reports
      exact ⟨codeEq, messageEq, bits, more _ _ found, misaligned⟩
  | primeCount primesArgument bitsArgument =>
      -- Both cores are known already, so neither is lost.
      obtain ⟨codeEq, primes, bits, most, primesFound, bitsFound, tooMany⟩ := reports
      exact ⟨codeEq, primes, bits, most, more _ _ primesFound, more _ _ bitsFound, tooMany⟩
  | hashIdentifier argument =>
      obtain ⟨codeEq, messageEq, name, named, refused⟩ := reports
      refine ⟨codeEq, messageEq, name, ?_, refused⟩
      rcases named with ⟨number, found, nameEq⟩ | ⟨text, found, nameEq⟩
      · exact .inl ⟨number, more _ _ found, nameEq⟩
      · exact .inr ⟨text, more _ _ found, nameEq⟩
  | hashConstructor argument =>
      obtain ⟨codeEq, messageEq, callee, found, refused⟩ := reports
      exact ⟨codeEq, messageEq, callee, more _ _ found, refused⟩
  | sessionKeySize argument =>
      obtain ⟨codeEq, messageEq, short⟩ := reports
      refine ⟨codeEq, messageEq, ?_⟩
      rcases short with isNil | ⟨content, found, fewer⟩ | ⟨text, found, fewer⟩
      · exact .inl (more _ _ isNil)
      · exact .inr (.inl ⟨content, more _ _ found, fewer⟩)
      · exact .inr (.inr ⟨text, more _ _ found, fewer⟩)

/-- What the check on entropy reports when more is known, it reports in any case. -/
theorem Reports.of_less_known
    (more : ∀ index argument, core index = some argument → further index = some argument)
    (entropy : check.code = "weak-entropy")
    (reports : check.Reports policy sources further code message) :
    check.Reports policy sources core code message := by
  cases check with
  | secureEntropy argument =>
      obtain ⟨codeEq, messageEq, untrusted⟩ := reports
      refine ⟨codeEq, messageEq, ?_⟩
      rintro ⟨callee, trusted, found⟩
      exact untrusted ⟨callee, trusted, more _ _ found⟩
  | _ => exact absurd entropy (by simp [Check.code])

end Check

namespace Auditor

/-- The auditor that sees through so many wrappings. -/
def within (policy : Policy) (sources : SymbolSet) (depth : Nat) : Auditor :=
  ⟨policy, ⟨sources, depth⟩⟩

section

variable {policy : Policy} {sources : SymbolSet} {depth deeper : Nat}
  (more : depth ≤ deeper) {call : Call} {check : Check} {finding : Finding}

include more

theorem verdict_of_deeper (noEntropy : finding.rule ≠ "weak-entropy")
    (found : check.verdict (within policy sources depth) call = some finding) :
    check.verdict (within policy sources deeper) call = some finding := by
  rw [Check.verdict_eq_some_iff] at found ⊢
  obtain ⟨code, message, reports, rfl⟩ := found
  refine ⟨code, message, ?_, rfl⟩
  apply reports.of_more_known
  · intro index core known
    exact Argument.core?_of_le more known
  · rw [← reports.code_eq]
    exact noEntropy

theorem verdict_of_shallower (entropy : finding.rule = "weak-entropy")
    (found : check.verdict (within policy sources deeper) call = some finding) :
    check.verdict (within policy sources depth) call = some finding := by
  rw [Check.verdict_eq_some_iff] at found ⊢
  obtain ⟨code, message, reports, rfl⟩ := found
  refine ⟨code, message, ?_, rfl⟩
  apply reports.of_less_known
  · intro index core known
    exact Argument.core?_of_le more known
  · rw [← reports.code_eq]
    exact entropy

end

/-- The findings on a call, some of which are also made by another auditor. -/
theorem filter_verdicts_sublist {first second : Auditor} {rule : Rule} {call : Call}
    {selected : Finding → Bool}
    (kept : ∀ (check : Check) finding, selected finding = true →
      check.verdict first call = some finding → check.verdict second call = some finding) :
    ((first.verdicts rule call).filter selected).Sublist
      ((second.verdicts rule call).filter selected) := by
  rw [verdicts, verdicts, List.filter_append, List.filter_append, List.filter_filterMap,
    List.filter_filterMap]
  apply List.Sublist.append_right
  apply filterMap_sublist_of_kept
  intro check finding found
  rw [Option.filter_eq_some_iff] at found ⊢
  exact ⟨kept check finding found.2 found.1, found.2⟩

/-- To see through more wrappings is safe.  A call is refused for the same reason, or it
is judged both times; then every finding but one of weak entropy is made again, with the
same message and in the same order, and no finding of weak entropy is new. -/
theorem checkCall_of_deeper (policy : Policy) (sources : SymbolSet) (rule : Rule) (call : Call)
    (depth deeper : Nat) (more : depth ≤ deeper) :
    let shallow := (Auditor.mk policy ⟨sources, depth⟩).checkCall rule call
    let deep := (Auditor.mk policy ⟨sources, deeper⟩).checkCall rule call
    (∃ error, shallow = .error error ∧ deep = .error error) ∨
      ∃ findings further, shallow = .ok findings ∧ deep = .ok further ∧
        (findings.filter fun finding => finding.rule ≠ "weak-entropy").Sublist
          (further.filter fun finding => finding.rule ≠ "weak-entropy") ∧
        (further.filter fun finding => finding.rule = "weak-entropy").Sublist
          (findings.filter fun finding => finding.rule = "weak-entropy") := by
  intro shallow deep
  have judged (depth : Nat) := (within policy sources depth).checkCall_eq rule call
  cases fault : rule.fault? call with
  | some error =>
      simp only [fault] at judged
      exact .inl ⟨error, judged depth, judged deeper⟩
  | none =>
      simp only [fault] at judged
      refine .inr ⟨_, _, judged depth, judged deeper, ?_, ?_⟩
      · apply filter_verdicts_sublist
        intro check finding noEntropy found
        exact verdict_of_deeper more (of_decide_eq_true noEntropy) found
      · apply filter_verdicts_sublist
        intro check finding entropy found
        exact verdict_of_shallower more (of_decide_eq_true entropy) found

end Auditor

/-- A decryption whose hash constructor and entropy source are both wrapped twice. -/
def wrappedDecryption : Call where
  callee := "crypto/rsa.DecryptOAEP"
  args := [.wrapped (.wrapped (.callResult "crypto/md5.New")),
    .wrapped (.wrapped (.callResult "crypto/rand.Reader"))]
  position := ⟨"main.go", 3, 1⟩
  result := none

theorem checkCall_of_deeper_wrappedDecryption :
    let sources := Policy.standard.secureSourceSymbols
    let shallow := (Auditor.mk .standard ⟨sources, 1⟩).checkCall Operation.decryptOAEP.rule
      wrappedDecryption
    let deep := (Auditor.mk .standard ⟨sources, 2⟩).checkCall Operation.decryptOAEP.rule
      wrappedDecryption
    shallow = .ok [wrappedDecryption.finding "weak-entropy" Check.entropyMessage] ∧
      deep = .ok [wrappedDecryption.finding "weak-oaep-hash" Check.oaepHashMessage] ∧
      ∃ findings further, shallow = .ok findings ∧ deep = .ok further ∧
        (findings.filter fun finding => finding.rule ≠ "weak-entropy").Sublist
          (further.filter fun finding => finding.rule ≠ "weak-entropy") ∧
        (further.filter fun finding => finding.rule = "weak-entropy").Sublist
          (findings.filter fun finding => finding.rule = "weak-entropy") := by
  intro sources shallow deep
  have found : shallow =
      .ok [wrappedDecryption.finding "weak-entropy" Check.entropyMessage] := rfl
  have foundDeeper : deep =
      .ok [wrappedDecryption.finding "weak-oaep-hash" Check.oaepHashMessage] := rfl
  refine ⟨found, foundDeeper, ?_⟩
  rcases Auditor.checkCall_of_deeper .standard sources Operation.decryptOAEP.rule
    wrappedDecryption 1 2 (by decide) with ⟨error, refused, -⟩ | judged
  · cases found.symm.trans refused
  · exact judged

end RsaAudit
