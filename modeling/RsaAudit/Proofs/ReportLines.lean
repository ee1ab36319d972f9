import RsaAudit.Proofs.Attribution
import RsaAudit.Proofs.Json.Spelling
import RsaAudit.Report.Rendering

/-!
# The lines of a text report

A line of a text report gives the file, line and column of a finding and its message,
with colons between them.  No message has a colon or a line break in it, whatever the
policy is, and numbers have neither.  So a line can be taken apart from its end, though
nothing is known of the name of the file, which comes first.

The name of a file is the only part of a line that can break it.  A report has as many
lines as findings exactly if no file name does, and then its text gives back every
position and message.
-/

namespace RsaAudit

/-! ## Messages -/

/-- Characters without the marks that part the lines of a report and the fields of a
line. -/
def Unmarked (chars : List Char) : Prop :=
  ':' ∉ chars ∧ '\n' ∉ chars

instance (chars : List Char) : Decidable (Unmarked chars) :=
  inferInstanceAs (Decidable (_ ∧ _))

theorem Unmarked.append {first second : List Char} (ofFirst : Unmarked first)
    (ofSecond : Unmarked second) : Unmarked (first ++ second) := by
  constructor
  · exact List.not_mem_append ofFirst.1 ofSecond.1
  · exact List.not_mem_append ofFirst.2 ofSecond.2

theorem Unmarked.toList_ofList {chars : List Char} (unmarked : Unmarked chars) :
    Unmarked (String.ofList chars).toList := by
  rw [String.toList_ofList]
  exact unmarked

theorem Unmarked.toList_append {first second : String} (ofFirst : Unmarked first.toList)
    (ofSecond : Unmarked second.toList) : Unmarked (first ++ second).toList := by
  rw [String.toList_append]
  exact ofFirst.append ofSecond

namespace Decimal

theorem unmarked_chars (number : Nat) : Unmarked (chars number) := by
  have digit : ∀ digit : Digit, digit.toChar ≠ ':' ∧ digit.toChar ≠ '\n' := by decide
  constructor
  · intro colon
    obtain ⟨found, -, isColon⟩ := List.mem_map.mp colon
    exact (digit found).1 isColon
  · intro newline
    obtain ⟨found, -, isNewline⟩ := List.mem_map.mp newline
    exact (digit found).2 isNewline

theorem toList_natText (number : Nat) : (natText number).toList = chars number :=
  String.toList_ofList

theorem unmarked_natText (number : Nat) : Unmarked (natText number).toList :=
  .toList_ofList (unmarked_chars number)

theorem unmarked_intText (number : Int) : Unmarked (intText number).toList := by
  cases number with
  | ofNat number => exact unmarked_natText number
  | negSucc number =>
      exact .toList_append (.toList_ofList (by decide)) (unmarked_natText (number + 1))

end Decimal

namespace Check

theorem unmarked_judge {policy : Policy} {check : Check} {found : Resolution}
    {message : String} (judged : check.judge policy found = some message) :
    Unmarked message.toList := by
  cases check with
  | primeCount primes bits => cases judged
  | secureEntropy argument =>
      obtain ⟨-, ⟨⟩⟩ := Option.ite_none_left_eq_some.mp judged
      exact .toList_ofList (by decide)
  | blinding argument | hashIdentifier argument | hashConstructor argument =>
      obtain ⟨-, ⟨⟩⟩ := Option.ite_none_right_eq_some.mp judged
      exact .toList_ofList (by decide)
  | minimumBits argument =>
      obtain ⟨-, ⟨⟩⟩ := Option.ite_none_right_eq_some.mp judged
      exact .toList_append (.toList_append (.toList_ofList (by decide))
        (Decimal.unmarked_intText _)) (.toList_ofList (by decide))
  | bitAlignment argument =>
      obtain ⟨-, ⟨⟩⟩ := Option.ite_none_right_eq_some.mp judged
      exact .toList_append (.toList_ofList (by decide)) (Decimal.unmarked_intText _)
  | sessionKeySize argument =>
      obtain ⟨-, ⟨⟩⟩ := Option.ite_none_right_eq_some.mp judged
      exact .toList_append (.toList_append (.toList_ofList (by decide))
        (Decimal.unmarked_natText _)) (.toList_ofList (by decide))

theorem unmarked_judgePrimes {primes bits : Resolution} {message : String}
    (judged : judgePrimes primes bits = some message) : Unmarked message.toList := by
  obtain ⟨count, -, judged⟩ := Option.bind_eq_some_iff.mp judged
  obtain ⟨size, -, judged⟩ := Option.bind_eq_some_iff.mp judged
  obtain ⟨most, -, judged⟩ := Option.bind_eq_some_iff.mp judged
  obtain ⟨-, ⟨⟩⟩ := Option.ite_none_right_eq_some.mp judged
  exact .toList_append (.toList_append (.toList_append (.toList_ofList (by decide))
    (Decimal.unmarked_intText _)) (.toList_ofList (by decide))) (Decimal.unmarked_intText _)

/-- Whatever a check has to say, it says without colons and line breaks. -/
theorem unmarked_opinion {policy : Policy} {resolved : Nat → Resolution} {check : Check}
    {message : String} (said : check.opinion policy resolved = some message) :
    Unmarked message.toList := by
  cases check with
  | primeCount primes bits => exact unmarked_judgePrimes said
  | _ =>
      rw [opinion] at said
      exact unmarked_judge said

end Check

theorem Operation.unmarked_remark {operation : Operation} {remark : Remark}
    (declared : remark ∈ operation.remark?) : Unmarked remark.message.toList := by
  cases operation with
  | generateKey | decryptOAEP | decryptPKCS1v15SessionKey => cases declared
  | generateMultiPrimeKey =>
      cases declared
      exact .toList_append (.toList_ofList (by decide)) (.toList_ofList (by decide))
  | encryptPKCS1v15 | signPKCS1v15 =>
      cases declared
      exact .toList_ofList (by decide)

namespace Auditor

variable {auditor : Auditor}

theorem unmarked_verdicts {operation : Operation} {call : Call} {finding : Finding}
    (found : finding ∈ auditor.verdicts operation.rule call) :
    Unmarked finding.message.toList := by
  rcases List.mem_append.mp found with checked | remarked
  · obtain ⟨check, -, verdict⟩ := List.mem_filterMap.mp checked
    obtain ⟨message, said, rfl⟩ := Option.map_eq_some_iff.mp verdict
    exact Check.unmarked_opinion said
  · obtain ⟨remark, declared, rfl⟩ := List.mem_map.mp remarked
    exact Operation.unmarked_remark (Option.mem_toList.mp declared)

/-- No message of a report has a colon or a line break in it. -/
theorem unmarked_message {programs : List Program} {finding : Finding}
    (reported : finding ∈ (auditor.auditAll programs).findings) :
    Unmarked finding.message.toList := by
  rw [auditAll_findings] at reported
  obtain ⟨call, -, found⟩ := List.mem_flatMap.mp reported
  obtain ⟨rule, ruled, verdict⟩ := exists_rule_of_mem_findingsOn found
  obtain ⟨operation, -, rfl⟩ := Rule.lookup_eq_some_iff.mp ruled
  exact unmarked_verdicts verdict

end Auditor

/-! ## Lines -/

theorem Finding.toList_text (finding : Finding) :
    finding.text.toList =
      finding.position.file.toList ++ ':' :: (Decimal.chars finding.position.line.toNat ++
        ':' :: (Decimal.chars finding.position.column.toNat ++
          ':' :: ' ' :: finding.message.toList)) := by
  simp [text, Position.text, Decimal.toList_natText]

theorem Report.toList_text (report : Report) :
    report.text.toList = report.findings.flatMap fun finding => finding.text.toList ++ ['\n'] := by
  simp [text, String.toList_join, List.flatMap_map]

namespace Finding

/-- The line breaks of a finding are those in the name of its file. -/
theorem count_newline_text {finding : Finding} (unmarked : Unmarked finding.message.toList) :
    finding.text.toList.count '\n' = finding.position.file.toList.count '\n' := by
  have line := (Decimal.unmarked_chars finding.position.line.toNat).2
  have column := (Decimal.unmarked_chars finding.position.column.toNat).2
  simp [toList_text, List.count_append, List.count_eq_zero_of_not_mem line,
    List.count_eq_zero_of_not_mem column, List.count_eq_zero_of_not_mem unmarked.2]

theorem newline_mem_text_iff {finding : Finding} (unmarked : Unmarked finding.message.toList) :
    '\n' ∈ finding.text.toList ↔ '\n' ∈ finding.position.file.toList := by
  rw [← List.count_pos_iff, ← List.count_pos_iff, count_newline_text unmarked]

end Finding

theorem length_splitOn (mark : Char) (chars : List Char) :
    (chars.splitOn mark).length = chars.count mark + 1 := by
  induction chars with
  | nil => rfl
  | cons char rest ih =>
      rw [List.splitOn_cons_eq_if_modifyHead, List.count_cons]
      split
      · rw [List.length_cons, ih]
      · rw [List.length_modifyHead, ih, Nat.add_zero]

/-- Lines that all end in a mark, which they do not have in them, are found again. -/
theorem splitOn_flatMap_concat {Item : Type} {mark : Char} {line : Item → List Char}
    {items : List Item} (whole : ∀ item ∈ items, mark ∉ line item) :
    (items.flatMap fun item => line item ++ [mark]).splitOn mark = items.map line ++ [[]] := by
  induction items with
  | nil => rfl
  | cons item rest ih =>
      obtain ⟨first, later⟩ := List.forall_mem_cons.mp whole
      rw [List.flatMap_cons, List.append_assoc, List.singleton_append,
        List.splitOn_append_cons_self_of_not_mem first, ih later]
      rfl

namespace Report

/-- The line breaks in the names of the files that the findings of a report are in. -/
def brokenNames (report : Report) : Nat :=
  (report.findings.flatMap fun finding => finding.position.file.toList).count '\n'

theorem brokenNames_eq_zero_iff (report : Report) :
    report.brokenNames = 0 ↔
      ∀ finding ∈ report.findings, '\n' ∉ finding.position.file.toList := by
  simp [brokenNames, List.count_eq_zero]

variable {report : Report}
  (unmarked : ∀ finding ∈ report.findings, Unmarked finding.message.toList)

include unmarked

theorem count_newline_text :
    report.text.toList.count '\n' = report.findings.length + report.brokenNames := by
  rw [toList_text, brokenNames]
  revert unmarked
  induction report.findings with
  | nil => exact fun _ => rfl
  | cons finding rest ih =>
      intro unmarked
      obtain ⟨first, later⟩ := List.forall_mem_cons.mp unmarked
      simp only [List.flatMap_cons, List.count_append, List.count_singleton_self,
        List.length_cons, ih later, Finding.count_newline_text first]
      omega

theorem splitOn_text
    (whole : ∀ finding ∈ report.findings, '\n' ∉ finding.position.file.toList) :
    report.text.toList.splitOn '\n' =
      report.findings.map (fun finding => finding.text.toList) ++ [[]] := by
  rw [toList_text]
  refine splitOn_flatMap_concat fun finding reported => ?_
  rw [Finding.newline_mem_text_iff (unmarked finding reported)]
  exact whole finding reported

end Report

namespace Auditor

/-- The text of a report has a line break for each finding, and besides only those in the
names of files.  So there are as many as findings exactly if no file of a finding has a
name with a line break, and only then the lines are the findings, one to a line. -/
theorem count_newline_auditAll (auditor : Auditor) (programs : List Program) (count : Nat) :
    let report := auditor.auditAll programs
    let text := (report.render count .text).toList
    text.count '\n' = report.findings.length +
        (report.findings.flatMap fun finding => finding.position.file.toList).count '\n' ∧
      (text.count '\n' = report.findings.length ↔
        ∀ finding ∈ report.findings, '\n' ∉ finding.position.file.toList) ∧
      (text.splitOn '\n' = report.findings.map (fun finding => finding.text.toList) ++ [[]] ↔
        ∀ finding ∈ report.findings, '\n' ∉ finding.position.file.toList) := by
  intro report text
  have unmarked : ∀ finding ∈ report.findings, Unmarked finding.message.toList :=
    fun finding reported => unmarked_message reported
  have counted : text.count '\n' = report.findings.length + report.brokenNames :=
    Report.count_newline_text unmarked
  refine ⟨counted, ?_, ?_, Report.splitOn_text unmarked⟩
  · rw [counted, ← report.brokenNames_eq_zero_iff]
    omega
  · intro lines
    -- There is one more part than line breaks, and the last one is empty.
    have parts := congrArg List.length lines
    rw [length_splitOn, List.length_append, List.length_map, List.length_singleton] at parts
    rw [← report.brokenNames_eq_zero_iff]
    omega

end Auditor

/-- A program that makes one encryption, in a file with a line break in its name. -/
def brokenNameProgram : Program :=
  ⟨none, [⟨"main", [⟨[.call ⟨"crypto/rsa.EncryptPKCS1v15", [.callResult "crypto/rand.Reader"],
    ⟨"a\nb.go", 3, 1⟩, none⟩]⟩]⟩]⟩

/-- A finding takes two lines of the text if there is a line break in the name of its
file. -/
theorem two_lines_brokenNameProgram :
    let report := (Auditor.ofPolicy Policy.standard).auditAll [brokenNameProgram]
    report.failures = [] ∧ report.findings.length = 1 ∧
      (report.render 1 .text).toList.count '\n' = 2 ∧
      report.render 1 .text =
        "a\nb.go:3:1: use rsa.EncryptOAEP instead of rsa.EncryptPKCS1v15\n" := by
  decide +kernel

/-! ## Reading a line from its end -/

/-- The characters before the last mark, and those after it. -/
def cutLast (mark : Char) : List Char → Option (List Char × List Char)
  | [] => none
  | char :: rest =>
      match cutLast mark rest with
      | some (front, back) => some (char :: front, back)
      | none => if char = mark then some ([], rest) else none

theorem cutLast_of_notMem {mark : Char} {chars : List Char} (absent : mark ∉ chars) :
    cutLast mark chars = none := by
  induction chars with
  | nil => rfl
  | cons char rest ih =>
      obtain ⟨here, later⟩ := List.ne_and_not_mem_of_not_mem_cons absent
      rw [cutLast, ih later]
      exact if_neg here.symm

theorem cutLast_append_cons {mark : Char} (front : List Char) {back : List Char}
    (absent : mark ∉ back) : cutLast mark (front ++ mark :: back) = some (front, back) := by
  induction front with
  | nil =>
      rw [List.nil_append, cutLast, cutLast_of_notMem absent]
      exact if_pos rfl
  | cons char rest ih => rw [List.cons_append, cutLast, ih]

def Decimal.read? (chars : List Char) : Option Nat :=
  (chars.mapM Digit.ofChar?).map value

theorem Decimal.read?_chars (number : Nat) : read? (chars number) = some number := by
  have digits (row : List Digit) : (row.map Digit.toChar).mapM Digit.ofChar? = some row := by
    induction row with
    | nil => rfl
    | cons digit rest ih =>
        rw [List.map_cons, List.mapM_cons, Json.Lexing.ofChar?_toChar, ih]
        rfl
  rw [read?, chars, digits, Option.map_some, value_digits]

namespace Report

/-- The position and the message on a line.  The name of the file is what is left once
the other fields have been taken from the end. -/
def readLine (line : List Char) : Option (Position × String) := do
  let (front, message) ← cutLast ':' line
  let (front, column) ← cutLast ':' front
  let (file, number) ← cutLast ':' front
  let number ← Decimal.read? number
  let column ← Decimal.read? column
  return (⟨String.ofList file, UInt64.ofNat number, UInt64.ofNat column⟩,
    String.ofList (message.drop 1))

def readText (text : String) : Option (List (Position × String)) :=
  (text.toList.splitOn '\n').dropLast.mapM readLine

theorem readLine_text {finding : Finding} (unmarked : Unmarked finding.message.toList) :
    readLine finding.text.toList = some (finding.position, finding.message) := by
  have message : ':' ∉ ' ' :: finding.message.toList :=
    List.not_mem_cons_of_ne_of_not_mem (by decide) unmarked.1
  have column := (Decimal.unmarked_chars finding.position.column.toNat).1
  have line := (Decimal.unmarked_chars finding.position.line.toNat).1
  -- Each field is what stands after the last colon of what is left.
  have fields := cutLast_append_cons (finding.position.file.toList ++
    ':' :: (Decimal.chars finding.position.line.toNat ++
      ':' :: Decimal.chars finding.position.column.toNat)) message
  have places := cutLast_append_cons (finding.position.file.toList ++
    ':' :: Decimal.chars finding.position.line.toNat) column
  have file := cutLast_append_cons finding.position.file.toList line
  simp only [List.append_assoc, List.cons_append] at fields places
  simp [readLine, Finding.toList_text, fields, places, file, Decimal.read?_chars]

theorem readText_text {report : Report}
    (unmarked : ∀ finding ∈ report.findings, Unmarked finding.message.toList)
    (whole : ∀ finding ∈ report.findings, '\n' ∉ finding.position.file.toList) :
    readText report.text =
      some (report.findings.map fun finding => (finding.position, finding.message)) := by
  rw [readText, splitOn_text unmarked whole, List.dropLast_concat]
  clear whole
  revert unmarked
  induction report.findings with
  | nil => exact fun _ => rfl
  | cons finding rest ih =>
      intro unmarked
      obtain ⟨first, later⟩ := List.forall_mem_cons.mp unmarked
      rw [List.map_cons, List.mapM_cons, readLine_text first, ih later]
      rfl

end Report

namespace Auditor

/-- The text of a report can be read back if no file of a finding has a name with a line
break, whatever else the names are made of: it gives the positions and messages of all
findings in order.  So two such reports with the same text, of any programs under any
policies, agree in these. -/
theorem readText_auditAll :
    (∀ (auditor : Auditor) (programs : List Program) (count : Nat),
      let report := auditor.auditAll programs
      (∀ finding ∈ report.findings, '\n' ∉ finding.position.file.toList) →
        Report.readText (report.render count .text) =
          some (report.findings.map fun finding => (finding.position, finding.message))) ∧
    ∀ (first second : Auditor) (programs others : List Program) (count number : Nat),
      let one := first.auditAll programs
      let another := second.auditAll others
      (∀ finding ∈ one.findings, '\n' ∉ finding.position.file.toList) →
      (∀ finding ∈ another.findings, '\n' ∉ finding.position.file.toList) →
      one.render count .text = another.render number .text →
        one.findings.map (fun finding => (finding.position, finding.message)) =
          another.findings.map fun finding => (finding.position, finding.message) := by
  have read (auditor : Auditor) (programs : List Program) (count : Nat)
      (whole : ∀ finding ∈ (auditor.auditAll programs).findings,
        '\n' ∉ finding.position.file.toList) :
      Report.readText ((auditor.auditAll programs).render count .text) =
        some ((auditor.auditAll programs).findings.map fun finding =>
          (finding.position, finding.message)) :=
    Report.readText_text (fun _ reported => unmarked_message reported) whole
  refine ⟨read, ?_⟩
  intro first second programs others count number one another wholeOne wholeAnother same
  have ofOne := read first programs count wholeOne
  have ofAnother := read second others number wholeAnother
  rw [same, ofAnother] at ofOne
  exact (Option.some.inj ofOne).symm

end Auditor

/-- A program that makes one encryption, in a file whose name looks like the start of a
line. -/
def colonNameProgram : Program :=
  ⟨none, [⟨"main", [⟨[.call ⟨"crypto/rsa.EncryptPKCS1v15", [.unresolved none],
    ⟨"a.go:1:2: b", 3, 0⟩, none⟩]⟩]⟩]⟩

theorem readText_auditAll_colonNameProgram :
    let report := (Auditor.ofPolicy Policy.standard).auditAll [colonNameProgram]
    (∀ finding ∈ report.findings, '\n' ∉ finding.position.file.toList) ∧
      report.findings.length = 2 ∧
      Report.readText (report.render 1 .text) =
        some [(⟨"a.go:1:2: b", 3, 0⟩, Check.entropyMessage),
          (⟨"a.go:1:2: b", 3, 0⟩, "use rsa.EncryptOAEP instead of rsa.EncryptPKCS1v15")] := by
  intro report
  have whole : ∀ finding ∈ report.findings, '\n' ∉ finding.position.file.toList := by
    decide +kernel
  refine ⟨whole, by decide +kernel, ?_⟩
  exact (Auditor.readText_auditAll.1 _ _ 1 whole).trans (by decide +kernel)

end RsaAudit
