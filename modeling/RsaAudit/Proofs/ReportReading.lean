import RsaAudit.Loading
import RsaAudit.Proofs.Document.Instruction
import RsaAudit.Proofs.Json.Indentation
import RsaAudit.Report.Rendering

/-!
# Reading a rendered report

A report that is rendered as JSON can be read back from its text.  The readers below
describe the object of a report as other tools see it: its counts, its findings and its
failures, each with all their fields.  They know nothing of how the object is written.

A source of a failure that is left out and a list of failures that is left out are told
from those that are there, so the reading also shows which members the object has.
-/

namespace RsaAudit

/-- What the object of a report says.  There are no failures, not even an empty list of
them, where the object has no such member. -/
structure Report.Summary where
  tool : String
  programsAnalyzed : Nat
  functionsAnalyzed : Nat
  totalDiagnostics : Nat
  totalFailures : Nat
  diagnostics : List Finding
  failures : Option (List Failure)
  deriving DecidableEq

section

variable {Read : Type → Type} {Node : Type}
  [Monad Read] [MonadExceptOf Reason Read] [Readable Read Node]

def Finding.shape : Shape Read Node Finding where
  fields := [
    ⟨"position", true, fun finding node =>
      return { finding with position := ← Position.read node }⟩,
    ⟨"message", true, fun finding node =>
      return { finding with message := ← Readable.text node }⟩,
    ⟨"rule", true, fun finding node =>
      return { finding with rule := ← Readable.text node }⟩,
    ⟨"callee", true, fun finding node =>
      return { finding with callee := ← Readable.text node }⟩]
  blank := ⟨⟨"", 0, 0⟩, "", "", ""⟩

/-- The fields of a failure; a source, if it is there, is a text. -/
def Failure.shape : Shape Read Node Failure where
  fields := [
    ⟨"source", false, fun failure node =>
      return { failure with source := some (← Readable.text node) }⟩,
    ⟨"function", true, fun failure node =>
      return { failure with function := ← Readable.text node }⟩,
    ⟨"error", true, fun failure node =>
      return { failure with error := ← Readable.text node }⟩]
  blank := ⟨none, "", ""⟩

def Readable.count (node : Node) : Read Nat :=
  return (← unsigned node).toNat

def Report.Summary.shape : Shape Read Node Summary where
  fields := [
    ⟨"tool", true, fun summary node =>
      return { summary with tool := ← Readable.text node }⟩,
    ⟨"programs_analyzed", true, fun summary node =>
      return { summary with programsAnalyzed := ← Readable.count node }⟩,
    ⟨"functions_analyzed", true, fun summary node =>
      return { summary with functionsAnalyzed := ← Readable.count node }⟩,
    ⟨"total_diagnostics", true, fun summary node =>
      return { summary with totalDiagnostics := ← Readable.count node }⟩,
    ⟨"total_failures", true, fun summary node =>
      return { summary with totalFailures := ← Readable.count node }⟩,
    ⟨"diagnostics", true, fun summary node =>
      return { summary with diagnostics := ← Readable.list Finding.shape.read node }⟩,
    ⟨"failures", false, fun summary node =>
      return { summary with failures := some (← Readable.list Failure.shape.read node) }⟩]
  blank := ⟨"", 0, 0, 0, 0, [], none⟩

end

/-! ## Reading what is written -/

theorem Json.unsigned_ofNat {number : Nat} (small : number < UInt64.size) :
    Readable.unsigned (Json.ofNat number) = .ok (UInt64.ofNat number) := by
  change (Numeral.toValue (.ofNat number) >>= Value.toUnsigned) = _
  rw [Numeral.toValue, Numeral.number?_ofNat small]
  rfl

theorem Json.count_ofNat {number : Nat} (small : number < UInt64.size) :
    Readable.count (Json.ofNat number) = .ok number := by
  rw [Readable.count, unsigned_ofNat small]
  exact congrArg Except.ok (UInt64.toNat_ofNat_of_lt' small)

theorem Json.list_map_write {Item : Type} {write : Item → Json}
    {read : Json → Except Reason Item} (back : ∀ item, read (write item) = .ok item)
    (items : List Item) : Readable.list read (.list (items.map write)) = .ok items := by
  have each : (items.map write).mapM read = .ok items := by
    induction items with
    | nil => rfl
    | cons item rest ih =>
        rw [List.map_cons, List.mapM_cons, back, ih]
        rfl
  exact each

theorem Position.read_toJson (position : Position) :
    Position.read position.toJson = .ok position := by
  have line := Json.unsigned_ofNat position.line.toNat_lt
  have column := Json.unsigned_ofNat position.column.toNat_lt
  rw [UInt64.ofNat_toNat] at line column
  refine (Shape.read_record
    [some (.ofText position.file), some (.ofNat position.line.toNat),
      some (.ofNat position.column.toNat)] rfl (by decide) rfl rfl).trans ?_
  simp only [shape, Shape.storeAll, line, column]
  rfl

theorem Finding.read_toJson (finding : Finding) :
    Finding.shape.read finding.toJson = .ok finding := by
  refine (Shape.read_record
    [some finding.position.toJson, some (.ofText finding.message),
      some (.ofText finding.rule), some (.ofText finding.callee)]
    rfl (by decide) rfl rfl).trans ?_
  simp only [shape, Shape.storeAll, Position.read_toJson]
  rfl

theorem Failure.read_toJson (failure : Failure) :
    Failure.shape.read failure.toJson = .ok failure := by
  cases failure with
  | mk source function error =>
      cases source with
      | none =>
          exact Shape.read_record
            [none, some (.ofText function), some (.ofText error)] rfl (by decide) rfl rfl
      | some text =>
          exact Shape.read_record
            [some (.ofText text), some (.ofText function), some (.ofText error)]
            rfl (by decide) rfl rfl

namespace Report

/-- The counts in the report on some programs are numbers of 64 bits. -/
structure CountsFit (report : Report) (programs : Nat) : Prop where
  programs : programs < UInt64.size
  functions : report.functionsAnalyzed < UInt64.size
  findings : report.findings.length < UInt64.size
  failures : report.failures.length < UInt64.size

def summary (report : Report) (programs : Nat) : Summary where
  tool := "rsalint"
  programsAnalyzed := programs
  functionsAnalyzed := report.functionsAnalyzed
  totalDiagnostics := report.findings.length
  totalFailures := report.failures.length
  diagnostics := report.findings
  failures := if report.failures = [] then none else some report.failures

/-- The nodes of the fields that are always there. -/
def requiredNodes (report : Report) (programs : Nat) : List (Option Json) := [
  some (.ofText toolName), some (.ofNat programs), some (.ofNat report.functionsAnalyzed),
  some (.ofNat report.findings.length), some (.ofNat report.failures.length),
  some (.list (report.findings.map Finding.toJson))]

theorem storeAll_requiredNodes {report : Report} {programs : Nat}
    (fit : report.CountsFit programs) (last : Option Json) :
    let shape : Shape (Except Reason) Json Summary := Summary.shape
    Shape.storeAll shape.blank shape.fields (report.requiredNodes programs ++ [last]) =
      Shape.storeAll { report.summary programs with failures := none }
        (shape.fields.drop 6) [last] := by
  intro shape
  have findings := Json.list_map_write Finding.read_toJson report.findings
  simp only [shape, requiredNodes, Summary.shape, Shape.storeAll, List.cons_append, List.nil_append,
    Json.count_ofNat fit.programs, Json.count_ofNat fit.functions,
    Json.count_ofNat fit.findings, Json.count_ofNat fit.failures, findings]
  rfl

theorem read_toJson {report : Report} {programs : Nat} (fit : report.CountsFit programs) :
    Summary.shape.read (report.toJson programs) = .ok (report.summary programs) := by
  by_cases empty : report.failures = []
  · have noFailures : report.hasFailures = false := by simp [hasFailures, empty]
    rw [toJson, noFailures]
    refine (Shape.read_record (report.requiredNodes programs ++ [none])
      rfl (by decide) rfl rfl).trans ?_
    rw [storeAll_requiredNodes fit, summary, if_pos empty]
    rfl
  · have someFailures : report.hasFailures = true := by simp [hasFailures, empty]
    have failures := Json.list_map_write Failure.read_toJson report.failures
    rw [toJson, someFailures]
    refine (Shape.read_record (report.requiredNodes programs ++
      [some (.list (report.failures.map Failure.toJson))]) rfl (by decide) rfl rfl).trans ?_
    rw [storeAll_requiredNodes fit, summary, if_neg empty]
    simp only [Summary.shape, List.drop, Shape.storeAll, failures]
    rfl

end Report

/-! ## The text of a report -/

theorem Finding.spellable_toJson (finding : Finding) :
    finding.toJson.Spellable Json.Numeral.WritesInteger := by
  simp [toJson, finding.position.spellable_toJson Json.admitsWords_writesInteger]

theorem Failure.spellable_toJson (failure : Failure) :
    failure.toJson.Spellable Json.Numeral.WritesInteger := by
  rw [toJson, Json.spellable_record]
  exact List.forall_mem_append.mpr ⟨Json.spellable_optionalMember, by simp⟩

namespace Report

theorem spellable_toJson (report : Report) (programs : Nat) :
    (report.toJson programs).Spellable Json.Numeral.WritesInteger := by
  have number (count : Nat) : (Json.ofNat count).Spellable Json.Numeral.WritesInteger := by
    rw [Json.ofNat, Json.Spellable]
    exact ⟨count, rfl⟩
  rw [toJson, Json.spellable_record]
  refine List.forall_mem_append.mpr ⟨?_, ?_⟩
  · simp [number, Finding.spellable_toJson]
  · split
    · simp [Failure.spellable_toJson]
    · exact List.forall_mem_nil _

theorem depth_toJson_le (report : Report) (programs : Nat) :
    (report.toJson programs).depth ≤ 4 := by
  have position (position : Position) : position.toJson.depth ≤ 1 := by
    rw [Position.toJson, Json.depth_record_le_iff]
    simp [Json.ofText, Json.ofNat, Json.depth]
  have finding (finding : Finding) : finding.toJson.depth ≤ 2 := by
    rw [Finding.toJson, Json.depth_record_le_iff]
    simp [Json.ofText, Json.depth, position]
  have failure (failure : Failure) : failure.toJson.depth ≤ 2 := by
    rw [Failure.toJson, Json.depth_record_le_iff]
    refine List.forall_mem_append.mpr ⟨?_, by simp [Json.ofText, Json.depth]⟩
    intro member source
    rw [Json.depth_optionalMember member source]
    exact Nat.zero_le 1
  have findings : (Json.list (report.findings.map Finding.toJson)).depth ≤ 3 :=
    Json.depth_list_map_le_iff.mpr fun item _ => finding item
  have failures : (Json.list (report.failures.map Failure.toJson)).depth ≤ 3 :=
    Json.depth_list_map_le_iff.mpr fun item _ => failure item
  rw [toJson, Json.depth_record_le_iff]
  refine List.forall_mem_append.mpr ⟨?_, ?_⟩
  · simpa [Json.ofText, Json.ofNat, Json.depth] using findings
  · split
    · simpa using failures
    · exact List.forall_mem_nil _

theorem exists_members_toJson (report : Report) (programs : Nat) :
    ∃ members, report.toJson programs = .object members ∧
      (some "failures" ∈ members.map Prod.fst ↔ report.failures ≠ []) := by
  refine ⟨_, rfl, ?_⟩
  by_cases empty : report.failures = []
  · simp [hasFailures, empty]
  · simp [hasFailures, empty]

theorem writtenAs_render (report : Report) (programs : Nat) :
    (report.toJson programs).WrittenAs (report.render programs .json) :=
  Json.writtenAs_pretty (report.spellable_toJson programs)

end Report

/-! ## Nothing is lost -/

theorem Json.ofNat_injective {first second : Nat} (same : ofNat first = ofNat second) :
    first = second := by
  have numerals : Numeral.ofNat first = Numeral.ofNat second := Json.number.inj same
  have values := congrArg (fun numeral => Decimal.value numeral.whole) numerals
  simpa [Numeral.ofNat] using values

/-- What can be read back is written in different ways for different items. -/
theorem Json.eq_of_write_eq {Item : Type} {write : Item → Json}
    {read : Json → Except Reason Item} (back : ∀ item, read (write item) = .ok item)
    {first second : Item} (same : write first = write second) : first = second := by
  have readFirst := back first
  rw [same, back second] at readFirst
  exact (Except.ok.inj readFirst).symm

namespace Report

-- This needs no bound on the counts, so it is shown member by member and not from what
-- is read.
theorem toJson_injective {first second : Report} {programs others : Nat}
    (same : first.toJson programs = second.toJson others) :
    first = second ∧ programs = others := by
  simp only [toJson, Json.record, Json.object.injEq, List.map_cons, List.cons_append,
    List.nil_append, List.cons.injEq, Prod.mk.injEq, true_and, Json.list.injEq] at same
  obtain ⟨programs, functions, -, lengths, findings, members⟩ := same
  have sameFindings : first.findings = second.findings :=
    (List.map_inj_right fun _ _ => Json.eq_of_write_eq Finding.read_toJson).mp findings
  have sameLengths : first.failures.length = second.failures.length :=
    Json.ofNat_injective lengths
  have sameFailures : first.failures = second.failures := by
    by_cases empty : first.failures = []
    · have alsoEmpty : second.failures = [] := by
        simpa [empty] using sameLengths.symm
      rw [empty, alsoEmpty]
    · have alsoSome : second.failures ≠ [] := by
        intro alsoEmpty
        exact empty (by simpa [alsoEmpty] using sameLengths)
      have listed : first.failures.map Failure.toJson = second.failures.map Failure.toJson := by
        simpa [hasFailures, empty, alsoSome] using members
      exact (List.map_inj_right fun _ _ => Json.eq_of_write_eq Failure.read_toJson).mp listed
  have sameFunctions : first.functionsAnalyzed = second.functionsAnalyzed :=
    Json.ofNat_injective functions
  refine ⟨?_, Json.ofNat_injective programs⟩
  cases first
  cases second
  simp_all only

/-- The JSON text of a report loses nothing.  It is read back as an object that names the
tool, gives all counts, the lengths of both lists among them, and holds the findings and
failures field by field and in order; the member for the failures is left out exactly
if there are none, and so is the source of a failure that has none.  So two reports with
the same text are the same. -/
theorem read_render_json :
    (∀ (report : Report) (programs : Nat), report.CountsFit programs →
      let text := report.render programs .json
      (∃ members, Json.Document.parse text = ⟨.object members, true⟩ ∧
        (some "failures" ∈ members.map Prod.fst ↔ report.failures ≠ [])) ∧
      Json.bracketDepth text ≤ 127 ∧
      DocumentFormat.json.read Summary.shape text = .ok {
        tool := "rsalint"
        programsAnalyzed := programs
        functionsAnalyzed := report.functionsAnalyzed
        totalDiagnostics := report.findings.length
        totalFailures := report.failures.length
        diagnostics := report.findings
        failures := if report.failures = [] then none else some report.failures }) ∧
    ∀ (first second : Report) (programs others : Nat),
      first.render programs .json = second.render others .json →
        first = second ∧ programs = others := by
  constructor
  · intro report programs fit text
    have written := report.writtenAs_render programs
    have parsed := Json.parse_of_writtenAs written
    obtain ⟨members, object, keys⟩ := report.exists_members_toJson programs
    refine ⟨⟨members, ?_, keys⟩, ?_, ?_⟩
    · rw [← object]
      exact parsed
    · rw [Json.bracketDepth_of_writtenAs written]
      exact Nat.le_trans (report.depth_toJson_le programs) (by decide)
    · unfold DocumentFormat.read
      dsimp only
      rw [parsed, read_toJson fit]
      rfl
  · intro first second programs others same
    have firstRead := Json.parse_of_writtenAs (first.writtenAs_render programs)
    have secondRead := Json.parse_of_writtenAs (second.writtenAs_render others)
    rw [same, secondRead] at firstRead
    exact toJson_injective (congrArg Json.Document.root firstRead).symm

/-- A report with a line break and a quote in a file name, with the largest line, and with
a failure in a program of no known source. -/
def oddReport : Report where
  findings := [⟨⟨"a\n\"b", 0xFFFFFFFFFFFFFFFF, 0⟩, "é", "weak-entropy", "\x00"⟩]
  failures := [⟨none, "main", ""⟩]
  functionsAnalyzed := 2

theorem read_render_json_oddReport :
    oddReport.CountsFit 0xFFFFFFFFFFFFFFFF ∧
      DocumentFormat.json.read Summary.shape
          (oddReport.render 0xFFFFFFFFFFFFFFFF .json) = .ok {
        tool := "rsalint"
        programsAnalyzed := 0xFFFFFFFFFFFFFFFF
        functionsAnalyzed := 2
        totalDiagnostics := 1
        totalFailures := 1
        diagnostics := oddReport.findings
        failures := some oddReport.failures } := by
  have fit : oddReport.CountsFit 0xFFFFFFFFFFFFFFFF :=
    ⟨by decide, by decide, by decide, by decide⟩
  exact ⟨fit, (read_render_json.1 oddReport 0xFFFFFFFFFFFFFFFF fit).2.2⟩

end Report

end RsaAudit
