import RsaAudit.Proofs.CommandRun
import RsaAudit.Proofs.Files.NewFile
import RsaAudit.Proofs.Json.Soundness
import RsaAudit.Proofs.ReportLines
import RsaAudit.Proofs.ReportReading

/-!
# Running again

A run may write its report into the tree that it searches.  If nothing was there, the
tree has one new file afterwards, and a second run differs from the first one at most in
one document: the report itself.

If the report is not found, the second run shows what the first one did, and leaves the
tree as it is.  If it is found, it counts: a report that does not load makes the run
fail, and one that loads is one more program, which a JSON report counts.
-/

namespace RsaAudit

theorem loadAll_congr {view other : FileView} {paths : List String}
    (same : ∀ path ∈ paths, Program.load other path = Program.load view path) :
    loadAll other paths = loadAll view paths := by
  have loaded : (paths.map fun path => (path, Program.load other path)) =
      paths.map fun path => (path, Program.load view path) := by
    apply List.map_congr_left
    intro path member
    rw [same path member]
  unfold loadAll
  rw [loaded]

theorem loadedPrograms_append (view : FileView) (first second : List String) :
    loadedPrograms view (first ++ second) =
      loadedPrograms view first ++ loadedPrograms view second :=
  List.filterMap_append

theorem AuditRun.ofPaths_congr {view other : FileView} {paths : List String}
    (same : ∀ path ∈ paths, Program.load other path = Program.load view path)
    (policy : Policy) :
    AuditRun.ofPaths other policy paths = AuditRun.ofPaths view policy paths := by
  have loaded := loadAll_congr same
  have programs : loadedPrograms other paths = loadedPrograms view paths := by
    rw [← loadAll_fst, ← loadAll_fst, loaded]
  rw [ofPaths, ofPaths, loaded, programs]

/-! ## One more document -/

namespace AuditRun

theorem exitCode_eq_two_iff (run : AuditRun) (failOnFindings : Bool) :
    run.exitCode failOnFindings = 2 ↔
      run.loadErrors.isEmpty = false ∨ run.report.failures ≠ [] := by
  obtain ⟨failed, found, clean⟩ := run.exitCode_spec failOnFindings
  constructor
  · intro isTwo
    by_contra passed
    by_cases someFound : failOnFindings = true ∧ run.report.findings ≠ []
    · rw [found passed someFound] at isTwo
      cases isTwo
    · rw [clean passed someFound] at isTwo
      cases isTwo
  · exact failed

theorem rendered_text (run : AuditRun) : run.rendered .text = run.report.text := by
  have written := (run.lineEnded_rendered .text).1
  apply written
  rw [Report.render]
  rcases List.eq_nil_or_concat run.report.findings with none | ⟨front, last, split⟩
  · left
    simp [Report.text, none]
  · right
    refine ⟨Report.text { run.report with findings := front } ++ last.text, ?_⟩
    simp [Report.text, split, String.append_assoc]

theorem writtenAs_rendered_json (run : AuditRun) :
    (run.report.toJson run.programs.length).WrittenAs (run.rendered .json) := by
  have written := run.report.writtenAs_render run.programs.length
  obtain ⟨asItIs, ended⟩ := run.lineEnded_rendered .json
  by_cases isEnded : run.report.render run.programs.length .json = "" ∨
      ∃ front, run.report.render run.programs.length .json = front ++ "\n"
  · rw [asItIs isEnded]
    exact written
  · -- A line break after a value is a blank.
    rw [ended isEnded]
    refine ⟨written.1, ?_⟩
    rw [String.toList_append]
    exact written.2.concat_blank rfl

theorem eq_of_rendered_json {first second : AuditRun}
    (same : first.rendered .json = second.rendered .json) :
    first.programs.length = second.programs.length := by
  have firstRead := Json.parse_of_writtenAs first.writtenAs_rendered_json
  have secondRead := Json.parse_of_writtenAs second.writtenAs_rendered_json
  rw [same, secondRead] at firstRead
  exact (Report.toJson_injective (congrArg Json.Document.root firstRead)).2.symm

section

variable {view : FileView} (policy : Policy) (before later : List String) {document : String}

/-- A document that does not load leaves the report as it is, and the run fails. -/
theorem ofPaths_of_failing {error : LoadError}
    (failed : Program.load view document = .error error) (format : OutputFormat)
    (failOnFindings : Bool) :
    let less := ofPaths view policy (before ++ later)
    let more := ofPaths view policy (before ++ document :: later)
    more.rendered format = less.rendered format ∧ more.exitCode failOnFindings = 2 := by
  intro less more
  have programs : more.programs = less.programs := by
    simp [more, less, ofPaths, loadedPrograms, failed, Except.toOption]
  have report : more.report = less.report :=
    congrArg (Auditor.ofPolicy policy).auditAll programs
  constructor
  · rw [rendered, rendered, programs, report]
  · rw [exitCode_eq_two_iff]
    left
    rw [isEmpty_loadErrors]
    exact ⟨document, by simp, error, failed⟩

variable {program : Program} (loaded : Program.load view document = .ok program)

include loaded

theorem ofPaths_of_loaded :
    let less := ofPaths view policy (before ++ later)
    let more := ofPaths view policy (before ++ document :: later)
    let report := (Auditor.ofPolicy policy).audit program
    more.loadErrors = less.loadErrors ∧
      more.programs.length = less.programs.length + 1 ∧
      ∃ first last : Report,
        less.report.findings = first.findings ++ last.findings ∧
        more.report.findings = first.findings ++ (report.findings ++ last.findings) ∧
        less.report.failures = first.failures ++ last.failures ∧
        more.report.failures = first.failures ++ (report.failures ++ last.failures) := by
  have programs : loadedPrograms view (before ++ document :: later) =
      loadedPrograms view before ++ program :: loadedPrograms view later := by
    simp [loadedPrograms, loaded, Except.toOption]
  have errors : (loadAll view (before ++ document :: later)).2 =
      (loadAll view (before ++ later)).2 := by
    simp [loadAll, loaded]
  simp only [ofPaths, programs, errors, loadedPrograms_append]
  refine ⟨trivial, by simp [Nat.add_assoc], ?_⟩
  refine ⟨(Auditor.ofPolicy policy).auditAll (loadedPrograms view before),
    (Auditor.ofPolicy policy).auditAll (loadedPrograms view later), ?_⟩
  simp [Auditor.auditAll_eq, Auditor.audit_eq]

/-- A text report shows one more program only through its findings. -/
theorem rendered_text_eq_iff_of_loaded :
    (ofPaths view policy (before ++ document :: later)).rendered .text =
        (ofPaths view policy (before ++ later)).rendered .text ↔
      ((Auditor.ofPolicy policy).audit program).findings = [] := by
  obtain ⟨-, -, first, last, less, more, -⟩ := ofPaths_of_loaded policy before later loaded
  rw [rendered_text, rendered_text, ← String.toList_inj, Report.toList_text, Report.toList_text,
    less, more, List.flatMap_append, List.flatMap_append, List.flatMap_append,
    List.append_cancel_left_eq, List.append_left_eq_self]
  constructor
  · intro noLines
    rw [List.flatMap_eq_nil_iff] at noLines
    rw [List.eq_nil_iff_forall_not_mem]
    intro finding member
    simpa using noLines finding member
  · intro clean
    rw [clean, List.flatMap_nil]

/-- A JSON report counts one more program. -/
theorem rendered_json_ne_of_loaded :
    (ofPaths view policy (before ++ document :: later)).rendered .json ≠
      (ofPaths view policy (before ++ later)).rendered .json := by
  obtain ⟨-, counted, -⟩ := ofPaths_of_loaded policy before later loaded
  intro same
  have sameCount := eq_of_rendered_json same
  omega

theorem exitCode_eq_iff_of_loaded
    (clean : ((Auditor.ofPolicy policy).audit program).findings = []) (failOnFindings : Bool) :
    (ofPaths view policy (before ++ document :: later)).exitCode failOnFindings =
        (ofPaths view policy (before ++ later)).exitCode failOnFindings ↔
      ((Auditor.ofPolicy policy).audit program).failures = [] ∨
        (ofPaths view policy (before ++ later)).exitCode failOnFindings = 2 := by
  obtain ⟨errors, -, first, last, lessFound, moreFound, lessFailed, moreFailed⟩ :=
    ofPaths_of_loaded policy before later loaded
  by_cases passed : ((Auditor.ofPolicy policy).audit program).failures = []
  · refine iff_of_true ?_ (.inl passed)
    rw [clean, List.nil_append, ← lessFound] at moreFound
    rw [passed, List.nil_append, ← lessFailed] at moreFailed
    rw [exitCode, exitCode, Report.hasFailures, Report.hasFailures, Report.hasFindings,
      Report.hasFindings, errors, moreFound, moreFailed]
  · have isTwo : (ofPaths view policy (before ++ document :: later)).exitCode failOnFindings =
        2 := by
      rw [exitCode_eq_two_iff, moreFailed]
      exact .inr (by simp [passed])
    rw [isTwo, or_iff_right passed, eq_comm]

omit loaded in
/-- When one more document makes no difference. -/
theorem ofPaths_insert_iff (document : String) (format : OutputFormat) (failOnFindings : Bool) :
    let less := ofPaths view policy (before ++ later)
    let more := ofPaths view policy (before ++ document :: later)
    more.exitCode failOnFindings = less.exitCode failOnFindings ∧
        more.rendered format = less.rendered format ↔
      (∃ error, Program.load view document = .error error) ∧
          less.exitCode failOnFindings = 2 ∨
        ∃ program, Program.load view document = .ok program ∧
          let report := (Auditor.ofPolicy policy).audit program
          format = .text ∧ report.findings = [] ∧
            (report.failures = [] ∨ less.exitCode failOnFindings = 2) := by
  intro less more
  cases loaded : Program.load view document with
  | error error =>
      obtain ⟨sameText, isTwo⟩ :=
        ofPaths_of_failing policy before later loaded format failOnFindings
      simpa [less, more, sameText, isTwo] using eq_comm
  | ok program =>
      cases format with
      | json =>
          have different := rendered_json_ne_of_loaded policy before later loaded
          simp [less, more, different]
      | text =>
          have sameText_iff := rendered_text_eq_iff_of_loaded policy before later loaded
          by_cases clean : ((Auditor.ofPolicy policy).audit program).findings = []
          · have sameCode_iff :=
              exitCode_eq_iff_of_loaded policy before later loaded clean failOnFindings
            simp [less, more, sameText_iff, sameCode_iff, clean]
          · simp [less, more, sameText_iff, clean]

end

end AuditRun

/-! ## The second run -/

namespace Command

variable {tree : FileTree} {words : List String} {options : Options}

/-- A command line is refused whatever the tree is. -/
theorem run_of_refused {usage : UsageError} (refused : run tree words = .error usage)
    (other : FileTree) : run other words = .error usage := by
  rw [run] at refused ⊢
  cases parsed : Options.parse words with
  | error cause =>
      rw [parsed] at refused
      cases refused
      rfl
  | ok options =>
      rw [parsed] at refused
      cases refused

theorem execute_of_write {audited : AuditRun} {file : String} {after : FileTree}
    (noListing : options.listRules = false)
    (done : audit tree.look options = .ok audited) (output : options.outputFile = some file)
    (written : tree.write file (audited.rendered options.format) = .ok after) :
    execute tree options =
      (⟨audited.exitCode options.failOnFindings, "", audited.log options.verbosity⟩, after) := by
  rw [execute, plan, noListing, done]
  simp only [Bool.false_eq_true, if_false, output, written]

theorem exists_audit_of_output {view : FileView} {file text : String}
    (planned : (plan view options).output = some (file, text)) :
    options.listRules = false ∧ ∃ audited, audit view options = .ok audited ∧
      options.outputFile = some file ∧ audited.rendered options.format = text := by
  rw [plan] at planned
  split at planned
  case isTrue => cases planned
  case isFalse noListing =>
    split at planned
    case h_1 => cases planned
    case h_2 audited done =>
      split at planned
      case h_1 output =>
        cases planned
        exact ⟨Bool.eq_false_iff.mpr noListing, audited, done, output, rfl⟩
      case h_2 => cases planned

/-- A run leaves the tree as it is unless it writes the report of its audit. -/
theorem execute_cases (tree : FileTree) (options : Options) :
    (execute tree options).2 = tree ∨
      ∃ audited file, options.listRules = false ∧
        audit tree.look options = .ok audited ∧ options.outputFile = some file ∧
        tree.write file (audited.rendered options.format) = .ok (execute tree options).2 := by
  cases planned : (plan tree.look options).output with
  | none =>
      left
      rw [execute]
      simp only [planned]
  | some output =>
      obtain ⟨file, text⟩ := output
      obtain ⟨noListing, audited, done, output, rfl⟩ := exists_audit_of_output planned
      cases written : tree.write file (audited.rendered options.format) with
      | error cause =>
          left
          rw [execute]
          simp only [planned, written]
      | ok after =>
          right
          rw [execute_of_write noListing done output written]
          exact ⟨audited, file, noListing, done, output, written⟩

theorem exists_base_of_policy {view : FileView} {policy : Policy}
    (chosen : Command.policy view options = .ok policy) :
    ∃ base : Policy, policy = base.withParallel options.parallel ∧
      (options.config = none → base = .standard) ∧
      ∀ file, options.config = some file → Policy.load view file = .ok base := by
  rw [Command.policy] at chosen
  cases configured : options.config with
  | none =>
      rw [configured] at chosen
      cases chosen
      refine ⟨.standard, rfl, fun _ => rfl, ?_⟩
      intro file named
      cases named
  | some file =>
      rw [configured] at chosen
      dsimp only at chosen
      cases loaded : Policy.load view file with
      | error cause =>
          rw [loaded] at chosen
          cases chosen
      | ok base =>
          rw [loaded] at chosen
          cases chosen
          refine ⟨base, rfl, ?_, ?_⟩
          · intro none
            cases none
          · intro other same
            cases same
            exact loaded

/-- An audit that has been done could be done. -/
theorem exists_audits {audited : AuditRun} {file : String} {after : FileTree}
    (parsed : Options.parse words = .ok options) (noListing : options.listRules = false)
    (done : audit tree.look options = .ok audited) (output : options.outputFile = some file)
    (written : tree.write file (audited.rendered options.format) = .ok after) :
    ∃ path policy, Audits tree words options path policy := by
  unfold audit at done
  cases valid : options.validate tree.look with
  | error cause =>
      rw [valid] at done
      cases done
  | ok _ =>
      cases named : options.path with
      | none =>
          rw [valid, named] at done
          cases done
      | some path =>
          rw [valid, named] at done
          obtain ⟨policy, chosen, -⟩ := bind_eq_ok_iff.mp done
          obtain ⟨base, -, standard, loaded⟩ := exists_base_of_policy chosen
          refine ⟨path, base, parsed, noListing, named, valid, standard, loaded, ?_⟩
          intro other same
          obtain rfl : file = other := Option.some.inj (output.symm.trans same)
          obtain ⟨location, resolved, noDirectory, -⟩ := FileTree.write_cases written
          exact FileTree.exists_write resolved noDirectory ""

/-- The search of a run comes upon its own report: the output file is below the directory
that is searched, and a document there. -/
structure FindsReport (tree : FileTree) (options : Options) (path file : String)
    (way : List String) : Prop where
  searches : options.path = some path
  writes : options.outputFile = some file
  document : ∃ base entry, tree.resolve .find path = .ok base ∧
    tree.root.at? base = some entry ∧ entry.HoldsDocument way ∧
      tree.resolve .find file = .ok (base ++ way)

namespace FindsReport

variable {path file : String} {way : List String}
  (finds : FindsReport tree options path file way)

include finds

theorem present (wellNamed : tree.root.WellNamed) : tree.look.exists file = true := by
  obtain ⟨base, entry, -, here, ⟨⟨text, reached⟩, -⟩, resolved⟩ := finds.document
  have found : tree.root.at? (base ++ way) = some (.file text) := by
    rw [Entry.at?_append, here]
    exact (wellNamed.at? here).at?_of_reaches reached
  rw [FileView.exists, FileTree.look_eq_ok_iff.mpr ⟨_, resolved, found⟩]
  rfl

theorem located {base location : List String} {entry : Entry}
    (resolved : tree.resolve .find path = .ok base) (here : tree.root.at? base = some entry)
    (written : tree.resolve .find file = .ok location) :
    entry.HoldsDocument way ∧ base ++ way = location := by
  obtain ⟨start, found, startResolved, startHere, holds, outputResolved⟩ := finds.document
  obtain rfl : start = base := Except.ok.inj (startResolved.symm.trans resolved)
  obtain rfl : found = entry := Option.some.inj (startHere.symm.trans here)
  exact ⟨holds, Except.ok.inj (outputResolved.symm.trans written)⟩

theorem unique {other : List String} (again : FindsReport tree options path file other) :
    way = other := by
  obtain ⟨base, entry, resolved, here, -, written⟩ := again.document
  exact List.append_cancel_left (finds.located resolved here written).2

end FindsReport

section

variable {after : FileTree} {path file text : String} {policy : Policy}
  {location paths : List String} (makes : tree.MakesFile file text location after)

include makes

theorem load_of_makesFile (wellNamed : tree.root.WellNamed)
    (discovered : discover tree.look path = .ok paths) :
    ∀ document ∈ paths, Program.load after.look document = Program.load tree.look document := by
  intro document member
  apply Program.load_congr
  rcases discover_eq_ok_iff.mp discovered with ⟨content, found, rfl⟩ | ⟨children, found, -, rfl⟩
  · rw [List.mem_singleton.mp member, makes.growth.look rfl found, found]
  · obtain ⟨more, still⟩ := makes.growth.look_directory found
    obtain ⟨way, listed, rfl⟩ := List.mem_map.mp member
    exact makes.growth.look_document wellNamed (makes.wellNamed wellNamed) found still
      (Entry.mem_documents.mp listed)

/-- Either a second run has the same documents to read, or it has its own report to read
as well. -/
theorem discover_cases (searches : options.path = some path)
    (output : options.outputFile = some file) (wellNamed : tree.root.WellNamed)
    (discovered : discover tree.look path = .ok paths) :
    discover after.look path = .ok paths ∧
        (∀ way, ¬ FindsReport after options path file way) ∨
      ∃ before way later, FindsReport after options path file way ∧
        paths = before ++ later ∧
        discover after.look path = .ok (before ++ Path.joinAll path way :: later) := by
  rcases discover_eq_ok_iff.mp discovered with
    ⟨content, found, rfl⟩ | ⟨children, found, opens, rfl⟩
  · have still := makes.growth.look rfl found
    refine .inl ⟨discover_eq_ok_iff.mpr (.inl ⟨content, still, rfl⟩), ?_⟩
    intro way finds
    obtain ⟨base, resolved, here⟩ := FileTree.look_eq_ok_iff.mp still
    have holds := (finds.located resolved here makes.resolve_find).1
    exact Entry.not_holdsDocument_of_not_directory rfl holds
  · obtain ⟨more, still⟩ := makes.growth.look_directory found
    obtain ⟨base, resolved, -⟩ := FileTree.look_eq_ok_iff.mp found
    obtain ⟨last, lastResolved, there⟩ := FileTree.look_eq_ok_iff.mp still
    obtain rfl : base = last :=
      Except.ok.inj ((makes.growth.resolve resolved).symm.trans lastResolved)
    have opensStill := makes.opensBelow wellNamed found still resolved opens
    rcases makes.documents_cases wellNamed found still resolved with
      ⟨same, notFound⟩ | ⟨before, way, later, isLocation, holds, split, kept⟩
    · refine .inl ⟨discover_eq_ok_iff.mpr (.inr ⟨more, still, opensStill, by rw [same]⟩), ?_⟩
      intro way finds
      obtain ⟨holds, isLocation⟩ := finds.located lastResolved there makes.resolve_find
      exact notFound way isLocation holds
    · refine .inr ⟨before.map (Path.joinAll path), way, later.map (Path.joinAll path), ?_, ?_, ?_⟩
      · refine ⟨searches, output, base, _, lastResolved, there, holds, ?_⟩
        rw [isLocation]
        exact makes.resolve_find
      · rw [kept, List.map_append]
      · refine discover_eq_ok_iff.mpr (.inr ⟨more, still, opensStill, ?_⟩)
        rw [split, List.map_append, List.map_cons]

end

/-- Two texts that are delivered into one file are the same exactly if the file is. -/
theorem Delivers.same_iff {after : FileTree} {file text other : String}
    {first second : Outcome × FileTree} (output : options.outputFile = some file)
    (delivers : Delivers tree options text first)
    (noDevice : tree.look file ≠ .ok .special)
    (deliversAgain : Delivers after options other second)
    (noDeviceThen : after.look file ≠ .ok .special) :
    second.1.stdout = first.1.stdout ∧ second.2.look file = first.2.look file ↔
      other = text := by
  obtain ⟨shown, -, found⟩ := delivers.written file output
  obtain ⟨shownAgain, -, foundAgain⟩ := deliversAgain.written file output
  rw [shown, shownAgain, found noDevice, foundAgain noDeviceThen]
  simp

section

variable {after : FileTree} {path file : String} {policy : Policy}
  {location paths : List String} (audits : Audits tree words options path policy)
  (output : options.outputFile = some file)
  (makes : tree.MakesFile file
    ((AuditRun.ofPaths tree.look policy paths).rendered options.format) location after)

include audits output makes

theorem audits_again {others : List String}
    (discoveredAgain : discover after.look path = .ok others) :
    Audits after words options path policy := by
  refine audits.of_growsInto makes.growth discoveredAgain ?_
  intro other same
  cases output.symm.trans same
  obtain ⟨location, resolved, noDirectory, -⟩ := FileTree.write_cases makes.write_again
  exact FileTree.exists_write resolved noDirectory ""

variable (wellNamed : tree.root.WellNamed) (discovered : discover tree.look path = .ok paths)

include wellNamed discovered

/-- A run with the same documents to read writes the same report into the same file. -/
theorem execute_again_of_same
    (written : tree.write file
      ((AuditRun.ofPaths tree.look policy paths).rendered options.format) = .ok after)
    (discoveredAgain : discover after.look path = .ok paths) :
    execute after options = execute tree options := by
  have done := audits.audit_eq discovered
  have doneAgain := (audits_again audits output makes discoveredAgain).audit_eq discoveredAgain
  rw [AuditRun.ofPaths_congr (load_of_makesFile makes wellNamed discovered)] at doneAgain
  rw [execute_of_write audits.noListing doneAgain output makes.write_again,
    execute_of_write audits.noListing done output written]

/-- A run with other documents to read is the same exactly if its audit is. -/
theorem execute_again_iff {others : List String}
    (absent : tree.look.exists file = false)
    (discoveredAgain : discover after.look path = .ok others) :
    let first := execute tree options
    let second := execute after options
    let less := AuditRun.ofPaths after.look policy paths
    let more := AuditRun.ofPaths after.look policy others
    first.1.exitCode = less.exitCode options.failOnFindings ∧
      (second.1.exitCode = first.1.exitCode ∧ second.1.stdout = first.1.stdout ∧
          second.2.look file = first.2.look file ↔
        more.exitCode options.failOnFindings = less.exitCode options.failOnFindings ∧
          more.rendered options.format = less.rendered options.format) := by
  intro first second less more
  have auditsAgain := audits_again audits output makes discoveredAgain
  have done := audits.audit_eq discovered
  rw [← AuditRun.ofPaths_congr (load_of_makesFile makes wellNamed discovered)] at done
  obtain ⟨delivers, exitCode⟩ := audits.delivers done
  obtain ⟨deliversAgain, exitCodeAgain⟩ :=
    auditsAgain.delivers (auditsAgain.audit_eq discoveredAgain)
  have noDevice : tree.look file ≠ .ok .special := by
    intro device
    rw [FileView.exists, device] at absent
    cases absent
  have noDeviceThen : after.look file ≠ .ok .special := by
    rw [FileTree.look_eq_ok_iff.mpr ⟨location, makes.resolve_find, makes.at?_location⟩]
    intro device
    cases device
  refine ⟨exitCode, ?_⟩
  rw [delivers.same_iff output noDevice deliversAgain noDeviceThen]
  change (execute after options).1.exitCode = (execute tree options).1.exitCode ∧ _ ↔ _
  rw [exitCode, exitCodeAgain]

end

/-- To run again is to run once, unless the search comes upon the report.  A command line
that is refused is refused again.  Otherwise let nothing be under the path of the output
file, if there is one, before the first run.  If the report of the first run is not a
document below the directory that is searched, the second run has the same exit code,
shows the same and leaves the same tree.  If it is one, the second run finds exactly this
document more, and the exit code and the report are the same exactly in these cases: the
report does not load as a program and the first run has failed already; or it loads,
reports are texts, the audit of it finds nothing, and all its functions can be judged or
the first run has failed already. -/
theorem run_again (tree : FileTree) (wellNamed : tree.root.WellNamed) (words : List String)
    (absent : ∀ options file, Options.parse words = .ok options →
      options.outputFile = some file → tree.look.exists file = false) :
    (∀ usage, run tree words = .error usage → ∀ other, run other words = .error usage) ∧
    ∀ options, Options.parse words = .ok options →
      let first := execute tree options
      let second := execute first.2 options
      run tree words = .ok first ∧ run first.2 words = .ok second ∧
      ((∀ path file way, ¬ FindsReport first.2 options path file way) →
        second.1.exitCode = first.1.exitCode ∧ second.1.stdout = first.1.stdout ∧
          second.2 = first.2) ∧
      ∀ path file way, FindsReport first.2 options path file way →
        ∃ policy before later, Command.policy tree.look options = .ok policy ∧
          discover tree.look path = .ok (before ++ later) ∧
          discover first.2.look path = .ok (before ++ Path.joinAll path way :: later) ∧
          (second.1.exitCode = first.1.exitCode ∧ second.1.stdout = first.1.stdout ∧
              second.2.look file = first.2.look file ↔
            (∃ error, Program.load first.2.look (Path.joinAll path way) = .error error) ∧
                first.1.exitCode = 2 ∨
              ∃ program, Program.load first.2.look (Path.joinAll path way) = .ok program ∧
                let report := (Auditor.ofPolicy policy).audit program
                options.format = .text ∧ report.findings = [] ∧
                  (report.failures = [] ∨ first.1.exitCode = 2)) := by
  refine ⟨fun _ refused => run_of_refused refused, ?_⟩
  intro options parsed first second
  refine ⟨run_of_parse parsed tree, run_of_parse parsed first.2, ?_⟩
  rcases execute_cases tree options with unchanged | ⟨audited, file, noListing, done, output,
    written⟩
  · have again : second = first := by
      change execute (execute tree options).2 options = execute tree options
      rw [unchanged]
    refine ⟨fun _ => by rw [again]; exact ⟨rfl, rfl, rfl⟩, ?_⟩
    intro path file way finds
    have finds : FindsReport tree options path file way := unchanged ▸ finds
    have present := finds.present wellNamed
    rw [absent options file parsed finds.writes] at present
    cases present
  · obtain ⟨path, policy, audits⟩ := exists_audits parsed noListing done output written
    obtain ⟨location, makes⟩ :=
      FileTree.makesFile_of_write (absent options file parsed output) written
    obtain ⟨paths, discovered, rfl⟩ := audits.exists_of_audit done
    rcases discover_cases makes audits.path output wellNamed discovered with
      ⟨stillDiscovered, notFound⟩ | ⟨before, way, later, finds, rfl, foundMore⟩
    · refine ⟨fun _ => ?_, ?_⟩
      · have again : second = first :=
          execute_again_of_same audits output makes wellNamed discovered written stillDiscovered
        rw [again]
        exact ⟨rfl, rfl, rfl⟩
      · intro otherPath otherFile way finds
        cases audits.path.symm.trans finds.searches
        cases output.symm.trans finds.writes
        exact absurd finds (notFound way)
    · refine ⟨fun notFound => absurd finds (notFound _ _ _), ?_⟩
      intro otherPath otherFile otherWay otherFinds
      cases audits.path.symm.trans otherFinds.searches
      cases output.symm.trans otherFinds.writes
      obtain rfl := finds.unique otherFinds
      refine ⟨policy.withParallel options.parallel, before, later, audits.policy_eq, discovered,
        foundMore, ?_⟩
      obtain ⟨exitCode, same_iff⟩ := execute_again_iff audits output makes wellNamed discovered
        (absent options file parsed output) foundMore
      simp only [Auditor.audit_withParallel]
      rw [same_iff, exitCode]
      exact AuditRun.ofPaths_insert_iff policy before later _ options.format
        options.failOnFindings

def emptyProgramTree : FileTree :=
  singleTree [("a.json", .file (some "[]"))]

theorem wellNamed_emptyProgramTree : emptyProgramTree.root.WellNamed := by
  refine Entry.wellNamed_directory (by decide) (List.forall_mem_singleton.mpr ⟨by decide, ?_⟩)
  exact Entry.wellNamed_directory (by decide)
    (List.forall_mem_singleton.mpr ⟨by decide, Entry.wellNamed_of_not_directory rfl⟩)

theorem run_again_emptyProgramTree :
    let apart := ["--path", "ir", "-O", "report.txt"]
    let below := ["--path", "ir", "-O", "ir/report.yaml"]
    (∃ first second, run emptyProgramTree apart = .ok first ∧ run first.2 apart = .ok second ∧
      second.1.exitCode = first.1.exitCode ∧ second.1.stdout = first.1.stdout ∧
      second.2 = first.2) ∧
    ∃ options first second,
      run emptyProgramTree below = .ok first ∧ run first.2 below = .ok second ∧
      FindsReport first.2 options "ir" "ir/report.yaml" ["report.yaml"] ∧
      discover first.2.look "ir" = .ok ["ir/a.json", "ir/report.yaml"] ∧
      second.1.exitCode = first.1.exitCode ∧ second.1.stdout = first.1.stdout ∧
      second.2.look "ir/report.yaml" = first.2.look "ir/report.yaml" := by
  intro apart below
  let options (file : String) : Options :=
    ⟨some "ir", none, some file, .text, false, false, false, 0, false⟩
  have apartParsed : Options.parse apart = .ok (options "report.txt") := by decide +kernel
  have belowParsed : Options.parse below = .ok (options "ir/report.yaml") := by decide +kernel
  have absent (words : List String) (file : String)
      (parsed : Options.parse words = .ok (options file))
      (nothing : emptyProgramTree.look.exists file = false) :
      ∀ options file, Options.parse words = .ok options →
        options.outputFile = some file → emptyProgramTree.look.exists file = false := by
    intro other _ parsedAs output
    cases parsed.symm.trans parsedAs
    cases output
    exact nothing
  obtain ⟨-, apartAgain⟩ := run_again emptyProgramTree wellNamed_emptyProgramTree apart
    (absent apart "report.txt" apartParsed (by decide +kernel))
  obtain ⟨-, belowAgain⟩ := run_again emptyProgramTree wellNamed_emptyProgramTree below
    (absent below "ir/report.yaml" belowParsed (by decide +kernel))
  constructor
  · obtain ⟨runs, runsAgain, same, -⟩ := apartAgain _ apartParsed
    refine ⟨_, _, runs, runsAgain, same ?_⟩
    intro path file way finds
    cases finds.searches
    cases finds.writes
    have outside : ["ir"] ++ way = ["report.txt"] := (finds.located rfl rfl rfl).2
    simp at outside
  · obtain ⟨runs, runsAgain, -, found⟩ := belowAgain _ belowParsed
    have finds : FindsReport (execute emptyProgramTree (options "ir/report.yaml")).2
        (options "ir/report.yaml") "ir" "ir/report.yaml" ["report.yaml"] := by
      refine ⟨rfl, rfl, ["ir"], _, by decide +kernel, rfl, ?_, by decide +kernel⟩
      rw [← Entry.mem_documents]
      decide +kernel
    obtain ⟨policy, before, later, chosen, -, -, same_iff⟩ := found _ _ _ finds
    obtain rfl : policy = .standard := Except.ok.inj (chosen.symm.trans rfl)
    refine ⟨_, _, _, runs, runsAgain, finds, by decide +kernel,
      same_iff.mpr (.inr ⟨⟨some "ir/report.yaml", []⟩, ?_, rfl, rfl, .inl rfl⟩)⟩
    decide +kernel

/-- The report of a run that finds nothing is empty, and an empty text is no JSON document. -/
theorem run_again_fails_emptyProgramTree :
    let words := ["--path", "ir", "-O", "ir/report.json"]
    emptyProgramTree.root.WellNamed ∧
      emptyProgramTree.look.exists "ir/report.json" = false ∧
      ∃ first second, run emptyProgramTree words = .ok first ∧ run first.2 words = .ok second ∧
        first.1.exitCode = 0 ∧ second.1.exitCode = 2 := by
  intro words
  have parsed : Options.parse words = .ok
      ⟨some "ir", none, some "ir/report.json", .text, false, false, false, 0, false⟩ := by
    decide +kernel
  refine ⟨wellNamed_emptyProgramTree, by decide +kernel, _, _, run_of_parse parsed _,
    run_of_parse parsed _, ?_, ?_⟩
  · decide +kernel
  · decide +kernel

end Command

end RsaAudit
