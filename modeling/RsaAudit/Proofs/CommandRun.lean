import RsaAudit.Command
import RsaAudit.Proofs.AuditReport
import RsaAudit.Proofs.Files.Access
import RsaAudit.Proofs.Files.Growth

/-!
# What a run shows

A run that gets as far as an audit delivers one report: on the programs that load,
in the order in which their documents are found.  Documents that do not load leave
no trace in it; they only show in the exit code.  So a run on a tree that has grown
by documents which do not load delivers the same text.

A run does not get that far if a directory on the way to the documents cannot be
opened.  Then there is no report, whatever else there is to be found.
-/

namespace RsaAudit

theorem Program.load_congr {view other : FileView} {path : String}
    (same : other path = view path) : load other path = load view path := by
  rw [load, load, same]

def loadedPrograms (view : FileView) (paths : List String) : List Program :=
  paths.filterMap fun path => (Program.load view path).toOption

theorem loadAll_fst (view : FileView) (paths : List String) :
    (loadAll view paths).1 = loadedPrograms view paths := by
  rw [loadAll, loadedPrograms, List.filterMap_map]
  rfl

def AuditRun.ofPaths (view : FileView) (policy : Policy) (paths : List String) : AuditRun where
  programs := loadedPrograms view paths
  loadErrors := (loadAll view paths).2
  report := (Auditor.ofPolicy policy).auditAll (loadedPrograms view paths)

theorem isEmpty_loadErrors {view : FileView} {policy : Policy} {paths : List String} :
    (AuditRun.ofPaths view policy paths).loadErrors.isEmpty = false ↔
      ∃ path ∈ paths, ∃ error, Program.load view path = .error error := by
  have loaded_iff : (AuditRun.ofPaths view policy paths).loadErrors.isEmpty = true ↔
      ∀ path ∈ paths, ¬ ∃ error, Program.load view path = .error error := by
    simp only [AuditRun.ofPaths, loadAll, List.isEmpty_iff, List.filterMap_eq_nil_iff,
      List.forall_mem_map]
    refine forall₂_congr fun path _ => ?_
    cases Program.load view path <;> simp
  rw [← Bool.not_eq_true, loaded_iff]
  simp

/-- A text as it is written: with a newline at its end, unless it is empty. -/
def LineEnded (text written : String) : Prop :=
  ((text = "" ∨ ∃ front, text = front ++ "\n") → written = text) ∧
    (¬ (text = "" ∨ ∃ front, text = front ++ "\n") → written = text ++ "\n")

theorem AuditRun.lineEnded_rendered (run : AuditRun) (format : OutputFormat) :
    LineEnded (run.report.render run.programs.length format) (run.rendered format) := by
  rw [rendered]
  generalize run.report.render run.programs.length format = text
  have ended_iff : (text.isEmpty || text.toList.getLast? == some '\n') = true ↔
      text = "" ∨ ∃ front, text = front ++ "\n" := by
    rw [Bool.or_eq_true, String.isEmpty_iff, beq_iff_eq, List.getLast?_eq_some_iff]
    refine or_congr_right ⟨?_, ?_⟩
    · rintro ⟨front, chars⟩
      exact ⟨String.ofList front, String.toList_inj.mp (by simp [chars])⟩
    · rintro ⟨front, rfl⟩
      exact ⟨front.toList, by simp⟩
  refine ⟨fun ended => if_pos (ended_iff.mpr ended), fun unended => ?_⟩
  exact if_neg (mt ended_iff.mp unended)

/-- The exit code of a run, by whether something failed and whether something was
found that is to fail the run. -/
def ExitCode (failed found : Prop) (code : Nat) : Prop :=
  (failed → code = 2) ∧ (¬ failed → found → code = 1) ∧ (¬ failed → ¬ found → code = 0)

theorem AuditRun.exitCode_spec (run : AuditRun) (failOnFindings : Bool) :
    ExitCode (run.loadErrors.isEmpty = false ∨ run.report.failures ≠ [])
      (failOnFindings = true ∧ run.report.findings ≠ []) (run.exitCode failOnFindings) := by
  have failed_iff : (!run.loadErrors.isEmpty || run.report.hasFailures) = true ↔
      run.loadErrors.isEmpty = false ∨ run.report.failures ≠ [] := by
    simp [Report.hasFailures]
  have found_iff : (failOnFindings && run.report.hasFindings) = true ↔
      failOnFindings = true ∧ run.report.findings ≠ [] := by
    simp [Report.hasFindings]
  rw [exitCode, ← failed_iff, ← found_iff]
  refine ⟨fun failed => if_pos failed, fun passed found => ?_, fun passed clean => ?_⟩
  · rw [if_neg passed, if_pos found]
  · rw [if_neg passed, if_neg clean]

/-- A path is valid exactly if it can be searched, as far as the directories below it
can be opened. -/
theorem validatePath_eq_ok_iff {view : FileView} {path : String} :
    validatePath view path = .ok () ↔
      (∃ files, discover view path = .ok files) ∨
        ∃ directory cause, discover view path = .error (.scanFailed path directory cause) := by
  unfold validatePath
  cases found : view path with
  | error cause => simp [discover, found]
  | ok entry =>
      cases entry with
      | directory children =>
          refine iff_of_true rfl ?_
          by_cases opens : view.OpensBelow path (.directory children)
          · exact .inl ⟨_, discover_of_opensBelow found opens⟩
          · obtain ⟨way, cause, -, -, failed⟩ := discover_of_not_opensBelow found opens
            exact .inr ⟨_, cause, failed⟩
      | _ => simp [discover, found, Entry.isFile, Entry.isDirectory]

theorem Options.validate_eq_ok_iff {options : Options} {path : String} {view : FileView}
    (named : options.path = some path) :
    options.validate view = .ok () ↔
      validatePath view path = .ok () ∧
        ∀ file, options.config = some file → view.exists file = true := by
  rw [validate, named]
  dsimp only
  cases validatePath view path with
  | error cause => exact iff_of_false nofun nofun
  | ok _ =>
      rw [ok_bind]
      cases options.config with
      | none => simp [pure, Except.pure]
      | some file => cases present : view.exists file <;> simp [present, pure, Except.pure]

namespace FileTree.GrowsInto

variable {tree grown : FileTree} (growth : tree.GrowsInto grown)

include growth

theorem present {path : String} (present : tree.look.exists path = true) :
    grown.look.exists path = true := by
  unfold FileView.exists at present ⊢
  cases found : tree.look path with
  | error cause =>
      rw [found] at present
      cases present
  | ok entry =>
      cases entry with
      | directory children =>
          obtain ⟨more, stillFound⟩ := growth.look_directory found
          rw [stillFound]
          rfl
      | _ =>
          rw [growth.look rfl found]
          rfl

theorem loadPolicy {path : String} {policy : Policy}
    (loaded : Policy.load tree.look path = .ok policy) :
    Policy.load grown.look path = .ok policy := by
  have read {content : String} (found : tree.look path >>= Entry.read = .ok content) :
      grown.look path >>= Entry.read = .ok content := by
    obtain ⟨entry, here, text⟩ := bind_eq_ok_iff.mp found
    have noDirectory : entry.isDirectory = false := by
      cases entry with
      | directory children => cases text
      | _ => rfl
    exact bind_eq_ok_iff.mpr ⟨entry, growth.look noDirectory here, text⟩
  rw [Policy.load] at loaded ⊢
  cases found : tree.look path >>= Entry.read with
  | error cause =>
      rw [found] at loaded
      cases loaded
  | ok content =>
      rw [found] at loaded
      rw [read found]
      exact loaded

end FileTree.GrowsInto

namespace Command

theorem run_of_parse {words : List String} {options : Options}
    (parsed : Options.parse words = .ok options) (tree : FileTree) :
    run tree words = .ok (execute tree options) := by
  rw [run, parsed]
  rfl

/-- A command line asks for an audit that can be done on a tree: it names a path, the
path and the policy file are there, the policy loads and the output can be written. -/
structure Audits (tree : FileTree) (words : List String) (options : Options)
    (path : String) (policy : Policy) : Prop where
  parsed : Options.parse words = .ok options
  noListing : options.listRules = false
  path : options.path = some path
  valid : options.validate tree.look = .ok ()
  standard : options.config = none → policy = .standard
  loaded : ∀ file, options.config = some file → Policy.load tree.look file = .ok policy
  writable : ∀ file, options.outputFile = some file → ∃ after, tree.write file "" = .ok after

/-- A text is shown, or else written to the output file. -/
structure Delivers (tree : FileTree) (options : Options) (text : String)
    (result : Outcome × FileTree) : Prop where
  shown : options.outputFile = none → result.1.stdout = text ∧ result.2 = tree
  written : ∀ file, options.outputFile = some file →
    result.1.stdout = "" ∧ tree.write file text = .ok result.2 ∧
      (tree.look file ≠ .ok .special → result.2.look file = .ok (.file (some text)))

namespace Audits

variable {tree : FileTree} {words : List String} {options : Options} {path : String}
  {policy : Policy}

theorem run_eq (audits : Audits tree words options path policy) :
    run tree words = .ok (execute tree options) :=
  run_of_parse audits.parsed tree

theorem policy_eq (audits : Audits tree words options path policy) :
    Command.policy tree.look options = .ok (policy.withParallel options.parallel) := by
  rw [Command.policy]
  cases configured : options.config with
  | none => rw [audits.standard configured]
  | some file =>
      dsimp only
      rw [audits.loaded file configured]

theorem audit_eq (audits : Audits tree words options path policy) {paths : List String}
    (discovered : discover tree.look path = .ok paths) :
    audit tree.look options = .ok (.ofPaths tree.look policy paths) := by
  unfold audit
  rw [audits.valid, audits.path, audits.policy_eq]
  dsimp only
  unfold AuditRun.start AuditRun.ofPaths
  rw [discovered, ← loadAll_fst, ← Auditor.auditAll_withParallel policy options.parallel]
  rfl

theorem exists_write (audits : Audits tree words options path policy) {file : String}
    (output : options.outputFile = some file) (text : String) :
    ∃ after, tree.write file text = .ok after := by
  obtain ⟨empty, written⟩ := audits.writable file output
  obtain ⟨location, resolved, noDirectory, -⟩ := FileTree.write_cases written
  exact FileTree.exists_write resolved noDirectory text

/-- A run delivers the report of its audit. -/
theorem delivers (audits : Audits tree words options path policy) {audited : AuditRun}
    (done : audit tree.look options = .ok audited) :
    Delivers tree options (audited.rendered options.format) (execute tree options) ∧
      (execute tree options).1.exitCode = audited.exitCode options.failOnFindings := by
  rw [execute, plan, audits.noListing, done]
  cases output : options.outputFile with
  | none => exact ⟨⟨fun _ => ⟨rfl, rfl⟩, by simp [output]⟩, rfl⟩
  | some file =>
      obtain ⟨after, written⟩ := audits.exists_write output (audited.rendered options.format)
      have found := FileTree.look_of_write written
      simp only [Bool.false_eq_true, if_false, written]
      refine ⟨⟨?_, ?_⟩, trivial⟩
      · intro noOutput
        cases output.symm.trans noOutput
      · intro other same
        cases output.symm.trans same
        exact ⟨rfl, written, found⟩

theorem audit_of_error (audits : Audits tree words options path policy)
    {error : DiscoveryError} (failed : discover tree.look path = .error error) :
    audit tree.look options = .error (.discovery path error) := by
  unfold audit
  rw [audits.valid, audits.path, audits.policy_eq]
  dsimp only
  unfold AuditRun.start
  rw [failed]
  rfl

/-- A search that fails ends the run. -/
theorem execute_of_error (audits : Audits tree words options path policy)
    {error : DiscoveryError} (failed : discover tree.look path = .error error) :
    execute tree options = (.ofFatal [] (.discovery path error), tree) := by
  rw [execute, plan, audits.noListing, audits.audit_of_error failed]
  rfl

theorem eq_scanFailed_of_error (audits : Audits tree words options path policy)
    {error : DiscoveryError} (failed : discover tree.look path = .error error) :
    ∃ directory cause, error = .scanFailed path directory cause := by
  have valid := ((Options.validate_eq_ok_iff audits.path).mp audits.valid).1
  rcases validatePath_eq_ok_iff.mp valid with ⟨files, found⟩ | ⟨directory, cause, scanFailed⟩
  · cases failed.symm.trans found
  · cases failed.symm.trans scanFailed
    exact ⟨directory, cause, rfl⟩

/-- An audit that is done has found its documents. -/
theorem exists_of_audit (audits : Audits tree words options path policy) {audited : AuditRun}
    (done : audit tree.look options = .ok audited) :
    ∃ paths, discover tree.look path = .ok paths ∧
      audited = .ofPaths tree.look policy paths := by
  cases found : discover tree.look path with
  | error error =>
      rw [audits.audit_of_error found] at done
      cases done
  | ok paths => exact ⟨paths, rfl, Except.ok.inj (done.symm.trans (audits.audit_eq found))⟩

theorem of_growsInto {grown : FileTree} (audits : Audits tree words options path policy)
    (growth : tree.GrowsInto grown) {paths : List String}
    (discovered : discover grown.look path = .ok paths)
    (writable : ∀ file, options.outputFile = some file →
      ∃ after, grown.write file "" = .ok after) :
    Audits grown words options path policy where
  parsed := audits.parsed
  noListing := audits.noListing
  path := audits.path
  valid := by
    rw [Options.validate_eq_ok_iff audits.path]
    obtain ⟨-, present⟩ := (Options.validate_eq_ok_iff audits.path).mp audits.valid
    refine ⟨validatePath_eq_ok_iff.mpr (.inl ⟨paths, discovered⟩), fun file configured => ?_⟩
    exact growth.present (present file configured)
  standard := audits.standard
  loaded := by
    intro file configured
    exact growth.loadPolicy (audits.loaded file configured)
  writable := writable

end Audits

/-- Documents that do not load make no difference to the programs. -/
theorem loadedPrograms_of_growsInto {tree grown : FileTree} {path : String}
    {paths others : List String} (growth : tree.GrowsInto grown)
    (treeNamed : tree.root.WellNamed) (grownNamed : grown.root.WellNamed)
    (discovered : discover tree.look path = .ok paths)
    (grownDiscovered : discover grown.look path = .ok others)
    (failing : ∀ file ∈ others, file ∉ paths →
      ∃ error, Program.load grown.look file = .error error) :
    loadedPrograms grown.look others = loadedPrograms tree.look paths := by
  rcases discover_eq_ok_iff.mp discovered with ⟨text, here, rfl⟩ | ⟨children, here, -, rfl⟩
  · have there := growth.look rfl here
    obtain rfl : others = [path] := by
      rw [discover, there] at grownDiscovered
      exact (Except.ok.inj grownDiscovered).symm
    refine List.filterMap_congr fun file listed => ?_
    rw [List.mem_singleton.mp listed, Program.load_congr (there.trans here.symm)]
  · obtain ⟨more, there⟩ := growth.look_directory here
    obtain rfl : others = (Entry.directory more).documents.map (Path.joinAll path) := by
      rcases discover_eq_ok_iff.mp grownDiscovered with ⟨text, found, -⟩ | ⟨other, found, -, same⟩
      · cases there.symm.trans found
      · cases there.symm.trans found
        exact same
    have areNames {root : FileTree} {inner : List (String × Entry)} {way : List String}
        (named : root.root.WellNamed) (found : root.look path = .ok (.directory inner))
        (listed : way ∈ (Entry.directory inner).documents) : ∀ name ∈ way, Path.IsName name := by
      obtain ⟨text, shows⟩ := (Entry.mem_documents.mp listed).shows
      exact (FileTree.GrowsInto.wellNamed_of_look named found).names shows.reached
    rw [loadedPrograms, loadedPrograms, List.filterMap_map, List.filterMap_map,
      ← growth.filter_documents treeNamed grownNamed here there, List.filterMap_filter]
    refine List.filterMap_congr fun way member => ?_
    -- An old document is the same file as before, and a new one gives no program.
    by_cases old : way ∈ (Entry.directory children).documents
    · have same := growth.look_document treeNamed grownNamed here there
        (Entry.mem_documents.mp old)
      simp [old, Program.load_congr same]
    · have isNew : Path.joinAll path way ∉
          (Entry.directory children).documents.map (Path.joinAll path) := by
        intro listed
        obtain ⟨other, inOld, same⟩ := List.mem_map.mp listed
        have sameWay := Path.joinAll_injective (areNames treeNamed here inOld)
          (areNames grownNamed there member) same
        exact old (sameWay ▸ inOld)
      obtain ⟨error, failed⟩ := failing _ (List.mem_map_of_mem member) isNew
      simp [old, failed, Except.toOption]

/-- A run that comes to an audit delivers the report on the programs that load, in the
order in which their documents are found, with a newline at its end unless it is
empty.  Its exit code is 2 if a document does not load or a function cannot be judged,
otherwise 1 if there are findings and these are to fail the run, and otherwise 0.
When the tree grows by further documents that do not load, in old directories or in new
ones, the run delivers the same text and exits with 2.

The one thing that can come in between is a directory that cannot be opened: then the
exit code is 1, and nothing is shown or written. -/
theorem run_delivers {tree : FileTree} {words : List String} {options : Options}
    {path : String} {policy : Policy} (audits : Audits tree words options path policy) :
    let result := execute tree options
    run tree words = .ok result ∧
      (∀ error, discover tree.look path = .error error →
        (∃ directory cause, error = .scanFailed path directory cause) ∧
          result.1.exitCode = 1 ∧ result.1.stdout = "" ∧ result.2 = tree) ∧
      ∀ paths, discover tree.look path = .ok paths →
        let programs := loadedPrograms tree.look paths
        let report := (Auditor.ofPolicy policy).auditAll programs
        ∃ text, LineEnded (report.render programs.length options.format) text ∧
          Delivers tree options text result ∧
          ExitCode
            ((∃ file ∈ paths, ∃ error, Program.load tree.look file = .error error) ∨
              report.failures ≠ [])
            (options.failOnFindings = true ∧ report.findings ≠ [])
            result.1.exitCode ∧
          ∀ (grown : FileTree) (others : List String),
            tree.GrowsInto grown → tree.root.WellNamed → grown.root.WellNamed →
            (∀ file, options.outputFile = some file →
              ∃ after, grown.write file "" = .ok after) →
            discover grown.look path = .ok others →
            (∃ file ∈ others, file ∉ paths) →
            (∀ file ∈ others, file ∉ paths →
              ∃ error, Program.load grown.look file = .error error) →
            run grown words = .ok (execute grown options) ∧
              Delivers grown options text (execute grown options) ∧
              (execute grown options).1.exitCode = 2 := by
  intro result
  refine ⟨audits.run_eq, ?_, ?_⟩
  · intro error failed
    have ended : result = _ := audits.execute_of_error failed
    rw [ended]
    exact ⟨audits.eq_scanFailed_of_error failed, rfl, rfl, rfl⟩
  · intro paths discovered programs report
    obtain ⟨delivers, code⟩ := audits.delivers (audits.audit_eq discovered)
    refine ⟨_, AuditRun.lineEnded_rendered (.ofPaths tree.look policy paths) _, delivers, ?_, ?_⟩
    · rw [code, ← isEmpty_loadErrors]
      exact AuditRun.exitCode_spec (.ofPaths tree.look policy paths) _
    · intro grown others growth treeNamed grownNamed writable grownDiscovered
        ⟨file, listed, isNew⟩ failing
      have samePrograms := loadedPrograms_of_growsInto growth treeNamed grownNamed discovered
        grownDiscovered failing
      have grownAudits := audits.of_growsInto growth grownDiscovered writable
      obtain ⟨grownDelivers, grownCode⟩ :=
        grownAudits.delivers (grownAudits.audit_eq grownDiscovered)
      refine ⟨grownAudits.run_eq, ?_, ?_⟩
      · rw [AuditRun.rendered, AuditRun.ofPaths, samePrograms] at grownDelivers
        exact grownDelivers
      · rw [grownCode]
        refine (AuditRun.exitCode_spec _ _).1 (.inl (isEmpty_loadErrors.mpr ?_))
        exact ⟨file, listed, failing file listed isNew⟩

/-- A document with a key of 1024 bits that is made from nil. -/
def weakKeyText : String :=
  "[null,[[\"main\",[[[[\"call\",\"crypto/rsa.GenerateKey\",[[\"constant\",[\"nil\",null]]," ++
    "[\"constant\",[\"int\",1024]]],[\"main.go\",1,1]]]]]]]]"

def weakKeyTree : FileTree :=
  singleTree [("b.json", .file (some weakKeyText))]

/-- The same tree with an unfinished document in a new directory. -/
def brokenTree : FileTree :=
  weakKeyTree.put (["ir"] ++ ["a"]) (.directory [("c.json", .file (some "["))])

theorem run_delivers_weakKeyTree :
    let words := ["--path", "ir", "--fail-on-findings", "-O", "report.txt"]
    ∃ options text,
      Audits weakKeyTree words options "ir" .standard ∧
        weakKeyTree.GrowsInto brokenTree ∧
        run weakKeyTree words = .ok (execute weakKeyTree options) ∧
        Delivers weakKeyTree options text (execute weakKeyTree options) ∧
        (execute weakKeyTree options).1.exitCode = 1 ∧
        run brokenTree words = .ok (execute brokenTree options) ∧
        Delivers brokenTree options text (execute brokenTree options) ∧
        (execute brokenTree options).1.exitCode = 2 := by
  intro words
  let options : Options :=
    ⟨some "ir", none, some "report.txt", .text, false, true, false, 0, false⟩
  have audits : Audits weakKeyTree words options "ir" .standard :=
    { parsed := by decide +kernel
      noListing := rfl
      path := rfl
      valid := by decide +kernel
      standard := fun _ => rfl
      loaded := nofun
      writable := by
        intro file output
        cases output
        exact ⟨_, rfl⟩ }
  have growth : weakKeyTree.GrowsInto brokenTree :=
    FileTree.growsInto_put rfl rfl
      (Entry.linkless_directory (List.forall_mem_singleton.mpr (Entry.linkless_file _)))
  have file (text : Option String) : (Entry.file text).WellNamed :=
    Entry.wellNamed_of_not_directory rfl
  have treeNamed : weakKeyTree.root.WellNamed := by
    refine Entry.wellNamed_directory (by decide) (List.forall_mem_singleton.mpr ⟨by decide, ?_⟩)
    exact Entry.wellNamed_directory (by decide)
      (List.forall_mem_singleton.mpr ⟨by decide, file _⟩)
  have grownNamed : brokenTree.root.WellNamed := by
    refine Entry.wellNamed_directory (by decide) (List.forall_mem_singleton.mpr ⟨by decide, ?_⟩)
    refine Entry.wellNamed_directory (by decide) ?_
    refine List.forall_mem_cons.mpr
      ⟨⟨by decide, file _⟩, List.forall_mem_singleton.mpr ⟨by decide, ?_⟩⟩
    exact Entry.wellNamed_directory (by decide)
      (List.forall_mem_singleton.mpr ⟨by decide, file _⟩)
  have discovered : discover weakKeyTree.look "ir" = .ok ["ir/b.json"] := by decide +kernel
  have grownDiscovered : discover brokenTree.look "ir" = .ok ["ir/a/c.json", "ir/b.json"] := by
    decide +kernel
  have unfinished : Program.load brokenTree.look "ir/a/c.json" =
      .error (.unparsable "ir/a/c.json" .malformed) := by
    decide +kernel
  obtain ⟨runs, -, succeeds⟩ := run_delivers audits
  obtain ⟨text, -, delivers, -, grows⟩ := succeeds _ discovered
  have writable : ∀ file, options.outputFile = some file →
      ∃ after, brokenTree.write file "" = .ok after := by
    intro file output
    cases output
    exact ⟨_, rfl⟩
  obtain ⟨brokenRuns, brokenDelivers, brokenCode⟩ :=
    grows brokenTree _ growth treeNamed grownNamed writable grownDiscovered
      ⟨"ir/a/c.json", by decide, by decide⟩
      (by
        intro file listed isNew
        rcases List.mem_cons.mp listed with rfl | old
        · exact ⟨_, unfinished⟩
        · exact absurd old isNew)
  exact ⟨options, text, audits, growth, runs, delivers, by decide +kernel, brokenRuns,
    brokenDelivers, brokenCode⟩

end Command

/-! ## A directory that cannot be opened -/

theorem Options.parse_path {path : String} {first : Char} {rest : List Char}
    (chars : path.toList = first :: rest) (noDash : first ≠ '-') :
    parse ["--path", path] =
      .ok ⟨some path, none, none, .text, false, false, false, 0, false⟩ := by
  have nonempty : path ≠ "" := by
    rintro rfl
    cases chars
  have asked : Draft.start.readWord "--path" =
      .ok { Draft.start with pending := some (.path, none) } := rfl
  have given : Draft.readWord { Draft.start with pending := some (.path, none) } path =
      .ok { Draft.start with pending := some (.path, some path) } := by
    simp [Draft.readWord, Draft.start, Draft.readPlain, chars, noDash]
  rw [parse, List.foldlM_cons, asked, ok_bind, List.foldlM_cons, given, ok_bind]
  simp [Draft.finish, Draft.settle, Draft.assign, Draft.isSet, Draft.start, nonempty, pure,
    Except.pure, bind, Except.bind]

namespace Command

theorem audits_slashedPath (children : List (String × Entry)) {count : Nat}
    (fits : count + 2 ≤ Path.maxBytes) :
    Audits (singleTree children) ["--path", slashedPath count]
      ⟨some (slashedPath count), none, none, .text, false, false, false, 0, false⟩
      (slashedPath count) .standard where
  parsed := Options.parse_path (toList_slashedPath count) (by decide)
  noListing := rfl
  path := rfl
  valid := by
    rw [Options.validate_eq_ok_iff rfl, validatePath, look_slashedPath children fits]
    exact ⟨rfl, nofun⟩
  standard _ := rfl
  loaded := nofun
  writable := nofun

/-- A tree with a document and an empty directory. -/
def nestedTree : FileTree :=
  singleTree [("a.json", .file (some "[]")), ("subfolder", .directory [])]

/-- A run that gets as far as its search and no further: the path of the directory has four
thousand and eighty-eight bytes, and that of the directory in it has nine more.  No
findings are to fail the run, and still its exit code is 1. -/
theorem run_fails_nestedTree :
    let words := ["--path", slashedPath 4086]
    ∃ options outcome after,
      Audits nestedTree words options (slashedPath 4086) .standard ∧
        options.failOnFindings = false ∧
        run nestedTree words = .ok (outcome, after) ∧ outcome.exitCode = 1 := by
  have storable : nestedTree.root.Storable := by
    refine storable_singleTree (Entry.storable_directory (by decide) ?_)
    rw [List.forall_mem_cons, List.forall_mem_singleton]
    refine ⟨⟨by decide, by decide, Entry.storable_of_not_directory rfl⟩, by decide, by decide, ?_⟩
    exact Entry.storable_directory List.nodup_nil (List.forall_mem_nil _)
  have fits : 4086 + 2 ≤ Path.maxBytes := by decide
  have directory := look_slashedPath
    [("a.json", .file (some "[]")), ("subfolder", .directory [])] fits
  have holds : (Entry.directory [("a.json", .file (some "[]")),
      ("subfolder", .directory [])]).HoldsDirectory ["subfolder"] := by
    rw [← Entry.mem_directories]
    decide +kernel
  have long : Path.maxBytes < (Path.joinAll (slashedPath 4086) ["subfolder"]).utf8ByteSize :=
    Nat.lt_of_lt_of_le (by decide) (le_utf8ByteSize_slashedPath 4086 "subfolder")
  have closed : ¬ nestedTree.look.OpensBelow (slashedPath 4086) (.directory
      [("a.json", .file (some "[]")), ("subfolder", .directory [])]) := by
    intro opens
    have opened := FileView.openError?_eq_none_iff.mpr (opens _ holds)
    rw [(FileTree.openError?_eq_some_iff storable directory holds).mpr ⟨long, rfl⟩] at opened
    cases opened
  obtain ⟨way, cause, -, -, failed⟩ := discover_of_not_opensBelow directory closed
  have audits := audits_slashedPath
    [("a.json", .file (some "[]")), ("subfolder", .directory [])] fits
  have ended := audits.run_eq
  rw [audits.execute_of_error failed] at ended
  exact ⟨_, _, _, audits, rfl, ended, rfl⟩

end Command

end RsaAudit
