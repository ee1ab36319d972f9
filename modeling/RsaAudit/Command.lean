import RsaAudit.Files.Tree
import RsaAudit.Loading
import RsaAudit.Options
import RsaAudit.Text.Terminal

/-!
# The command

A run validates its options, loads the policy and the documents, audits the
programs that load, and writes the report.  Documents that do not load and
functions that cannot be judged are logged and show in the exit code; they do not
change the rest of the report.
-/

namespace RsaAudit

/-- Why options cannot be acted on. -/
inductive ArgumentError where
  | pathMissing (path : String)
  | pathInvalid (path : String)
  | configMissing (path : String)
  deriving DecidableEq

def ArgumentError.message : ArgumentError → String
  | .pathMissing path => "Path does not exist: " ++ path
  | .pathInvalid path => "Path is neither a file nor a directory: " ++ path
  | .configMissing path => "Config file does not exist: " ++ path

/-- A path to search has to name a file or a directory. -/
def validatePath (view : FileView) (path : String) : Except ArgumentError Unit :=
  match view path with
  | .error _ => .error (.pathMissing path)
  | .ok entry =>
      if entry.isFile || entry.isDirectory then .ok () else .error (.pathInvalid path)

/-- The path to search and the policy file have to be there. -/
def Options.validate (options : Options) (view : FileView) :
    Except ArgumentError Unit := do
  if let some path := options.path then validatePath view path
  if let some config := options.config then
    if !view.exists config then throw (.configMissing config)

/-- A problem that ends a run. -/
inductive Fatal where
  | arguments (cause : ArgumentError)
  | policy (path : String) (cause : PolicyError)
  | noPath
  | discovery (path : String) (cause : DiscoveryError)
  | output (path : String) (cause : FileError)
  deriving DecidableEq

namespace Fatal

def headline : Fatal → String
  | .arguments _ => "Invalid arguments"
  | .policy path _ => "Failed to load config: " ++ path
  | .noPath => "--path is required unless --list-rules is given"
  | .discovery path _ => "Failed to discover IR files under " ++ path
  | .output path cause => "failed to write file '" ++ path ++ "': " ++ cause.message

/-- The texts of what led to a problem, the outermost first. -/
def causes : Fatal → List String
  | .arguments cause => [cause.message]
  | .policy _ cause => [cause.message]
  | .noPath => []
  | .discovery _ cause => cause.texts
  | .output _ cause => [cause.message]

/-- A text after a margin, with its later lines as far in. -/
def indented (margin text : String) : String :=
  margin ++ String.ofList (text.toList.flatMap fun char =>
    if char = '\n' then '\n' :: List.replicate margin.length ' ' else [char])

/-- The causes of a problem, numbered if there are several. -/
def causeLines : List String → List String
  | [cause] => [indented "    " cause]
  | causes => causes.mapIdx fun index cause =>
      indented ("    " ++ Decimal.natText index ++ ": ") cause

def lines (fatal : Fatal) : List String :=
  ("Error: " ++ fatal.headline) ::
    if fatal.causes.isEmpty then []
    else "" :: "Caused by:" :: causeLines fatal.causes

end Fatal

/-- The rule table as text. -/
def ruleListing : String :=
  let line := fun (code text : String) =>
    "  " ++ code ++ String.ofList (List.replicate (20 - code.length) ' ') ++ " " ++ text
  let ruleLines := fun (rule : Rule) =>
    rule.symbol ::
      (rule.checks.map fun check => line check.code check.describe) ++
      rule.unconditional.toList.map fun remark => line remark.code remark.message
  String.join
    (((toolName ++ ": " ++ toolPurpose) :: Rule.table.flatMap ruleLines).map (· ++ "\n"))

/-- The programs and the load errors of a list of paths, each in order. -/
def loadAll (view : FileView) (paths : List String) :
    List Program × List (String × LoadError) :=
  let loaded := paths.map fun path => (path, Program.load view path)
  (loaded.filterMap fun (_, result) => result.toOption,
    loaded.filterMap fun (path, result) =>
      match result with
      | .ok _ => none
      | .error error => some (path, error))

/-- What an audit of the documents under a path has brought up. -/
structure AuditRun where
  programs : List Program
  loadErrors : List (String × LoadError)
  report : Report

namespace AuditRun

def start (view : FileView) (policy : Policy) (path : String) :
    Except Fatal AuditRun :=
  match discover view path with
  | .error cause => .error (.discovery path cause)
  | .ok paths =>
      let (programs, loadErrors) := loadAll view paths
      .ok ⟨programs, loadErrors, (Auditor.ofPolicy policy).auditAll programs⟩

/-- The report as text, with a newline at its end unless it is empty. -/
def rendered (run : AuditRun) (format : OutputFormat) : String :=
  let text := run.report.render run.programs.length format
  if text.isEmpty || text.toList.getLast? == some '\n' then text else text ++ "\n"

/-- The exit code: 2 if anything failed, else 1 if findings are to fail the run and
there are some, else 0. -/
def exitCode (run : AuditRun) (failOnFindings : Bool) : Nat :=
  if !run.loadErrors.isEmpty || run.report.hasFailures then 2
  else if failOnFindings && run.report.hasFindings then 1
  else 0

/-- The errors and warnings that an audit logs.  A verbose run also logs its
progress, and each line then tells the time; neither is kept here. -/
def log (run : AuditRun) (verbosity : Verbosity) : List String :=
  (run.loadErrors.map fun (path, error) =>
    "ERROR failed to load IR document file=" ++ path ++ " error=" ++ error.message) ++
  (if verbosity = .quiet then []
    else run.report.failures.map fun failure =>
      " WARN abandoning function analysis function=" ++ failure.function ++
        " error=" ++ failure.error) ++
  run.report.failures.map fun failure => "ERROR " ++ Terminal.encode failure.text

end AuditRun

/-- What a run shows to the outside. -/
structure Outcome where
  exitCode : Nat
  stdout : String
  /-- The errors and warnings of the log, without what a verbose run adds. -/
  log : List String

/-- A run up to the point where its report is written: the outcome if that
succeeds, and the file to write, if any, with its text. -/
structure Plan where
  outcome : Outcome
  output : Option (String × String)

def Outcome.ofFatal (log : List String) (fatal : Fatal) : Outcome :=
  ⟨1, "", log ++ fatal.lines⟩

namespace Command

def policy (view : FileView) (options : Options) : Except Fatal Policy :=
  match options.config with
  | none => .ok (Policy.standard.withParallel options.parallel)
  | some path =>
      match Policy.load view path with
      | .ok policy => .ok (policy.withParallel options.parallel)
      | .error cause => .error (.policy path cause)

def audit (view : FileView) (options : Options) : Except Fatal AuditRun := do
  if let .error cause := options.validate view then throw (.arguments cause)
  let some path := options.path | throw .noPath
  let policy ← policy view options
  AuditRun.start view policy path

/-- The run that options ask for, up to the point where its report is written. -/
def plan (view : FileView) (options : Options) : Plan :=
  if options.listRules then ⟨⟨0, ruleListing, []⟩, none⟩
  else
    match audit view options with
    | .error fatal => ⟨.ofFatal [] fatal, none⟩
    | .ok run =>
        let text := run.rendered options.format
        let outcome := fun stdout =>
          Outcome.mk (run.exitCode options.failOnFindings) stdout
            (run.log options.verbosity)
        match options.outputFile with
        | some path => ⟨outcome "", some (path, text)⟩
        | none => ⟨outcome text, none⟩

/-- Carry out on a file tree what options ask for: the outcome, and the tree that
is left. -/
def execute (tree : FileTree) (options : Options) : Outcome × FileTree :=
  let plan := plan tree.look options
  match plan.output with
  | none => (plan.outcome, tree)
  | some (path, text) =>
      match tree.write path text with
      | .ok after => (plan.outcome, after)
      | .error cause => (.ofFatal plan.outcome.log (.output path cause), tree)

/-- A whole run on a file tree, unless the command line is refused. -/
def run (tree : FileTree) (words : List String) :
    Except UsageError (Outcome × FileTree) :=
  (Options.parse words).map (execute tree)

end Command

end RsaAudit
