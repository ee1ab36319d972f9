import RsaAudit.Report.Rendering

/-!
# Command-line options

The words of a command line are read from left to right, and the first problem
counts.  The value of an option is looked at only when the next option comes or
the words are over; an unknown word before that is the first problem then.
-/

namespace RsaAudit

/-- What a command line asks for. -/
structure Options where
  path : Option String
  config : Option String
  outputFile : Option String
  format : OutputFormat
  parallel : Bool
  failOnFindings : Bool
  listRules : Bool
  /-- How often more log output was asked for, 255 at most. -/
  verbose : Nat
  quiet : Bool
  deriving DecidableEq

/-- Why a command line is refused. -/
inductive UsageError where
  | unknownArgument
  | invalidValue
  | tooManyValues
  | argumentConflict
  /-- The command line asks for help. -/
  | displayHelp
  | missingRequiredArgument
  deriving DecidableEq

/-- The exit code for a command line that is refused; it is no mistake to ask for
help. -/
def UsageError.exitCode : UsageError → Nat
  | .displayHelp => 0
  | _ => 2

/-- How much is logged. -/
inductive Verbosity where
  | quiet
  | normal
  | verbose
  | debug
  | trace
  deriving DecidableEq

def Options.verbosity (options : Options) : Verbosity :=
  if options.quiet then .quiet
  else
    match options.verbose with
    | 0 => .normal
    | 1 => .verbose
    | 2 => .debug
    | _ => .trace

namespace Options

/-- Options that take a value. -/
inductive Setting where
  | path
  | config
  | outputFile
  | format
  deriving DecidableEq

/-- Options that take none. -/
inductive Flag where
  | parallel
  | failOnFindings
  | listRules
  | verbose
  | quiet
  | help
  deriving DecidableEq

/-- Either kind of option. -/
inductive Switch where
  | setting (setting : Setting)
  | flag (flag : Flag)
  deriving DecidableEq

def longNames : List (String × Switch) := [
  ("path", .setting .path),
  ("config", .setting .config),
  ("output-file", .setting .outputFile),
  ("format", .setting .format),
  ("parallel", .flag .parallel),
  ("fail-on-findings", .flag .failOnFindings),
  ("list-rules", .flag .listRules),
  ("verbose", .flag .verbose),
  ("quiet", .flag .quiet),
  ("help", .flag .help)]

def shortNames : List (Char × Switch) := [
  ('O', .setting .outputFile),
  ('f', .setting .format),
  ('v', .flag .verbose),
  ('q', .flag .quiet),
  ('h', .flag .help)]

/-- The options while words are read. -/
structure Draft where
  path : Option String
  config : Option String
  outputFile : Option String
  format : Option OutputFormat
  parallel : Bool
  failOnFindings : Bool
  listRules : Bool
  verbose : Nat
  quiet : Bool
  /-- An option whose value has not been looked at, and the value if it came. -/
  pending : Option (Setting × Option String)
  /-- Whether a lone double dash has been met. -/
  escaped : Bool

namespace Draft

def start : Draft where
  path := none
  config := none
  outputFile := none
  format := none
  parallel := false
  failOnFindings := false
  listRules := false
  verbose := 0
  quiet := false
  pending := none
  escaped := false

def isSet (draft : Draft) : Setting → Bool
  | .path => draft.path.isSome
  | .config => draft.config.isSome
  | .outputFile => draft.outputFile.isSome
  | .format => draft.format.isSome

def format? (name : String) : Option OutputFormat :=
  if name = "text" then some .text
  else if name = "json" then some .json
  else none

/-- Give an option its value, once. -/
def assign (draft : Draft) (setting : Setting) (value : String) :
    Except UsageError Draft :=
  if draft.isSet setting then .error .argumentConflict
  else
    match setting with
    | .format =>
        match format? value with
        | some format => .ok { draft with format := some format }
        | none => .error .invalidValue
    | .path =>
        if value = "" then .error .invalidValue
        else .ok { draft with path := some value }
    | .config =>
        if value = "" then .error .invalidValue
        else .ok { draft with config := some value }
    | .outputFile =>
        if value = "" then .error .invalidValue
        else .ok { draft with outputFile := some value }

/-- Look at the value of the pending option. -/
def settle (draft : Draft) : Except UsageError Draft :=
  match draft.pending with
  | none => .ok draft
  | some (_, none) => .error .invalidValue
  | some (setting, some value) => { draft with pending := none }.assign setting value

/-- Set a flag; only the flag that asks for more log output may come again. -/
def raise (draft : Draft) (flag : Flag) : Except UsageError Draft := do
  let draft ← draft.settle
  match flag with
  | .help => throw .displayHelp
  | .verbose => return { draft with verbose := min 255 (draft.verbose + 1) }
  | .parallel =>
      if draft.parallel then throw .argumentConflict
      else return { draft with parallel := true }
  | .failOnFindings =>
      if draft.failOnFindings then throw .argumentConflict
      else return { draft with failOnFindings := true }
  | .listRules =>
      if draft.listRules then throw .argumentConflict
      else return { draft with listRules := true }
  | .quiet =>
      if draft.quiet then throw .argumentConflict
      else return { draft with quiet := true }

/-- An option with the value that stands in the same word, or with one to come. -/
def supply (draft : Draft) (setting : Setting) (attached : Option String) :
    Except UsageError Draft := do
  let draft ← draft.settle
  match attached with
  | some value => draft.assign setting value
  | none => return { draft with pending := some (setting, none) }

/-- A word that starts with two dashes, given what follows them. -/
def readLong (draft : Draft) (body : List Char) : Except UsageError Draft :=
  let name := String.ofList (body.takeWhile (· ≠ '='))
  let attached :=
    match body.dropWhile (· ≠ '=') with
    | [] => none
    | _ :: value => some (String.ofList value)
  match longNames.lookup name, attached with
  | none, _ => .error .unknownArgument
  | some (.flag _), some _ => .error .tooManyValues
  | some (.flag flag), none => draft.raise flag
  | some (.setting setting), attached => draft.supply setting attached

/-- The value in the rest of a word of one-letter options. -/
def shortValue : List Char → Option String
  | [] => none
  | '=' :: value => some (String.ofList value)
  | value => some (String.ofList value)

/-- A word of one-letter options, given what follows its dash. -/
def readShort (draft : Draft) : List Char → Except UsageError Draft
  | [] => .ok draft
  | letter :: rest =>
      match shortNames.lookup letter with
      | none => .error .unknownArgument
      | some (.flag flag) => do (← draft.raise flag).readShort rest
      | some (.setting setting) => draft.supply setting (shortValue rest)

/-- A word that is no option: the value of the pending option, or unknown. -/
def readPlain (draft : Draft) (word : String) : Except UsageError Draft :=
  match draft.pending with
  | some (setting, none) => .ok { draft with pending := some (setting, some word) }
  | _ => .error .unknownArgument

def readWord (draft : Draft) (word : String) : Except UsageError Draft :=
  if draft.escaped then .error .unknownArgument
  else
    match word.toList with
    | ['-', '-'] => .ok { draft with escaped := true }
    | '-' :: '-' :: body => draft.readLong body
    | ['-'] => draft.readPlain word
    | '-' :: letters => draft.readShort letters
    | _ => draft.readPlain word

def finish (draft : Draft) : Except UsageError Options := do
  let draft ← draft.settle
  if draft.path.isNone && !draft.listRules then throw .missingRequiredArgument
  return {
    path := draft.path
    config := draft.config
    outputFile := draft.outputFile
    format := draft.format.getD .text
    parallel := draft.parallel
    failOnFindings := draft.failOnFindings
    listRules := draft.listRules
    verbose := draft.verbose
    quiet := draft.quiet }

end Draft

def parse (words : List String) : Except UsageError Options := do
  (← words.foldlM Draft.readWord .start).finish

end Options

end RsaAudit
