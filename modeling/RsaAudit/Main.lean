import RsaAudit.Command

/-!
# The program

Everything is decided by `Command.plan`; here the files that a plan may look at
are read beforehand, and what it decides is carried out.
-/

namespace RsaAudit.Main

/-- The cause of a failed operation on a file. -/
def causeOf : IO.Error → FileError
  | .noFileOrDirectory .. => .notFound
  | .inappropriateType _ code _ => if code == 20 then .notDirectory else .isDirectory
  | .invalidArgument _ code _ => if code == 36 then .nameTooLong else .tooManyLinks
  | _ => .notFound

def attempt {Result : Type} (action : IO Result) : IO (Except FileError Result) := do
  try return .ok (← action)
  catch error => return .error (causeOf error)

/-- The entry under a path, with everything below it; links below it are kept as
links. -/
partial def readEntry (path : String) : IO Entry := do
  let place ← IO.FS.realPath path
  match (← place.metadata).type with
  | .dir =>
      let children ← (← place.readDir).toList.mapM fun child => do
        match (← child.path.symlinkMetadata).type with
        | .symlink => return (child.fileName, Entry.link "")
        | _ => return (child.fileName, ← readEntry child.path.toString)
      return .directory children
  | .file => return .file (String.fromUTF8? (← IO.FS.readBinFile place))
  | _ => return .special

/-- What a plan may look at: the given paths, and the directories and documents
below them, each as far as its own path leads there. -/
def readView (paths : List String) : IO FileView := do
  let found ← paths.mapM fun path => do
    match ← attempt (readEntry path) with
    | .error cause => return [(path, Except.error cause)]
    | .ok entry =>
        let below ← (entry.directories ++ entry.documents).mapM fun names => do
          let place := Path.joinAll path names
          match ← attempt (IO.FS.realPath place) with
          | .error cause => return (place, Except.error cause)
          | .ok _ => return (place, ((entry.at? names).map .ok).getD (.error .notFound))
        return (path, Except.ok entry) :: below
  return fun path => (found.flatten.lookup path).getD (.error .notFound)

/-- Print an outcome and give its exit code. -/
def report (outcome : Outcome) : IO UInt32 := do
  outcome.log.forM fun line => IO.eprintln line
  IO.print outcome.stdout
  return outcome.exitCode.toUInt32

def runOptions (options : Options) : IO UInt32 := do
  let view ← readView (options.path.toList ++ options.config.toList)
  let plan := Command.plan view options
  match plan.output with
  | none => report plan.outcome
  | some (path, text) =>
      match ← attempt (IO.FS.writeFile path text) with
      | .ok _ => report plan.outcome
      | .error cause => report (.ofFatal plan.outcome.log (.output path cause))

end RsaAudit.Main

def main (words : List String) : IO UInt32 :=
  match RsaAudit.Options.parse words with
  | .ok options => RsaAudit.Main.runOptions options
  | .error usage => return usage.exitCode.toUInt32
