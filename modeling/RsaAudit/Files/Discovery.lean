import RsaAudit.Files.Entry

/-!
# Finding documents

A path names one document, or a directory with documents somewhere below it.
Hidden entries and symbolic links below the directory are passed over; the
documents come in the order of their names, level by level.  Every directory on
the way is opened by its own path, and the first one that cannot be opened ends
the search.
-/

namespace RsaAudit

inductive DocumentFormat where
  | json
  | yaml
  deriving DecidableEq

namespace DocumentFormat

def ofExtension (extension : String) : Option DocumentFormat :=
  if extension = "json" then some .json
  else if extension = "yaml" ∨ extension = "yml" then some .yaml
  else none

/-- The format that the extension of a path tells. -/
def ofPath (path : String) : Option DocumentFormat :=
  (Path.extension? path).bind ofExtension

/-- The format that the extension of a name tells. -/
def ofName (name : String) : Option DocumentFormat :=
  (Path.extensionOf name).bind ofExtension

/-- The format that the last of some names tells. -/
def ofNames (names : List String) : Option DocumentFormat :=
  names.getLast?.bind ofName

end DocumentFormat

namespace Entry

/-- Put something with a name at its place among things in the order of names. -/
def placeByName {Part : Type} (named : String × Part) :
    List (String × Part) → List (String × Part)
  | [] => [named]
  | head :: tail =>
      if named.1 ≤ head.1 then named :: head :: tail
      else head :: placeByName named tail

/-- Named lists in the order of their names, put together. -/
def inOrder {Part : Type} (named : List (String × List Part)) : List Part :=
  (named.foldr placeByName []).flatMap Prod.snd

mutual

/-- What a search comes to below an entry, each with the names that lead to it: a
directory before what is in it, and nothing with a hidden name. -/
def visits : Entry → List (List String × Entry)
  | .directory children => inOrder (childVisits children)
  | _ => []

/-- What a search comes to at and below each of the entries of a directory. -/
def childVisits :
    List (String × Entry) → List (String × List (List String × Entry))
  | [] => []
  | (name, entry) :: rest =>
      let met :=
        if Path.isHidden name then []
        else ([name], entry) :: (visits entry).map (Prod.map (name :: ·) id)
      (name, met) :: childVisits rest

end

/-- The documents below an entry, each by the names that lead to it. -/
def documents (entry : Entry) : List (List String) :=
  (entry.visits.filter fun visit =>
    visit.2.isFile && (DocumentFormat.ofNames visit.1).isSome).map Prod.fst

/-- The directories below an entry that a search goes through, each by the names
that lead to it. -/
def directories (entry : Entry) : List (List String) :=
  (entry.visits.filter fun visit => visit.2.isDirectory).map Prod.fst

end Entry

/-- Why the documents under a path cannot be found. -/
inductive DiscoveryError where
  | notFound (path : String)
  | invalidPath (path : String)
  /-- A directory below the root of the search cannot be opened. -/
  | scanFailed (root directory : String) (cause : FileError)
  deriving DecidableEq

namespace DiscoveryError

/-- The texts of a discovery error and of what led to it, the outermost first. -/
def texts : DiscoveryError → List String
  | .notFound path => ["file not found: " ++ path]
  | .invalidPath path => ["path is neither file nor directory: " ++ path]
  | .scanFailed root directory cause =>
      let refusal := "IO error for operation on " ++ directory ++ ": " ++ cause.message
      ["failed to scan directory '" ++ root ++ "': " ++ refusal, refusal, cause.message]

def message (error : DiscoveryError) : String :=
  error.texts.headD ""

end DiscoveryError

/-- Why a search below a root ends at a directory, if it does. -/
def scanError? (view : FileView) (root : String) (names : List String) :
    Option DiscoveryError :=
  let directory := Path.joinAll root names
  (view.openError? directory).map (.scanFailed root directory)

/-- The documents under a path.  A path to a file is taken as it is. -/
def discover (view : FileView) (path : String) : Except DiscoveryError (List String) :=
  match view path with
  | .ok (.file _) => .ok [path]
  | .ok (.directory children) =>
      let entry := Entry.directory children
      match entry.directories.findSome? (scanError? view path) with
      | some error => .error error
      | none => .ok (entry.documents.map (Path.joinAll path))
  | .ok _ => .error (.invalidPath path)
  | .error _ => .error (.notFound path)

end RsaAudit
