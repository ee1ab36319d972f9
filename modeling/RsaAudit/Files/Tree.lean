import RsaAudit.Files.Entry

/-!
# File trees

A file tree is a root directory and a working directory.  A path is resolved name
by name, and a symbolic link on the way is replaced by its target.  A path that
ends in a slash leads to a directory; no file can be made under it.
-/

namespace RsaAudit

/-- A file system as a value. -/
structure FileTree where
  root : Entry
  /-- The names that lead from the root to the working directory. -/
  workingDirectory : List String

/-- What is left of a way: the names to go, and whether a slash comes last. -/
structure Route where
  names : List String
  slash : Bool

def Route.ofPath (path : String) : Route :=
  ⟨Path.names path, Path.endsInSlash path⟩

/-- What a path is resolved for: something that is there, or a file to be made if
it is not. -/
inductive Purpose where
  | find
  | create
  deriving DecidableEq

namespace FileTree

/-- The number of symbolic links that are followed for one path. -/
def maxLinks : Nat := 40

/-- The end of a way: after a slash there has to be a directory. -/
def arrive (root : Entry) (location : List String) (slash : Bool) :
    Except FileError (List String) :=
  if slash then
    match root.at? location with
    | some (.directory _) => .ok location
    | some _ => .error .notDirectory
    | none => .error .notFound
  else .ok location

/-- The location that names lead to, from a location, where `slash` tells whether
a slash comes last.  Only at the last name may nothing be there.  From a link on,
`follow` goes the rest of the way. -/
def walkNames (root : Entry) (purpose : Purpose) (slash : Bool)
    (follow : List String → Route → Except FileError (List String)) :
    List String → List String → Except FileError (List String)
  | location, [] => arrive root location slash
  | location, name :: rest =>
      match root.at? location with
      | some (.directory children) =>
          if name = "." then walkNames root purpose slash follow location rest
          else if name = ".." then
            walkNames root purpose slash follow location.dropLast rest
          else if rest = [] ∧ slash ∧ purpose = .create then .error .isDirectory
          else if Path.maxNameBytes < name.utf8ByteSize then .error .nameTooLong
          else
            match children.lookup name with
            | none =>
                if rest.isEmpty then arrive root (location ++ [name]) slash
                else .error .notFound
            | some (.link target) =>
                follow (if Path.isAbsolute target then [] else location)
                  { names := Path.names target ++ rest
                    slash := slash || (rest.isEmpty && Path.endsInSlash target) }
            | some _ => walkNames root purpose slash follow (location ++ [name]) rest
      | some _ => .error .notDirectory
      | none => .error .notFound

/-- The location that a route leads to, following at most `links` links. -/
def walk (root : Entry) (purpose : Purpose) :
    (links : Nat) → List String → Route → Except FileError (List String)
  | 0, location, route =>
      walkNames root purpose route.slash (fun _ _ => .error .tooManyLinks) location
        route.names
  | links + 1, location, route =>
      walkNames root purpose route.slash (walk root purpose links) location route.names

def origin (tree : FileTree) (path : String) : List String :=
  if Path.isAbsolute path then [] else tree.workingDirectory

/-- The location that a path leads to. -/
def resolve (tree : FileTree) (purpose : Purpose) (path : String) :
    Except FileError (List String) :=
  if path = "" then .error .notFound
  else if path.toList.contains '\x00' then .error .zeroInName
  else if Path.maxBytes < path.utf8ByteSize then .error .nameTooLong
  else walk tree.root purpose maxLinks (tree.origin path) (.ofPath path)

/-- The entry under a path, links followed. -/
def look (tree : FileTree) : FileView := fun path => do
  let location ← tree.resolve .find path
  match tree.root.at? location with
  | some entry => .ok entry
  | none => .error .notFound

def put (tree : FileTree) (location : List String) (entry : Entry) : FileTree :=
  { tree with root := Entry.put entry location tree.root }

/-- The tree after a file has been written to a path; content that is no text is
`none`. -/
def store (tree : FileTree) (path : String) (content : Option String) :
    Except FileError FileTree := do
  let location ← tree.resolve .create path
  match tree.root.at? location with
  | some (.directory _) => throw .isDirectory
  | some .special => return tree
  | some (.file _) | some (.link _) | none => return tree.put location (.file content)

/-- The tree after a text has been written to a path. -/
def write (tree : FileTree) (path text : String) : Except FileError FileTree :=
  tree.store path (some text)

/-- The tree with a directory in another, made if there is nothing of its name. -/
def makeDirectoryIn (tree : FileTree) (location : List String) (name : String) :
    Except FileError (FileTree × List String) := do
  let place ← walk tree.root .find maxLinks location ⟨[name], false⟩
  match tree.root.at? place with
  | some (.directory _) => return (tree, place)
  | some _ => throw .notDirectory
  | none => return (tree.put place (.directory []), place)

/-- The tree with the directories that names lead through, and the location of the
last one. -/
def makeDirectories (tree : FileTree) (location : List String) (names : List String) :
    Except FileError (FileTree × List String) :=
  names.foldlM (fun (tree, location) name => tree.makeDirectoryIn location name)
    (tree, location)

/-- The tree with an entry under a path, in directories that are made where there
are none.  A file goes where a link of its name leads to. -/
def add (tree : FileTree) (path : String) (entry : Entry) :
    Except FileError FileTree := do
  match (Path.names path).reverse with
  | [] => return tree
  | name :: outer =>
      let (tree, location) ← tree.makeDirectories (tree.origin path) outer.reverse
      match entry with
      | .file content => tree.store path content
      | .directory [] => return (← tree.makeDirectoryIn location name).1
      | _ => return tree.put (location ++ [name]) entry

end FileTree

end RsaAudit
