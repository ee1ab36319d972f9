import RsaAudit.Files.Path

/-!
# Entries of a file system

An entry is a file, a directory with named entries, a symbolic link, or something
that is neither file nor directory.  Of a file only its text matters, if its
content is one.
-/

namespace RsaAudit

/-- An entry of a file system. -/
inductive Entry where
  /-- A regular file; `none` if its content is no valid UTF-8. -/
  | file (text : Option String)
  | directory (children : List (String × Entry))
  | link (target : String)
  /-- A device or the like; it reads as empty. -/
  | special
  deriving Inhabited

/-- Why a file cannot be read or written. -/
inductive FileError where
  | notFound
  | notDirectory
  | isDirectory
  | nameTooLong
  | tooManyLinks
  | zeroInName
  | notText
  deriving DecidableEq

def FileError.message : FileError → String
  | .notFound => "No such file or directory (os error 2)"
  | .notDirectory => "Not a directory (os error 20)"
  | .isDirectory => "Is a directory (os error 21)"
  | .nameTooLong => "File name too long (os error 36)"
  | .tooManyLinks => "Too many levels of symbolic links (os error 40)"
  | .zeroInName => "file name contained an unexpected NUL byte"
  | .notText => "stream did not contain valid UTF-8"

/-- What is found under a path, links followed. -/
abbrev FileView := String → Except FileError Entry

namespace Entry

def isFile : Entry → Bool
  | .file _ => true
  | _ => false

def isDirectory : Entry → Bool
  | .directory _ => true
  | _ => false

/-- The text of an entry. -/
def read : Entry → Except FileError String
  | .file (some text) => .ok text
  | .file none => .error .notText
  | .directory _ => .error .isDirectory
  | .link _ => .error .notFound
  | .special => .ok ""

/-- The entry at a location below another. -/
def at? : List String → Entry → Option Entry
  | [], entry => some entry
  | name :: rest, .directory children =>
      (children.lookup name).bind (at? rest)
  | _ :: _, _ => none

/-- The children with the entry of one name changed; a new name comes last. -/
def modifyChild (name : String) (change : Entry → Entry) :
    List (String × Entry) → List (String × Entry)
  | [] => [(name, change (.directory []))]
  | (other, entry) :: rest =>
      if other = name then (other, change entry) :: rest
      else (other, entry) :: modifyChild name change rest

/-- The entry with another one put at a location; directories on the way are made
where there are none. -/
def put (new : Entry) : List String → Entry → Entry
  | [], _ => new
  | name :: rest, .directory children =>
      .directory (modifyChild name (put new rest) children)
  | name :: rest, _ => .directory (modifyChild name (put new rest) [])

end Entry

def FileView.exists (view : FileView) (path : String) : Bool :=
  (view path).isOk

/-- Why the directory under a path cannot be opened, if it cannot. -/
def FileView.openError? (view : FileView) (path : String) : Option FileError :=
  match view path with
  | .ok (.directory _) => none
  | .ok _ => some .notDirectory
  | .error cause => some cause

end RsaAudit
