/-!
# Paths

A path is a text whose names are separated by slashes.  It is kept as it was
given, since it is shown that way.
-/

namespace RsaAudit.Path

/-- The pieces between slashes, the empty ones included. -/
def pieces : List Char → List (List Char)
  | [] => [[]]
  | char :: rest =>
      if char = '/' then [] :: pieces rest
      else
        match pieces rest with
        | [] => [[char]]
        | piece :: later => (char :: piece) :: later

/-- The names of a path; repeated slashes count as one. -/
def names (path : String) : List String :=
  ((pieces path.toList).filter (!·.isEmpty)).map String.ofList

def isAbsolute (path : String) : Bool :=
  path.toList.head? == some '/'

/-- Whether a path ends in a slash, so that it can only name a directory. -/
def endsInSlash (path : String) : Bool :=
  path.toList.getLast? == some '/'

/-- The number of bytes that a name may have. -/
def maxNameBytes : Nat := 255

/-- The number of bytes that a path may have. -/
def maxBytes : Nat := 4095

/-- The path of an entry of a directory. -/
def join (directory name : String) : String :=
  if endsInSlash directory then directory ++ name else directory ++ "/" ++ name

/-- The path of an entry further down. -/
def joinAll (directory : String) (components : List String) : String :=
  components.foldl join directory

/-- Whether entries with a name are passed over. -/
def isHidden (name : String) : Bool :=
  name.toList.head? == some '.'

/-- The part of a name after its last dot, unless that dot comes first. -/
def extensionOf (name : String) : Option String :=
  let reversed := name.toList.reverse
  match reversed.dropWhile (· ≠ '.') with
  | [] | [_] => none
  | _ => some (String.ofList (reversed.takeWhile (· ≠ '.')).reverse)

/-- The extension of the last name of a path. -/
def extension? (path : String) : Option String :=
  match ((names path).filter (· ≠ ".")).getLast? with
  | some name => if name = ".." then none else extensionOf name
  | none => none

end RsaAudit.Path
