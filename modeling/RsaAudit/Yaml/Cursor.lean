/-!
# Places in a YAML text

A text is read from its front.  A cursor holds what is left of it, together with
the place reached, since indentation and the extent of keys depend on lines and
columns.
-/

namespace RsaAudit.Yaml

/-- Characters that end a line, once all ways to write a newline are one. -/
def isBreak (char : Char) : Bool :=
  char == '\n' || char == '\u2028' || char == '\u2029'

def isBlank (char : Char) : Bool :=
  char == ' ' || char == '\t'

/-- Characters that separate. -/
def isSpacing (char : Char) : Bool :=
  isBlank char || isBreak char

/-- Characters that structure flow collections. -/
def isFlowIndicator (char : Char) : Bool :=
  [',', '[', ']', '\x7b', '\x7d'].contains char

/-- Characters of names: letters, digits, underscore and hyphen. -/
def isNameChar (char : Char) : Bool :=
  char.isAlphanum || char == '_' || char == '-'

/-- Characters that a text may hold. -/
def isAdmissible (char : Char) : Bool :=
  let code := char.toNat
  code == 0x09 || code == 0x0A || code == 0x0D || (0x20 ≤ code && code ≤ 0x7E) ||
    code == 0x85 || (0xA0 ≤ code && code ≤ 0xFFFD) || 0x10000 ≤ code

def byteOrderMark : Char := '\ufeff'

/-- The number of bytes that are taken in at a time. -/
def portionBytes : Nat := 16384

/-- The portions of a text before the first one with a character that it may not
hold, given the current portion, last character first, and the bytes left in it. -/
def soundPortions (portion : List Char) (room : Nat) : List Char → List Char
  | [] => portion.reverse
  | char :: rest =>
      let size := char.utf8Size
      if room < size then
        portion.reverse ++
          if isAdmissible char then soundPortions [char] (portionBytes - size) rest
          else []
      else if isAdmissible char then soundPortions (char :: portion) (room - size) rest
      else []

/-- A text with every newline written as a single line feed. -/
def unifyBreaks : List Char → List Char
  | '\r' :: '\n' :: rest => '\n' :: unifyBreaks rest
  | '\r' :: rest => '\n' :: unifyBreaks rest
  | '\x85' :: rest => '\n' :: unifyBreaks rest
  | char :: rest => char :: unifyBreaks rest
  | [] => []

/-- Whether what follows is empty or starts with a separator. -/
def separated : List Char → Bool
  | [] => true
  | char :: _ => isSpacing char

/-- A place in a text, and the text after it. -/
structure Cursor where
  rest : List Char
  /-- The number of bytes before the place. -/
  index : Nat
  line : Nat
  column : Nat

namespace Cursor

def ofChars (chars : List Char) : Cursor := ⟨chars, 0, 0, 0⟩

def skip (cursor : Cursor) : Cursor :=
  match cursor.rest with
  | [] => cursor
  | char :: rest =>
      let index := cursor.index + char.utf8Size
      if isBreak char then ⟨rest, index, cursor.line + 1, 0⟩
      else ⟨rest, index, cursor.line, cursor.column + 1⟩

def advance (cursor : Cursor) : Nat → Cursor
  | 0 => cursor
  | count + 1 => cursor.skip.advance count

/-- The start of the next line, unless the place starts a line. -/
def breakLine (cursor : Cursor) : Cursor :=
  if cursor.column = 0 then cursor
  else { cursor with line := cursor.line + 1, column := 0 }

/-- The longest run of characters of a kind. -/
def run (cursor : Cursor) (kind : Char → Bool) : List Char :=
  cursor.rest.takeWhile kind

def skipRun (cursor : Cursor) (kind : Char → Bool) : Cursor :=
  cursor.advance (cursor.run kind).length

/-- The place after blanks and a comment. -/
def skipBlanks (cursor : Cursor) : Cursor :=
  let cursor := cursor.skipRun isBlank
  if cursor.rest.head? == some '#' then cursor.skipRun (!isBreak ·) else cursor

/-- The place after the rest of a line, which must hold no more than blanks and a
comment. -/
def skipLine (cursor : Cursor) : Option Cursor :=
  let cursor := cursor.skipBlanks
  match cursor.rest with
  | [] => some cursor
  | char :: _ => if isBreak char then some cursor.skip else none

/-- Whether a line starts here with the given three-character mark. -/
def atMark (cursor : Cursor) (mark : Char) : Bool :=
  cursor.column == 0 &&
    match cursor.rest with
    | first :: second :: third :: rest =>
        first == mark && second == mark && third == mark && separated rest
    | _ => false

/-- Whether a document starts or ends here. -/
def atDocumentMark (cursor : Cursor) : Bool :=
  cursor.atMark '-' || cursor.atMark '.'

end Cursor

end RsaAudit.Yaml
