import RsaAudit.Json.Tree

/-!
# JSON text

A value is written without white space, or with one item to a line and two
spaces for every level.
-/

namespace RsaAudit.Json

open Decimal (Digit)

/-- The digit of a number below sixteen, in lower case. -/
def hexChar (digit : Nat) : Char :=
  if digit < 10 then Char.ofNat ('0'.toNat + digit)
  else Char.ofNat ('a'.toNat + digit - 10)

/-- How one character of a string is written. -/
def escape (char : Char) : List Char :=
  if char = '"' then ['\\', '"']
  else if char = '\\' then ['\\', '\\']
  else if char = '\x08' then ['\\', 'b']
  else if char = '\x0c' then ['\\', 'f']
  else if char = '\n' then ['\\', 'n']
  else if char = '\r' then ['\\', 'r']
  else if char = '\t' then ['\\', 't']
  else if char < ' ' then
    ['\\', 'u', '0', '0', hexChar (char.toNat / 16), hexChar (char.toNat % 16)]
  else [char]

/-- A string between quotes.  One without content is written as a surrogate that
has no partner. -/
def spellText : Option String → List Char
  | some content => '"' :: content.toList.flatMap escape ++ ['"']
  | none => "\"\\ud800\"".toList

def Numeral.spell (numeral : Numeral) : List Char :=
  (if numeral.negative then ['-'] else []) ++
    numeral.whole.map Digit.toChar ++
    (if numeral.fraction.isEmpty then [] else '.' :: numeral.fraction.map Digit.toChar) ++
    (match numeral.exponent with
      | none => []
      | some (negative, digits) =>
          'e' :: (if negative then ['-'] else []) ++ digits.map Digit.toChar)

def spellBool : Bool → List Char
  | true => "true".toList
  | false => "false".toList

mutual

/-- The characters of a value, without white space. -/
def compactChars : Json → List Char
  | .null => "null".toList
  | .bool value => spellBool value
  | .number numeral => numeral.spell
  | .text content => spellText content
  | .list items => '[' :: compactItems items ++ [']']
  | .object members => '\x7b' :: compactMembers members ++ ['\x7d']
  | .broken => []

def compactItems : List Json → List Char
  | [] => []
  | [item] => compactChars item
  | item :: rest => compactChars item ++ ',' :: compactItems rest

def compactMembers : List (Option String × Json) → List Char
  | [] => []
  | [(key, value)] => spellText key ++ ':' :: compactChars value
  | (key, value) :: rest =>
      spellText key ++ ':' :: compactChars value ++ ',' :: compactMembers rest

end

/-- The start of a line at a level. -/
def newline (level : Nat) : List Char :=
  '\n' :: List.replicate (2 * level) ' '

mutual

/-- The characters of a value that stands at a level, one item to a line. -/
def prettyChars (level : Nat) : Json → List Char
  | .list [] => ['[', ']']
  | .list items => '[' :: prettyItems (level + 1) items ++ newline level ++ [']']
  | .object [] => ['\x7b', '\x7d']
  | .object members =>
      '\x7b' :: prettyMembers (level + 1) members ++ newline level ++ ['\x7d']
  | .null => "null".toList
  | .bool value => spellBool value
  | .number numeral => numeral.spell
  | .text content => spellText content
  | .broken => []

def prettyItems (level : Nat) : List Json → List Char
  | [] => []
  | [item] => newline level ++ prettyChars level item
  | item :: rest =>
      newline level ++ prettyChars level item ++ ',' :: prettyItems level rest

def prettyMembers (level : Nat) : List (Option String × Json) → List Char
  | [] => []
  | [(key, value)] =>
      newline level ++ spellText key ++ ':' :: ' ' :: prettyChars level value
  | (key, value) :: rest =>
      newline level ++ spellText key ++ ':' :: ' ' :: prettyChars level value ++
        ',' :: prettyMembers level rest

end

/-- The text of a value, without white space. -/
def compact (json : Json) : String :=
  String.ofList json.compactChars

/-- The text of a value, one item to a line. -/
def pretty (json : Json) : String :=
  String.ofList (prettyChars 0 json)

def ofText (content : String) : Json :=
  .text (some content)

def ofNat (number : Nat) : Json :=
  .number (.ofNat number)

def ofInt (number : Int) : Json :=
  .number (.ofInt number)

/-- A string value, or null. -/
def ofText? : Option String → Json
  | some content => ofText content
  | none => .null

def record (members : List (String × Json)) : Json :=
  .object (members.map fun (key, value) => (some key, value))

end RsaAudit.Json
