import RsaAudit.Json.Token
import RsaAudit.Yaml.Cursor

/-!
# Tags and directives

A tag in front of a node names its type.  It is written in angle brackets, or
shortened with a handle that stands for the front part of the name.  Directives at
the start of a document give the version of the text and declare handles.

Names of types are octets, since escapes may write any.
-/

namespace RsaAudit.Yaml

def octets (text : String) : List UInt8 :=
  text.toUTF8.toList

/-- What a tag says about its node. -/
inductive Tag where
  /-- The node is null. -/
  | null
  /-- The node is a truth value. -/
  | bool
  /-- The node is an integer. -/
  | int
  /-- The node is a floating-point number. -/
  | float
  /-- The node is a variant of the given kind of document. -/
  | variant
  /-- The node has a type of its own whose name is no text. -/
  | nameless
  /-- The node has another type. -/
  | foreign
  deriving DecidableEq, Inhabited

/-- The name that says nothing. -/
def Tag.neutral : List UInt8 := octets "!"

def Tag.ofName (name : List UInt8) : Tag :=
  if name = octets "tag:yaml.org,2002:null" then .null
  else if name = octets "tag:yaml.org,2002:bool" then .bool
  else if name = octets "tag:yaml.org,2002:int" then .int
  else if name = octets "tag:yaml.org,2002:float" then .float
  else if name.take 1 = Tag.neutral then
    if (String.fromUTF8? ⟨(name.drop 1).toArray⟩).isSome then .variant else .nameless
  else .foreign

/-- Handles with what they stand for. -/
abbrev Handles := List (String × List UInt8)

/-- The handles that need no declaration. -/
def Handles.standard : Handles :=
  [("!", Tag.neutral), ("!!", octets "tag:yaml.org,2002:")]

/-- A tag as it is written: its handle, empty for none, and the rest of the name. -/
structure WrittenTag where
  handle : String
  rest : List UInt8
  deriving DecidableEq

/-- The name that a written tag means. -/
def WrittenTag.name? (handles : Handles) (tag : WrittenTag) : Option (List UInt8) :=
  if tag.handle = "" then some tag.rest
  else (· ++ tag.rest) <$> handles.lookup tag.handle

namespace TypeName

/-- Characters of names of types; between brackets some more are allowed. -/
def isChar (bracketed : Bool) (char : Char) : Bool :=
  isNameChar char ||
    [';', '/', '?', ':', '@', '&', '=', '+', '$', '.', '!', '~', '*', '\'', '(',
      ')'].contains char ||
    (bracketed && [',', '[', ']'].contains char)

/-- The octet that an escape at the front writes. -/
def octet? : List Char → Option Nat
  | '%' :: high :: low :: _ => do
      return 16 * (← Json.hexDigit? high) + (← Json.hexDigit? low)
  | _ => none

/-- The number of octets of the character that starts with an octet. -/
def width? (octet : Nat) : Option Nat :=
  if octet < 0x80 then some 1
  else if octet < 0xC0 then none
  else if octet < 0xE0 then some 2
  else if octet < 0xF0 then some 3
  else if octet < 0xF8 then some 4
  else none

/-- The later octets of an escaped character. -/
def laterOctets : (count : Nat) → List Char → Option (List UInt8)
  | 0, _ => some []
  | count + 1, chars => do
      let octet ← octet? chars
      if octet < 0x80 ∨ 0xC0 ≤ octet then none
      return UInt8.ofNat octet :: (← laterOctets count (chars.drop 3))

/-- The octets of the escaped character at the front. -/
def escaped? (chars : List Char) : Option (List UInt8) := do
  let first ← octet? chars
  let width ← width? first
  return UInt8.ofNat first :: (← laterOctets (width - 1) (chars.drop 3))

/-- The octets of the longest name at the front, and the number of its characters. -/
def scan (bracketed : Bool) : (fuel : Nat) → List Char → Option (List UInt8 × Nat)
  | fuel + 1, char :: rest =>
      if char == '%' then do
        let octets ← escaped? (char :: rest)
        let length := 3 * octets.length
        let (later, count) ← scan bracketed fuel ((char :: rest).drop length)
        return (octets ++ later, length + count)
      else if isChar bracketed char then do
        let (later, count) ← scan bracketed fuel rest
        return (UInt8.ofNat char.toNat :: later, count + 1)
      else some ([], 0)
  | _, _ => some ([], 0)

/-- The octets before a zero. -/
def beforeZero (octets : List UInt8) : List UInt8 :=
  octets.takeWhile fun octet => octet.toNat != 0

/-- The name at the front, which must not be empty, and the number of its
characters. -/
def read (bracketed : Bool) (chars : List Char) : Option (List UInt8 × Nat) := do
  let (octets, count) ← scan bracketed chars.length chars
  if count = 0 then none else return (beforeZero octets, count)

end TypeName

/-- A tag, given what follows its mark, and the number of characters after it. -/
def WrittenTag.scan (chars : List Char) : Option (WrittenTag × Nat) :=
  match chars with
  | '<' :: chars => do
      let (rest, count) ← TypeName.read true chars
      if (chars.drop count).head? == some '>' then
        return (⟨"", rest⟩, count + 2)
      else none
  | _ =>
      let word := chars.takeWhile isNameChar
      match chars.drop word.length with
      | '!' :: chars => do
          let (rest, count) ← TypeName.read false chars
          return (⟨"!" ++ String.ofList word ++ "!", rest⟩, word.length + 1 + count)
      | _ => do
          let (name, count) ← TypeName.scan false chars.length chars
          let name := TypeName.beforeZero name
          return (if name.isEmpty then ⟨"", Tag.neutral⟩ else ⟨"!", name⟩, count)

inductive Directive where
  | version (major minor : Nat)
  | handle (name : String) (meaning : List UInt8)
  deriving DecidableEq

namespace Directive

/-- The part of a version number at the front. -/
def numberAt (cursor : Cursor) : Option (Nat × Cursor) :=
  let digits := (cursor.run Char.isDigit).filterMap Decimal.Digit.ofChar?
  if digits.isEmpty ∨ 9 < digits.length then none
  else some (Decimal.value digits, cursor.advance digits.length)

/-- The version after its directive's name. -/
def scanVersion (cursor : Cursor) : Option (Directive × Cursor) := do
  let (major, cursor) ← numberAt (cursor.skipRun isBlank)
  if cursor.rest.head? != some '.' then none
  let (minor, cursor) ← numberAt cursor.skip
  return (.version major minor, cursor)

/-- The handle and its meaning after their directive's name. -/
def scanHandle (cursor : Cursor) : Option (Directive × Cursor) := do
  let cursor := cursor.skipRun isBlank
  if cursor.rest.head? != some '!' then none
  let word := cursor.skip.run isNameChar
  let cursor := cursor.skip.advance word.length
  let closed := cursor.rest.head? == some '!'
  if !closed && !word.isEmpty then none
  let cursor := if closed then cursor.skip else cursor
  if !cursor.rest.head?.any isBlank then none
  let cursor := cursor.skipRun isBlank
  let (meaning, count) ← TypeName.read true cursor.rest
  let cursor := cursor.advance count
  if !separated cursor.rest then none
  let handle := "!" ++ String.ofList word ++ if closed then "!" else ""
  return (.handle handle meaning, cursor)

/-- A directive after its mark, and the place after its line. -/
def scan (cursor : Cursor) : Option (Directive × Cursor) := do
  let word := cursor.run isNameChar
  let cursor := cursor.advance word.length
  if !separated cursor.rest then none
  let (directive, cursor) ←
    match String.ofList word with
    | "YAML" => scanVersion cursor
    | "TAG" => scanHandle cursor
    | _ => none
  return (directive, ← cursor.skipLine)

/-- The state after one more directive: whether a version was given, and the
handles declared so far. -/
def enter (state : Bool × Handles) : Directive → Option (Bool × Handles)
  | .version major minor =>
      if state.1 ∨ major ≠ 1 ∨ (minor ≠ 1 ∧ minor ≠ 2) then none
      else some (true, state.2)
  | .handle name meaning =>
      if (state.2.lookup name).isSome then none
      else some (state.1, (name, meaning) :: state.2)

/-- The handles after the directives of a document; declared ones come first. -/
def handles? (directives : List Directive) : Option Handles := do
  let (_, declared) ← directives.foldlM enter (false, [])
  return declared ++ .standard

end Directive

end RsaAudit.Yaml
