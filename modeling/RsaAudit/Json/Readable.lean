import RsaAudit.Document.Readable
import RsaAudit.Json.Tree

/-!
# JSON values as nodes of a document

A value of the wrong type is refused as such, unless its text has no value at
all: then the text is malformed.
-/

namespace RsaAudit.Json

/-- Why a value is not of the type that is wanted. -/
def mismatch : Json → Reason
  | .broken | .text none => .malformed
  | .number numeral => if numeral.number?.isSome then .invalidType else .malformed
  | _ => .invalidType

def Number.toValue : Number → Value
  | .unsigned value => .unsigned value
  | .signed value => .signed value
  | .floating => .floating

/-- The number of a numeral, kept. -/
def Numeral.toValue (numeral : Numeral) : Except Reason Value :=
  match numeral.number? with
  | some value => .ok value.toValue
  | none => .error .malformed

/-- The content of a string, or the reason why it has none. -/
def toText : Option String → Except Reason String
  | some content => .ok content
  | none => .error .malformed

mutual

/-- A value, kept, that opens no more than the given number of levels. -/
def keepWithin (levels : Nat) : Json → Except Reason Value
  | .null => .ok .null
  | .bool value => .ok (.bool value)
  | .number numeral => numeral.toValue
  | .text content => .text <$> toText content
  | .list items =>
      match levels with
      | 0 => .error .malformed
      | inner + 1 => .list <$> keepItems inner items
  | .object members =>
      match levels with
      | 0 => .error .malformed
      | inner + 1 => .map <$> keepMembers inner members
  | .broken => .error .malformed

def keepItems (levels : Nat) : List Json → Except Reason (List Value)
  | [] => .ok []
  | item :: rest => do
      let item ← keepWithin levels item
      return item :: (← keepItems levels rest)

def keepMembers (levels : Nat) :
    List (Option String × Json) → Except Reason (List (Value × Value))
  | [] => .ok []
  | (key, value) :: rest => do
      let key ← toText key
      let value ← keepWithin levels value
      return (.text key, value) :: (← keepMembers levels rest)

end

/-- The number of levels that a document may open. -/
def maxLevels : Nat := 127

/-- The level of an instruction: below program, functions, function, blocks, block
and instructions. -/
def instructionLevel : Nat := 7

/-- A record: an object, or a list of its fields. -/
def layout : Json → Except Reason (Layout Json)
  | .object members => .ok (.keyed (members.map fun (key, value) => (.text key, value)))
  | .list items => .ok (.positional items)
  | json => .error json.mismatch

def textOf : Json → Except Reason String
  | .text (some content) => .ok content
  | json => .error json.mismatch

instance : Readable (Except Reason) Json where
  text := textOf
  optionalText
    | .null => .ok none
    | json => some <$> textOf json
  flag
    | .bool value => .ok value
    | json => .error json.mismatch
  signed
    | .number numeral => do (← numeral.toValue).toSigned
    | json => .error json.mismatch
  unsigned
    | .number numeral => do (← numeral.toValue).toUnsigned
    | json => .error json.mismatch
  items
    | .list items => .ok items
    | json => .error json.mismatch
  record := layout
  tagged := layout
  key json := .name <$> textOf json
  ignore json := if json.intact then .ok () else .error .malformed
  keep := keepWithin (maxLevels - instructionLevel)
  surplus _ := .malformed

end RsaAudit.Json
