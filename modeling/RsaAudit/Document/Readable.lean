import RsaAudit.Document.Value

/-!
# Nodes that can be read

The readers of programs and policies work on any kind of node that offers the
operations below.  Each operation either views a node as what is wanted, or gives
the reason why it cannot be.  The operations run in a monad that belongs to the
kind of node, since reading may have to keep count of something.
-/

namespace RsaAudit

/-- How a record is laid out: by keys, or as a list in the order of its fields. -/
inductive Layout (Node : Type) where
  | keyed (members : List (Node × Node))
  | positional (items : List Node)

/-- How a key selects a field: by name, or by place in the order of the fields. -/
inductive FieldKey where
  | name (text : String)
  | place (index : Nat)

/-- The field among `names` that a key selects; none if it selects no field. -/
def FieldKey.find? (names : List String) : FieldKey → Option Nat
  | .name text => names.findIdx? (· == text)
  | .place index => if index < names.length then some index else none

/-- Nodes of a document, read in the monad `Read`. -/
class Readable (Read : outParam (Type → Type)) (Node : Type) where
  /-- A text. -/
  text : Node → Read String
  /-- A text, or null for none. -/
  optionalText : Node → Read (Option String)
  /-- A truth value. -/
  flag : Node → Read Bool
  /-- A signed 64-bit integer. -/
  signed : Node → Read Int64
  /-- An unsigned 64-bit integer. -/
  unsigned : Node → Read UInt64
  /-- The items of a list. -/
  items : Node → Read (List Node)
  /-- The layout of a record. -/
  record : Node → Read (Layout Node)
  /-- The layout of a record that carries a tag. -/
  tagged : Node → Read (Layout Node)
  /-- What a key of a record selects. -/
  key : Node → Read FieldKey
  /-- Pass over a node that nothing is read from. -/
  ignore : Node → Read Unit
  /-- Keep a part of an instruction for later. -/
  keep : Node → Read Value
  /-- The reason for items after the last field of a record. -/
  surplus : Node → Reason

namespace Readable

variable {Read : Type → Type} {Node : Type} [Monad Read] [Readable Read Node]

def list {Item : Type} (read : Node → Read Item) (node : Node) :
    Read (List Item) := do
  (← items node).mapM read

end Readable

namespace Value

/-- A record among kept values. -/
def layout : Value → Except Reason (Layout Value)
  | .map entries => .ok (.keyed entries)
  | .list items => .ok (.positional items)
  | _ => .error .invalidType

instance : Readable (Except Reason) Value where
  text
    | .text content => .ok content
    | _ => .error .invalidType
  optionalText
    | .null => .ok none
    | .text content => .ok (some content)
    | _ => .error .invalidType
  flag
    | .bool value => .ok value
    | _ => .error .invalidType
  signed := toSigned
  unsigned := toUnsigned
  items
    | .list items => .ok items
    | _ => .error .invalidType
  record := layout
  tagged := layout
  key
    | .text name => .ok (.name name)
    | .unsigned index => .ok (.place index.toNat)
    | _ => .error .invalidType
  ignore _ := .ok ()
  keep := .ok
  surplus _ := .invalidLength

end Value

end RsaAudit
