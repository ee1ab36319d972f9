import RsaAudit.Document.Readable
import RsaAudit.Yaml.Node
import RsaAudit.Yaml.Scalar

/-!
# YAML nodes as nodes of a document

Where the type of a scalar is known beforehand its text is read as that type; a
kept scalar gets its type from its tag or its text.  A node of which nothing is
written counts as an empty record or an empty list.

An alias is read as the node it stands for.  Since aliases inside anchored nodes
multiply, the aliases that are followed are counted, and a document must not have
more of them followed than its length allows.
-/

namespace RsaAudit.Yaml

/-- Reading that counts the aliases it has followed. -/
abbrev Following := StateT Nat (Except Reason)

/-- Whether a text writes a value of the type that a tag names. -/
def Tag.accepts (text : String) : Tag → Bool
  | .null => Scalar.isNull text
  | .bool => (Scalar.bool? text).isSome
  | .int => (Scalar.integer? text).isSome
  | .float => Scalar.isFloat text
  | .variant | .nameless | .foreign => true

namespace Node

def mismatch : Node → Reason
  | .missing | .alias _ => .malformed
  | .scalar text _ (some tag) => if tag.accepts text then .invalidType else .invalidValue
  | _ => .invalidType

/-- Whether the tag of a node makes it a variant. -/
def isVariant : Node → Bool
  | .scalar _ _ tag => tag = some .variant
  | .sequence tag _ => tag = some .variant
  | .mapping tag _ => tag = some .variant
  | .alias _ | .missing => false

/-- The text of a scalar, however it is written. -/
def text : Node → Except Reason String
  | .scalar text _ _ => .ok text
  | node => .error node.mismatch

/-- The text of a scalar; none for a plain scalar that writes null or nothing. -/
def optionalText : Node → Except Reason (Option String)
  | .scalar text .plain none =>
      .ok (if text = "" ∨ Scalar.isNull text then none else some text)
  | .scalar text .plain (some .null) =>
      if Scalar.isNull text then .ok none else .error .invalidValue
  | node => some <$> node.text

/-- A scalar of the type that a tag names, read with `parse`.  It is plain, or a
literal block with this tag. -/
def typed {Result : Type} (wanted : Tag) (parse : String → Option Result) :
    Node → Except Reason Result
  | .scalar text style tag =>
      match if style = .plain ∨ (style = .literal ∧ tag = some wanted) then parse text
        else none with
      | some result => .ok result
      | none => .error (Node.scalar text style tag).mismatch
  | node => .error node.mismatch

end Node

/-- An integer as a kept value; a wide one has no type there. -/
def Scalar.Integer.toValue : Scalar.Integer → Except Reason Value
  | .unsigned number => .ok (.unsigned number)
  | .signed number => .ok (.signed number)
  | .wide => .error .invalidType

namespace Scalar

/-- The value of a scalar that gets its type from its text. -/
def implicit (text : String) : Except Reason Value :=
  if text = "" ∨ isNull text then .ok .null
  else
    match bool? text, integer? text with
    | some value, _ => .ok (.bool value)
    | none, some number => number.toValue
    | none, none =>
        .ok (if !isZeroed text && isFloat text then .floating else .text text)

/-- The value of a scalar that a tag gives its type. -/
def explicit (text : String) : Tag → Except Reason Value
  | .null => if isNull text then .ok .null else .error .invalidValue
  | .bool =>
      match bool? text with
      | some value => .ok (.bool value)
      | none => .error .invalidValue
  | .int =>
      match integer? text with
      | some number => number.toValue
      | none => .error .invalidValue
  | .float => if isFloat text then .ok .floating else .error .invalidValue
  | .variant => .error .malformed
  | .nameless | .foreign => .ok (.text text)

/-- The value of a kept scalar.  The name of a type that is no text says nothing
about a plain scalar. -/
def keep (text : String) (style : Style) : Option Tag → Except Reason Value
  | none => if style = .plain then implicit text else .ok (.text text)
  | some .nameless => if style = .plain then implicit text else .ok (.text text)
  | some tag => explicit text tag

end Scalar

/-- A node together with its document. -/
structure View where
  node : Node
  document : Document

namespace View

def turn (view : View) (node : Node) : View :=
  { view with node }

/-- The node itself, or the one it is an alias of. -/
def target (view : View) : Following Node := do
  match view.node with
  | .alias number =>
      let followed := (← get) + 1
      if view.document.maxFollowed < followed then throw .malformed
      set followed
      return (view.document.targets.lookup number).getD .missing
  | node => return node

/-- What `read` makes of the node or the one it is an alias of. -/
def onTarget {Result : Type} (read : Node → Except Reason Result) (view : View) :
    Following Result := do
  MonadExcept.ofExcept (read (← view.target))

/-- A node, kept, that opens no more than the given number of levels. -/
def keepWithin : (levels : Nat) → View → Following Value
  | levels, view => do
      let node ← view.target
      match node, levels with
      | .scalar text style tag, _ => MonadExcept.ofExcept (Scalar.keep text style tag)
      | .alias _, _ | .missing, _ | _, 0 => throw .malformed
      | .sequence _ items, inner + 1 =>
          if node.isVariant then throw .malformed
          let items ← items.mapM fun item => keepWithin inner (view.turn item)
          return .list items
      | .mapping _ pairs, inner + 1 =>
          if node.isVariant then throw .malformed
          let entries ← pairs.mapM fun (key, value) => do
            let key ← keepWithin inner (view.turn key)
            let value ← keepWithin inner (view.turn value)
            return (key, value)
          return .map entries

def maxLevels : Nat := 128

/-- The level of an instruction: below program, functions, function, blocks, block
and instructions. -/
def instructionLevel : Nat := 7

def members (view : View) (pairs : List (Node × Node)) : Layout View :=
  .keyed (pairs.map fun (key, value) => (view.turn key, view.turn value))

def items (view : View) : Node → Except Reason (List View)
  | .sequence _ items => .ok (items.map view.turn)
  | .scalar "" .plain _ => .ok []
  | node => .error node.mismatch

def record (view : View) : Node → Except Reason (Layout View)
  | .mapping _ pairs => .ok (view.members pairs)
  | .scalar "" .plain _ => .ok (.keyed [])
  | node => .error node.mismatch

/-- The layout of a record that carries a tag of its own. -/
def tagged (view : View) (node : Node) : Except Reason (Layout View) :=
  match node with
  | .mapping _ pairs =>
      if node.isVariant then .error .invalidType else .ok (view.members pairs)
  | .sequence _ items =>
      if node.isVariant then .error .invalidType
      else .ok (.positional (items.map view.turn))
  | node => .error node.mismatch

instance : Readable Following View where
  text := onTarget Node.text
  optionalText := onTarget Node.optionalText
  flag := onTarget (Node.typed .bool Scalar.bool?)
  signed := onTarget (Node.typed .int Scalar.signed?)
  unsigned := onTarget (Node.typed .int Scalar.unsigned?)
  items view := view.onTarget view.items
  record view := view.onTarget view.record
  tagged view := view.onTarget view.tagged
  key view := .name <$> view.onTarget Node.text
  ignore view := if view.node.intact then return () else throw .malformed
  keep := keepWithin (maxLevels - instructionLevel)
  surplus _ := .invalidLength

end View

end RsaAudit.Yaml
