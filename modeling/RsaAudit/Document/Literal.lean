import RsaAudit.Document.Tagged
import RsaAudit.Program

/-!
# Reading literals

A literal has a type and a value.  By keys the two may come in either order; the
value is interpreted as soon as both have been met.
-/

namespace RsaAudit.Literal

inductive Kind where
  | int
  | str
  | bytes
  | nil
  deriving DecidableEq

namespace Kind

def variants : Variants Kind :=
  [("int", .int), ("str", .str), ("bytes", .bytes), ("nil", .nil)]

/-- Whether a value may accompany a variant that has no content. -/
def isBlank : Value → Bool
  | .null => true
  | .map [] => true
  | _ => false

/-- The type that the member `type` gives: its name, or a map with the name as its
one key. -/
def ofMember : Value → Except Reason Kind
  | .text name => variants.ofName name
  | .map [(key, content)] => do
      let kind ← variants.ofValue key
      if isBlank content then return kind else throw .invalidType
  | .map _ => .error .invalidValue
  | _ => .error .invalidType

/-- The literal of a type that a value denotes. -/
def interpret (kind : Kind) (value : Value) : Except Reason Literal :=
  match kind with
  | .int => return .int (← Readable.signed value)
  | .str => return .str (← Readable.text value)
  | .bytes => return .bytes (← Readable.list Value.toByte value)
  | .nil =>
      match value with
      | .null => return .nil
      | _ => throw .invalidType

end Kind

/-- A literal while its members are read. -/
structure Draft where
  kind : Option Kind
  value : Option Value
  literal : Option Literal

namespace Draft

def start : Draft := ⟨none, none, none⟩

def setKind (draft : Draft) (node : Value) : Except Reason Draft := do
  if draft.kind.isSome then throw (.duplicateField "type")
  let kind ← Kind.ofMember node
  let literal ← draft.value.mapM kind.interpret
  return { draft with kind := some kind, literal }

def setValue (draft : Draft) (node : Value) : Except Reason Draft := do
  if draft.value.isSome then throw (.duplicateField "value")
  let literal ← draft.kind.mapM (·.interpret node)
  return { draft with value := some node, literal }

def readMember (draft : Draft) (member : Value × Value) : Except Reason Draft := do
  let key ← Readable.key member.1
  match key.find? ["type", "value"] with
  | some 0 => draft.setKind member.2
  | some _ => draft.setValue member.2
  | none => return draft

def finish (draft : Draft) : Except Reason Literal :=
  match draft.kind, draft.literal with
  | none, _ => .error (.missingField "type")
  | some _, some literal => .ok literal
  | some .nil, none => .ok .nil
  | some _, none => .error (.missingField "value")

end Draft

/-- The literal that a kept value writes. -/
def ofValue : Value → Except Reason Literal
  | .map entries => do (← entries.foldlM Draft.readMember .start).finish
  | .list [] => .error .invalidLength
  | .list (type :: rest) => do
      let kind ← Kind.variants.ofValue type
      match rest with
      | [] => throw .invalidLength
      | value :: later =>
          let literal ← kind.interpret value
          if later.isEmpty then return literal else throw .invalidLength
  | _ => .error .invalidType

end RsaAudit.Literal
