import RsaAudit.Document.Readable

/-!
# Reading records

A record shape lists the fields of a record in order.  By keys, the fields may
come in any order and other keys are passed over, but no field may come twice;
whether a field is missing is settled after the last member.  As a list, the
fields come in order, and the last ones may be left out if they are optional.
-/

namespace RsaAudit

/-- A field: its name, whether it has to be there, and how a node enters it. -/
structure Field (Read : Type → Type) (Node Record : Type) where
  name : String
  required : Bool
  store : Record → Node → Read Record

/-- The fields of a record in order, and the record in which none is set. -/
structure Shape (Read : Type → Type) (Node Record : Type) where
  fields : List (Field Read Node Record)
  blank : Record

/-- A record while its members are read, with the places of the fields seen. -/
structure RecordDraft (Record : Type) where
  record : Record
  seen : List Nat

namespace Shape

variable {Read : Type → Type} {Node Record : Type}
  [Monad Read] [MonadExceptOf Reason Read] [Readable Read Node]

def names (shape : Shape Read Node Record) : List String :=
  shape.fields.map Field.name

/-- The record after one more member. -/
def readMember (shape : Shape Read Node Record) (draft : RecordDraft Record)
    (member : Node × Node) : Read (RecordDraft Record) := do
  let key ← Readable.key member.1
  match key.find? shape.names with
  | none =>
      Readable.ignore member.2
      return draft
  | some index =>
      match shape.fields[index]? with
      | none => return draft
      | some field =>
          if draft.seen.contains index then throw (.duplicateField field.name)
          let record ← field.store draft.record member.2
          return ⟨record, index :: draft.seen⟩

/-- The first required field that has not been seen, counting from a place. -/
def missing? (seen : List Nat) : List (Field Read Node Record) → Nat → Option String
  | [], _ => none
  | field :: rest, index =>
      if field.required && !seen.contains index then some field.name
      else missing? seen rest (index + 1)

/-- A record from its members. -/
def readMembers (shape : Shape Read Node Record) (members : List (Node × Node)) :
    Read Record := do
  let draft ← members.foldlM shape.readMember ⟨shape.blank, []⟩
  match missing? draft.seen shape.fields 0 with
  | some name => throw (.missingField name)
  | none => return draft.record

/-- A record from the nodes of its fields in order. -/
def readItems (record : Record) :
    List (Field Read Node Record) → List Node → Read Record
  | [], [] => return record
  | [], node :: _ => throw (Readable.surplus node)
  | field :: rest, [] =>
      if field.required then throw .invalidLength else readItems record rest []
  | field :: rest, node :: later => do
      let record ← field.store record node
      readItems record rest later

def readLayout (shape : Shape Read Node Record) : Layout Node → Read Record
  | .keyed members => shape.readMembers members
  | .positional items => readItems shape.blank shape.fields items

def read (shape : Shape Read Node Record) (node : Node) : Read Record := do
  shape.readLayout (← Readable.record node)

end Shape

end RsaAudit
