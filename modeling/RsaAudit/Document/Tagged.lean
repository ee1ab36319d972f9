import RsaAudit.Document.Readable

/-!
# Reading tagged records

A tagged record has a variant, named by the key `kind` or by the first item of a
list.  The variant is settled as soon as its tag is met; the other parts are kept
until the record is complete.
-/

namespace RsaAudit

/-- The variants of a tagged record, by name and in order. -/
abbrev Variants (Variant : Type) := List (String × Variant)

namespace Variants

variable {Variant : Type}

def ofName (variants : Variants Variant) (name : String) : Except Reason Variant :=
  match variants.lookup name with
  | some variant => .ok variant
  | none => .error (.unknownVariant name (variants.map Prod.fst))

/-- The variant that a kept value names, by its name or by its place. -/
def ofValue (variants : Variants Variant) : Value → Except Reason Variant
  | .text name => variants.ofName name
  | .unsigned index =>
      match variants[index.toNat]? with
      | some (_, variant) => .ok variant
      | none => .error .invalidValue
  | _ => .error .invalidType

end Variants

namespace Tagged

/-- The key that names the variant. -/
def tag : String := "kind"

def isTag : Value → Bool
  | .text name => name == tag
  | _ => false

/-- A tagged record while its members are read; kept members stand last first. -/
structure Draft (Variant : Type) where
  variant : Option Variant
  kept : List (Value × Value)

variable {Read : Type → Type} {Node Variant : Type}
  [Monad Read] [MonadExceptOf Reason Read] [Readable Read Node]

def readVariant (variants : Variants Variant) (node : Node) : Read Variant := do
  MonadExcept.ofExcept (variants.ofName (← Readable.text node))

/-- The record after one more member. -/
def readMember (variants : Variants Variant) (draft : Draft Variant)
    (member : Node × Node) : Read (Draft Variant) := do
  let key ← Readable.keep member.1
  if isTag key then
    if draft.variant.isSome then throw (.duplicateField tag)
    let variant ← readVariant variants member.2
    return { draft with variant := some variant }
  else
    let value ← Readable.keep member.2
    return { draft with kept := (key, value) :: draft.kept }

/-- The variant of a node and its other parts. -/
def read (variants : Variants Variant) (node : Node) :
    Read (Variant × Layout Value) := do
  match ← Readable.tagged node with
  | .keyed members =>
      let draft ← members.foldlM (readMember variants) ⟨none, []⟩
      match draft.variant with
      | some variant => return (variant, .keyed draft.kept.reverse)
      | none => throw (.missingField tag)
  | .positional [] => throw (.missingField tag)
  | .positional (first :: rest) =>
      let variant ← readVariant variants first
      return (variant, .positional (← rest.mapM Readable.keep))

end Tagged

end RsaAudit
