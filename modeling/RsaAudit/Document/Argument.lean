import RsaAudit.Document.Literal
import RsaAudit.Document.Record

/-!
# Reading arguments

An argument is a tagged record among kept values.  Only a wrapped argument holds
another one, so only it is read by recursion.
-/

namespace RsaAudit.Argument

inductive Kind where
  | constant
  | wrapped
  | callResult
  | unresolved
  deriving DecidableEq

def Kind.variants : Variants Kind :=
  [("constant", .constant), ("wrapped", .wrapped), ("call_result", .callResult),
    ("unresolved", .unresolved)]

/-- The kind after one more member. -/
def Kind.readMember (kind : Option Kind) (member : Value × Value) :
    Except Reason (Option Kind) :=
  if Tagged.isTag member.1 then
    if kind.isSome then .error (.duplicateField Tagged.tag)
    else some <$> Kind.variants.ofValue member.2
  else .ok kind

/-- The kind that the members of an argument give. -/
def Kind.ofMembers (members : List (Value × Value)) : Except Reason Kind := do
  match ← members.foldlM Kind.readMember none with
  | some kind => return kind
  | none => throw (.missingField Tagged.tag)

def constantShape : Shape (Except Reason) Value Argument where
  fields := [⟨"value", true, fun _ node => .constant <$> Literal.ofValue node⟩]
  blank := .constant .nil

def callResultShape : Shape (Except Reason) Value Argument where
  fields := [⟨"callee", true, fun _ node => .callResult <$> Readable.text node⟩]
  blank := .callResult ""

def unresolvedShape : Shape (Except Reason) Value Argument where
  fields := [⟨"origin", false, fun _ node => .unresolved <$> Readable.optionalText node⟩]
  blank := .unresolved none

/-- The members other than the tag. -/
def untagged (members : List (Value × Value)) : List (Value × Value) :=
  members.filter fun member => !Tagged.isTag member.1

mutual

/-- The argument that a kept value writes. -/
def ofValue : Value → Except Reason Argument
  | .map members => do
      match ← Kind.ofMembers members with
      | .constant => constantShape.readMembers (untagged members)
      | .callResult => callResultShape.readMembers (untagged members)
      | .unresolved => unresolvedShape.readMembers (untagged members)
      | .wrapped =>
          match ← innerOfMembers members none with
          | some inner => return .wrapped inner
          | none => throw (.missingField "inner")
  | .list [] => .error (.missingField Tagged.tag)
  | .list (first :: rest) => do
      match ← Kind.variants.ofValue first with
      | .constant => Shape.readItems constantShape.blank constantShape.fields rest
      | .callResult => Shape.readItems callResultShape.blank callResultShape.fields rest
      | .unresolved => Shape.readItems unresolvedShape.blank unresolvedShape.fields rest
      | .wrapped =>
          match ← innerOfItems rest with
          | some inner => return .wrapped inner
          | none => throw .invalidLength
  | _ => .error .invalidType

/-- The argument inside a wrapped one that is written as a list. -/
def innerOfItems : List Value → Except Reason (Option Argument)
  | [] => .ok none
  | node :: rest => do
      let inner ← ofValue node
      if rest.isEmpty then return some inner else throw .invalidLength

/-- The argument inside a wrapped one that is written by keys, given the one found
so far. -/
def innerOfMembers : List (Value × Value) → Option Argument →
    Except Reason (Option Argument)
  | [], found => .ok found
  | (key, node) :: rest, found =>
      if Tagged.isTag key then innerOfMembers rest found
      else do
        match (← Readable.key key).find? ["inner"] with
        | none => innerOfMembers rest found
        | some _ =>
            if found.isSome then throw (.duplicateField "inner")
            let inner ← ofValue node
            innerOfMembers rest (some inner)

end

end RsaAudit.Argument
