import RsaAudit.Json.Printer
import RsaAudit.Policy
import RsaAudit.Program

/-!
# Writing programs and policies

Programs and policies are written as JSON objects with their fields in order.
A source, a result or an origin that is not known is left out; an opcode that is
not known is null.
-/

namespace RsaAudit

/-- A member that is left out where there is no text. -/
def Json.optionalMember (key : String) (content : Option String) : List (String × Json) :=
  content.toList.map fun content => (key, .ofText content)

def Position.toJson (position : Position) : Json :=
  .record [
    ("file", .ofText position.file),
    ("line", .ofNat position.line.toNat),
    ("column", .ofNat position.column.toNat)]

def Literal.toJson : Literal → Json
  | .int number => .record [("type", .ofText "int"), ("value", .ofInt number.toInt)]
  | .str text => .record [("type", .ofText "str"), ("value", .ofText text)]
  | .bytes content =>
      .record [("type", .ofText "bytes"),
        ("value", .list (content.map fun byte => .ofNat byte.toNat))]
  | .nil => .record [("type", .ofText "nil")]

def Argument.toJson : Argument → Json
  | .constant value => .record [("kind", .ofText "constant"), ("value", value.toJson)]
  | .wrapped inner => .record [("kind", .ofText "wrapped"), ("inner", inner.toJson)]
  | .callResult callee =>
      .record [("kind", .ofText "call_result"), ("callee", .ofText callee)]
  | .unresolved origin =>
      .record (("kind", .ofText "unresolved") :: Json.optionalMember "origin" origin)

def Call.members (call : Call) : List (String × Json) :=
  [("callee", .ofText call.callee),
    ("args", .list (call.args.map Argument.toJson)),
    ("position", call.position.toJson)] ++
  Json.optionalMember "result" call.result

def Instruction.toJson : Instruction → Json
  | .call made => .record (("kind", .ofText "call") :: made.members)
  | .other opcode =>
      .record [("kind", .ofText "other"), ("opcode", .ofText? opcode)]

def Block.toJson (block : Block) : Json :=
  .record [("instructions", .list (block.instructions.map Instruction.toJson))]

def Function.toJson (function : Function) : Json :=
  .record [
    ("name", .ofText function.name),
    ("blocks", .list (function.blocks.map Block.toJson))]

def Program.toJson (program : Program) : Json :=
  .record (Json.optionalMember "source" program.source ++
    [("functions", .list (program.functions.map Function.toJson))])

def SymbolSet.toJson (set : SymbolSet) : Json :=
  .list (set.names.map Json.ofText)

def Policy.toJson (policy : Policy) : Json :=
  .record [
    ("minimum_bits", .ofInt policy.minimumBits.toInt),
    ("bit_alignment", .ofInt policy.bitAlignment.toInt),
    ("minimum_session_key_bytes", .ofNat policy.minimumSessionKeyBytes.toNat),
    ("accepted_hash_identifiers", policy.acceptedHashIdentifiers.toJson),
    ("accepted_hash_constructors", policy.acceptedHashConstructors.toJson),
    ("secure_source_symbols", policy.secureSourceSymbols.toJson),
    ("parallel", .bool policy.parallel)]

end RsaAudit
