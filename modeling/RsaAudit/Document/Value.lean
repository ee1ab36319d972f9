import RsaAudit.Document.Reason

/-!
# Kept values

The parts of an instruction are kept as values until its kind is known.  A kept
value no longer depends on the format of the document it came from.
-/

namespace RsaAudit

/-- A value whose meaning is not settled yet.  Entries stand in the order of the
document, and keys may repeat.  Of a floating-point number only its type matters. -/
inductive Value where
  | null
  | bool (value : Bool)
  | unsigned (number : UInt64)
  | signed (number : Int64)
  | floating
  | text (content : String)
  | list (items : List Value)
  | map (entries : List (Value × Value))
  deriving Inhabited

namespace Value

def toSigned : Value → Except Reason Int64
  | .unsigned number =>
      if number.toNat < 0x8000000000000000 then .ok (Int64.ofNat number.toNat)
      else .error .invalidValue
  | .signed number => .ok number
  | _ => .error .invalidType

def toUnsigned : Value → Except Reason UInt64
  | .unsigned number => .ok number
  | .signed number =>
      if 0 ≤ number then .ok (UInt64.ofNat number.toInt.toNat)
      else .error .invalidValue
  | _ => .error .invalidType

def toByte (value : Value) : Except Reason UInt8 := do
  let number ← value.toUnsigned
  if number.toNat < 256 then .ok (UInt8.ofNat number.toNat) else .error .invalidValue

end Value

end RsaAudit
