import RsaAudit.Json.Token
import RsaAudit.Text.Decimal

/-!
# The values of plain scalars

A plain scalar may write null, a truth value or a number; any other text stands
for itself.  Integers are written in decimal, or with a base after a zero; a
decimal number with a leading zero is a text.
-/

namespace RsaAudit.Yaml.Scalar

def isNull (text : String) : Bool :=
  ["~", "null", "Null", "NULL"].contains text

def bool? (text : String) : Option Bool :=
  if ["true", "True", "TRUE"].contains text then some true
  else if ["false", "False", "FALSE"].contains text then some false
  else none

/-- The number that a row of digits writes in a base; no digits write none. -/
def digits? (base : Nat) (chars : List Char) : Option Nat :=
  if chars.isEmpty then none
  else chars.foldlM (fun value char =>
    match Json.hexDigit? char with
    | some digit => if digit < base then some (base * value + digit) else none
    | none => none) 0

/-- Whether a text is a row of more than one digit, the first of them zero. -/
def hasLeadingZero : List Char → Bool
  | '0' :: char :: rest =>
      (char :: rest).all fun char => (Decimal.Digit.ofChar? char).isSome
  | _ => false

/-- The number that a text without sign writes. -/
def magnitude? (chars : List Char) : Option Nat :=
  match chars with
  | '0' :: 'x' :: rest => digits? 16 rest
  | '0' :: 'o' :: rest => digits? 8 rest
  | '0' :: 'b' :: rest => digits? 2 rest
  | _ => if hasLeadingZero chars then none else digits? 10 chars

/-- An integer as it is written, with its magnitude. -/
inductive Written where
  | positive (magnitude : Nat)
  | negative (magnitude : Nat)
  deriving DecidableEq

def written? (text : String) : Option Written :=
  match text.toList with
  | '+' :: rest => .positive <$> magnitude? rest
  | '-' :: rest => .negative <$> magnitude? rest
  | chars => .positive <$> magnitude? chars

/-- An integer by the number of bits that it needs. -/
inductive Integer where
  | unsigned (number : UInt64)
  | signed (number : Int64)
  /-- An integer that needs more than 64 bits, but no more than 128. -/
  | wide

/-- The integer of no more than 128 bits that a text writes. -/
def integer? (text : String) : Option Integer := do
  match ← written? text with
  | .positive magnitude =>
      if magnitude < 0x10000000000000000 then
        some (.unsigned (UInt64.ofNat magnitude))
      else if magnitude < 0x100000000000000000000000000000000 then some .wide
      else none
  | .negative magnitude =>
      if magnitude ≤ 0x8000000000000000 then
        some (.signed (Int64.ofInt (-(magnitude : Int))))
      else if magnitude ≤ 0x80000000000000000000000000000000 then some .wide
      else none

def signed? (text : String) : Option Int64 := do
  match ← written? text with
  | .positive magnitude =>
      if magnitude < 0x8000000000000000 then some (Int64.ofNat magnitude) else none
  | .negative magnitude =>
      if magnitude ≤ 0x8000000000000000 then some (Int64.ofInt (-(magnitude : Int)))
      else none

def unsigned? (text : String) : Option UInt64 := do
  match ← written? text with
  | .positive magnitude =>
      if magnitude < 0x10000000000000000 then some (UInt64.ofNat magnitude) else none
  | .negative _ => none

/-- The digits at the front of a text, and what follows them. -/
def spanDigits (chars : List Char) : List Decimal.Digit × List Char :=
  let isDigit := fun char => (Decimal.Digit.ofChar? char).isSome
  ((chars.takeWhile isDigit).filterMap Decimal.Digit.ofChar?, chars.dropWhile isDigit)

/-- The exponent that a text writes; an empty text writes none. -/
def exponent? : List Char → Option Int
  | [] => some 0
  | mark :: rest =>
      if mark == 'e' || mark == 'E' then
        let (negative, rest) :=
          match rest with
          | '-' :: rest => (true, rest)
          | '+' :: rest => (false, rest)
          | _ => (false, rest)
        let (digits, rest) := spanDigits rest
        if digits.isEmpty || !rest.isEmpty then none
        else
          let value : Int := Decimal.value digits
          some (if negative then -value else value)
      else none

/-- Whether a decimal number, given as significand and exponent, rounds to a finite
double-precision number. -/
def isFinite (significand : Nat) (exponent : Int) : Bool :=
  let places := ((Decimal.digits significand).length : Int) + exponent
  if significand = 0 ∨ places ≤ 308 then true
  else if 310 < places then false
  else if 0 ≤ exponent then
    significand * Nat.pow 10 exponent.toNat < Json.Numeral.doubleBound
  else significand < Json.Numeral.doubleBound * Nat.pow 10 (-exponent).toNat

/-- Whether a text without sign writes a finite decimal number. -/
def isDecimal (chars : List Char) : Bool :=
  let (whole, rest) := spanDigits chars
  let (fraction, rest) :=
    match rest with
    | '.' :: rest => spanDigits rest
    | _ => ([], rest)
  match exponent? rest with
  | some exponent =>
      !(whole.isEmpty && fraction.isEmpty) &&
        isFinite (Decimal.value (whole ++ fraction)) (exponent - fraction.length)
  | none => false

def isFloat (text : String) : Bool :=
  let isMagnitude := fun chars =>
    [".inf", ".Inf", ".INF"].contains (String.ofList chars) || isDecimal chars
  [".nan", ".NaN", ".NAN"].contains text ||
    match text.toList with
    | '+' :: rest => isMagnitude rest
    | '-' :: rest => isMagnitude rest
    | chars => isMagnitude chars

/-- Whether a text is a row of digits with a leading zero, after its sign. -/
def isZeroed (text : String) : Bool :=
  match text.toList with
  | '+' :: rest => hasLeadingZero rest
  | '-' :: rest => hasLeadingZero rest
  | chars => hasLeadingZero chars

end RsaAudit.Yaml.Scalar
