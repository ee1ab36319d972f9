import RsaAudit.Text.Decimal

/-!
# JSON numerals

A numeral is kept as it is written.  As a number it is an unsigned or signed
64-bit integer where it is written as one and fits; any other numeral stands for
a binary floating-point number, of which only its range matters here.
-/

namespace RsaAudit.Json

open Decimal (Digit)

/-- A numeral: sign, digits before and after the point, and exponent. -/
structure Numeral where
  negative : Bool
  whole : List Digit
  fraction : List Digit
  /-- Whether the exponent is negative, and its digits. -/
  exponent : Option (Bool × List Digit)
  deriving DecidableEq, Inhabited

/-- The number that a numeral stands for. -/
inductive Number where
  | unsigned (value : UInt64)
  | signed (value : Int64)
  | floating
  deriving DecidableEq

namespace Numeral

def ofNat (number : Nat) : Numeral :=
  ⟨false, Decimal.digits number, [], none⟩

def ofInt : Int → Numeral
  | .ofNat number => ofNat number
  | .negSucc number => ⟨true, Decimal.digits (number + 1), [], none⟩

/-- Whether a numeral has neither a fraction nor an exponent. -/
def isInteger (numeral : Numeral) : Bool :=
  numeral.fraction.isEmpty && numeral.exponent.isNone

/-- Leading digits as a 64-bit significand, with the decimal scale that accounts
for the places it leaves out. -/
structure Scaled where
  significand : Nat
  scale : Int
  full : Bool

namespace Scaled

/-- Whether a further digit does not fit. -/
def overflows (scaled : Scaled) (digit : Digit) : Bool :=
  scaled.full || decide (0x10000000000000000 ≤ 10 * scaled.significand + digit.val)

/-- One more digit before the point; a digit that does not fit leaves its place. -/
def takeWhole (scaled : Scaled) (digit : Digit) : Scaled :=
  if scaled.overflows digit then
    { scaled with scale := scaled.scale + 1, full := true }
  else { scaled with significand := 10 * scaled.significand + digit.val }

/-- One more digit after the point; a digit that does not fit is dropped. -/
def takeFraction (scaled : Scaled) (digit : Digit) : Scaled :=
  if scaled.overflows digit then { scaled with full := true }
  else { scaled with
    significand := 10 * scaled.significand + digit.val
    scale := scaled.scale - 1 }

end Scaled

def exponentValue (numeral : Numeral) : Int :=
  match numeral.exponent with
  | none => 0
  | some (false, digits) => Decimal.value digits
  | some (true, digits) => -(Decimal.value digits : Int)

def scaled (numeral : Numeral) : Scaled :=
  let whole := numeral.whole.foldl Scaled.takeWhole ⟨0, 0, false⟩
  let all := numeral.fraction.foldl Scaled.takeFraction { whole with full := false }
  { all with scale := all.scale + numeral.exponentValue }

/-- A natural number rounded to 53 significant bits, ties to even. -/
def round53 (number : Nat) : Nat :=
  let unit := Nat.pow 2 (number.log2 - 52)
  let quotient := number / unit
  let rest := number % unit
  let roundsUp := unit < 2 * rest || (unit == 2 * rest && quotient % 2 == 1)
  (if roundsUp then quotient + 1 else quotient) * unit

/-- The least number that rounds to no double-precision number. -/
def doubleBound : Nat :=
  Nat.pow 2 1024 - Nat.pow 2 970

/-- Whether a numeral is too large for a double-precision number. -/
def tooLarge (numeral : Numeral) : Bool :=
  let scaled := numeral.scaled
  scaled.significand != 0 &&
    (decide (308 < scaled.scale) ||
      (decide (0 ≤ scaled.scale) &&
        decide (doubleBound ≤
          round53 scaled.significand * round53 (Nat.pow 10 scaled.scale.toNat))))

/-- The floating-point reading of a numeral, unless it is out of range. -/
def floating? (numeral : Numeral) : Option Number :=
  if numeral.tooLarge then none else some .floating

/-- The number that a numeral stands for; `none` if it is out of range. -/
def number? (numeral : Numeral) : Option Number :=
  if numeral.isInteger then
    let magnitude := Decimal.value numeral.whole
    if numeral.negative then
      if 0 < magnitude ∧ magnitude ≤ 0x8000000000000000 then
        some (.signed (Int64.ofInt (-(magnitude : Int))))
      else numeral.floating?
    else if magnitude < 0x10000000000000000 then some (.unsigned (UInt64.ofNat magnitude))
    else numeral.floating?
  else numeral.floating?

end Numeral

end RsaAudit.Json
