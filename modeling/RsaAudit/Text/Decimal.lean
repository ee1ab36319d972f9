/-!
# Decimal text

Numbers are written in base ten, most significant digit first and without
leading zeros.  Digits are kept apart from characters, so that reading and
writing share one notion of value.
-/

namespace RsaAudit.Decimal

abbrev Digit := Fin 10

def Digit.toChar (digit : Digit) : Char :=
  Char.ofNat (48 + digit.val)

def Digit.ofChar? (char : Char) : Option Digit :=
  if high : char.toNat - 48 < 10 then
    if 48 ≤ char.toNat then some ⟨char.toNat - 48, high⟩ else none
  else none

/-- The number that a row of digits denotes. -/
def value (digits : List Digit) : Nat :=
  digits.foldl (fun total digit => 10 * total + digit.val) 0

/-- The digits of a number that is smaller than the bound. -/
def digitsBelow : (bound : Nat) → Nat → List Digit
  | 0, _ => []
  | bound + 1, number =>
      if small : number < 10 then [⟨number, small⟩]
      else digitsBelow bound (number / 10) ++ [⟨number % 10, Nat.mod_lt _ (by decide)⟩]

/-- The digits of a number; zero has one digit. -/
def digits (number : Nat) : List Digit :=
  digitsBelow (number + 1) number

def chars (number : Nat) : List Char :=
  (digits number).map Digit.toChar

def natText (number : Nat) : String :=
  String.ofList (chars number)

/-- The text of an integer; only negative numbers carry a sign. -/
def intText : Int → String
  | .ofNat number => natText number
  | .negSucc number => "-" ++ natText (number + 1)

/-- The value of a row of digits grows by one decimal place per digit. -/
theorem value_append_singleton (front : List Digit) (last : Digit) :
    value (front ++ [last]) = 10 * value front + last.val := by
  simp [value]

/-- The digits of a number below the bound denote it. -/
theorem value_digitsBelow (bound number : Nat) (below : number < bound) :
    value (digitsBelow bound number) = number := by
  induction bound generalizing number with
  | zero => omega
  | succ bound ih =>
      by_cases small : number < 10
      · simp [digitsBelow, small, value]
      · rw [digitsBelow, dif_neg small, value_append_singleton, ih _ (by omega)]
        exact Nat.div_add_mod number 10

/-- Writing a number and reading its digits gives the number back. -/
@[simp]
theorem value_digits (number : Nat) : value (digits number) = number :=
  value_digitsBelow (number + 1) number (Nat.lt_succ_self number)

end RsaAudit.Decimal
