import Mathlib.Data.Fintype.Basic
import Mathlib.Data.List.Chain
import Mathlib.Data.List.Forall2
import Mathlib.Tactic.FinCases
import RsaAudit.Json.Printer

/-!
# How tokens are spelled

A token has many spellings: a character of a string may be written as itself, by a
letter or by its code units, and a number may have a fraction and an exponent.  White
space may stand between any two tokens.  The pass over the characters of a text finds
the tokens however they are spelled.

A string between quotes leaves the pass between two tokens.  A numeral does not: it is
over only when the next character does not belong to it, so a state at the end of a
numeral counts as one in which its token has been found.
-/

namespace RsaAudit.Decimal

theorem digitsBelow_ne_nil (bound number : Nat) (positive : 0 < bound) :
    digitsBelow bound number ≠ [] := by
  cases bound with
  | zero => omega
  | succ bound =>
      rw [digitsBelow]
      split <;> simp

theorem digits_ne_nil (number : Nat) : digits number ≠ [] :=
  digitsBelow_ne_nil (number + 1) number (Nat.succ_pos number)

theorem head?_digitsBelow (bound number : Nat) (below : number < bound)
    (positive : 0 < number) : (digitsBelow bound number).head? ≠ some 0 := by
  induction bound generalizing number with
  | zero => omega
  | succ bound ih =>
      rw [digitsBelow]
      split
      · intro zero
        have : number = 0 := congrArg Fin.val (Option.some.inj zero)
        omega
      · have front := digitsBelow_ne_nil bound (number / 10) (by omega)
        rw [List.head?_append_of_ne_nil _ front]
        exact ih (number / 10) (by omega) (by omega)

/-- The digits of a number are a single zero, or start with another digit. -/
theorem digits_eq_zero_or (number : Nat) :
    digits number = [0] ∨
      ∃ first rest, digits number = first :: rest ∧ first ≠ 0 := by
  rcases Nat.eq_zero_or_pos number with rfl | positive
  · exact .inl rfl
  · right
    have leading := head?_digitsBelow (number + 1) number (by omega) positive
    cases written : digits number with
    | nil => exact absurd written (digits_ne_nil number)
    | cons first rest =>
        refine ⟨first, rest, rfl, ?_⟩
        rintro rfl
        rw [digits] at written
        rw [written] at leading
        exact leading rfl

end RsaAudit.Decimal

namespace RsaAudit.Json

open Decimal (Digit)

namespace Lexing

/-- The pass is between tokens, with the given tokens found so far, last first;
the last of them may be a numeral that the next character has yet to end. -/
def Rests (lexing : Lexing) (found : List Token) : Prop :=
  lexing = ⟨found, .between⟩ ∨
    ∃ earlier stage draft, lexing = ⟨earlier, .numeral stage draft⟩ ∧
      stage.complete = true ∧ found = .number draft.ofDraft :: earlier

/-- The characters that can follow a value. -/
def FollowsValue (char : Char) : Prop :=
  char ∈ [',', ']', '\x7d'] ∨ isBlank char = true

instance (char : Char) : Decidable (FollowsValue char) :=
  inferInstanceAs (Decidable (char ∈ [',', ']', '\x7d'] ∨ isBlank char = true))

theorem extend_of_followsValue {char : Char} (follows : FollowsValue char)
    (stage : NumeralStage) (draft : Numeral) :
    stage.extend draft char = none ∧ Digit.ofChar? char = none := by
  simp only [FollowsValue, isBlank, List.mem_cons, List.not_mem_nil, or_false,
    decide_eq_true_eq] at follows
  rcases follows with (rfl | rfl | rfl) | rfl | rfl | rfl | rfl <;> exact ⟨rfl, rfl⟩

theorem Rests.step {lexing : Lexing} {found : List Token}
    (rests : lexing.Rests found) {char : Char} (follows : FollowsValue char) :
    lexing.step char = Lexing.stepBetween ⟨found, .between⟩ char := by
  rcases rests with rfl | ⟨earlier, stage, draft, rfl, complete, rfl⟩
  · rfl
  · -- The character ends the numeral and is then looked at as any other.
    obtain ⟨ended, noDigit⟩ := extend_of_followsValue follows stage draft
    have noLeadingZero : ¬ (stage = .zero ∧ (Digit.ofChar? char).isSome = true) := by
      rw [noDigit]
      rintro ⟨-, impossible⟩
      cases impossible
    change stepNumeral ⟨earlier, .numeral stage draft⟩ stage draft char = _
    unfold stepNumeral
    rw [ended]
    dsimp only
    rw [if_neg noLeadingZero, if_pos complete]
    rfl

theorem Rests.step_comma {lexing : Lexing} {found : List Token}
    (rests : lexing.Rests found) :
    lexing.step ',' = ⟨.comma :: found, .between⟩ :=
  rests.step (by decide)

theorem Rests.step_rightBracket {lexing : Lexing} {found : List Token}
    (rests : lexing.Rests found) :
    lexing.step ']' = ⟨.rightBracket :: found, .between⟩ :=
  rests.step (by decide)

theorem Rests.step_rightBrace {lexing : Lexing} {found : List Token}
    (rests : lexing.Rests found) :
    lexing.step '\x7d' = ⟨.rightBrace :: found, .between⟩ :=
  rests.step (by decide)

theorem Rests.finish {lexing : Lexing} {found : List Token}
    (rests : lexing.Rests found) : lexing.finish = found.reverse := by
  rcases rests with rfl | ⟨earlier, stage, draft, rfl, complete, rfl⟩
  · rfl
  · simp [Lexing.finish, complete, emit]

end Lexing

/-! ## Strings -/

namespace Lexing

theorem step_plain (found : List Token) (draft : TextDraft) {char : Char}
    (noQuote : char ≠ '"') (noBackslash : char ≠ '\\') (shown : ¬ char < ' ') :
    Lexing.step ⟨found, .text .plain draft⟩ char =
      ⟨found, .text .plain (draft.push char)⟩ := by
  change stepText ⟨found, .text .plain draft⟩ .plain draft char = _
  unfold stepText
  dsimp only
  rw [if_neg noQuote, if_neg noBackslash, if_neg shown]
  rfl

theorem step_hex (found : List Token) (draft : TextDraft) (missing value : Nat)
    {char : Char} {digit : Nat} (read : hexDigit? char = some digit) :
    Lexing.step ⟨found, .text (.hex missing value) draft⟩ char =
      if missing ≤ 1 then ⟨found, .text .plain (draft.pushUnit (16 * value + digit))⟩
      else ⟨found, .text (.hex (missing - 1) (16 * value + digit)) draft⟩ := by
  change stepText ⟨found, .text (.hex missing value) draft⟩ (.hex missing value) draft
    char = _
  unfold stepText
  dsimp only
  rw [read]
  rfl

end Lexing

/-- What one piece of a string stands for: a character, or a 16-bit code unit. -/
inductive TextPiece where
  | single (char : Char)
  | unit (value : Nat)

namespace TextPiece

/-- How a piece can be written. -/
inductive SpelledBy : TextPiece → List Char → Prop
  | plain {char : Char} (noQuote : char ≠ '"') (noBackslash : char ≠ '\\')
      (shown : ¬ char < ' ') : SpelledBy (.single char) [char]
  | letter {letter char : Char} (meant : escaped? letter = some char) :
      SpelledBy (.single char) ['\\', letter]
  | hex {first second third fourth : Char} {a b c d : Nat}
      (ofFirst : hexDigit? first = some a) (ofSecond : hexDigit? second = some b)
      (ofThird : hexDigit? third = some c) (ofFourth : hexDigit? fourth = some d) :
      SpelledBy (.unit (16 * (16 * (16 * a + b) + c) + d))
        ['\\', 'u', first, second, third, fourth]

/-- The first half of a surrogate pair. -/
def IsLead (unit : Nat) : Prop :=
  0xD800 ≤ unit ∧ unit ≤ 0xDBFF

/-- The second half of a surrogate pair. -/
def IsTrail (unit : Nat) : Prop :=
  0xDC00 ≤ unit ∧ unit ≤ 0xDFFF

instance (unit : Nat) : Decidable (IsLead unit) :=
  inferInstanceAs (Decidable (_ ∧ _))

instance (unit : Nat) : Decidable (IsTrail unit) :=
  inferInstanceAs (Decidable (_ ∧ _))

/-- The character of a surrogate pair. -/
def joined (lead trail : Nat) : Char :=
  Char.ofNat (0x10000 + (lead - 0xD800) * 0x400 + (trail - 0xDC00))

/-- The characters that pieces stand for; `none` if half of a pair stands alone. -/
def decode : List TextPiece → Option (List Char)
  | [] => some []
  | .single char :: rest => (decode rest).map (char :: ·)
  | [.unit value] =>
      if IsLead value ∨ IsTrail value then none else some [Char.ofNat value]
  | .unit value :: .single next :: rest =>
      if IsLead value ∨ IsTrail value then none
      else (decode (.single next :: rest)).map (Char.ofNat value :: ·)
  | .unit value :: .unit next :: rest =>
      if IsTrail value then none
      else if IsLead value then
        if IsTrail next then (decode rest).map (joined value next :: ·) else none
      else (decode (.unit next :: rest)).map (Char.ofNat value :: ·)

/-- The content of a string after one more piece. -/
def addTo (draft : TextDraft) : TextPiece → TextDraft
  | .single char => draft.push char
  | .unit value => draft.pushUnit value

theorem run_spelledBy {piece : TextPiece} {chars : List Char}
    (spelled : piece.SpelledBy chars) (found : List Token) (draft : TextDraft) :
    chars.foldl Lexing.step ⟨found, .text .plain draft⟩ =
      ⟨found, .text .plain (piece.addTo draft)⟩ := by
  cases spelled with
  | plain noQuote noBackslash shown =>
      exact Lexing.step_plain found draft noQuote noBackslash shown
  | @letter letter char meant =>
      have notHex : letter ≠ 'u' := by
        rintro rfl
        cases meant
      change Lexing.stepText ⟨found, .text .escape draft⟩ .escape draft letter = _
      unfold Lexing.stepText
      dsimp only
      rw [if_neg notHex, meant]
      rfl
  | @hex first second third fourth a b c d ofFirst ofSecond ofThird ofFourth =>
      have opened : ['\\', 'u'].foldl Lexing.step ⟨found, .text .plain draft⟩ =
          ⟨found, .text (.hex 4 0) draft⟩ := rfl
      change [first, second, third, fourth].foldl Lexing.step
        (['\\', 'u'].foldl Lexing.step ⟨found, .text .plain draft⟩) = _
      rw [opened, List.foldl_cons, Lexing.step_hex _ _ _ _ ofFirst, if_neg (by omega),
        List.foldl_cons, Lexing.step_hex _ _ _ _ ofSecond, if_neg (by omega),
        List.foldl_cons, Lexing.step_hex _ _ _ _ ofThird, if_neg (by omega),
        List.foldl_cons, Lexing.step_hex _ _ _ _ ofFourth, if_pos (by omega)]
      simp [addTo]

theorem decode_unit {value : Nat} (noTrail : ¬ IsTrail value) (noLead : ¬ IsLead value)
    (rest : List TextPiece) :
    decode (.unit value :: rest) = (decode rest).map (Char.ofNat value :: ·) := by
  match rest with
  | [] => simp [decode, noTrail, noLead]
  | .single next :: later => simp [decode, noTrail, noLead]
  | .unit next :: later => rw [decode, if_neg noTrail, if_neg noLead]

theorem decode_trail {value : Nat} (isTrail : IsTrail value) (rest : List TextPiece) :
    decode (.unit value :: rest) = none := by
  match rest with
  | [] => rw [decode, if_pos (.inr isTrail)]
  | .single next :: later => rw [decode, if_pos (.inr isTrail)]
  | .unit next :: later => rw [decode, if_pos isTrail]

theorem decode_unpaired {lead value : Nat} (isLead : IsLead lead)
    (noTrail : ¬ IsTrail value) (rest : List TextPiece) :
    decode (.unit lead :: .unit value :: rest) = none := by
  have leadNoTrail : ¬ IsTrail lead := by
    unfold IsLead at isLead
    unfold IsTrail
    omega
  rw [decode, if_neg leadNoTrail, if_pos isLead, if_neg noTrail]

theorem decode_paired {lead trail : Nat} (isLead : IsLead lead) (isTrail : IsTrail trail)
    (rest : List TextPiece) :
    decode (.unit lead :: .unit trail :: rest) =
      (decode rest).map (joined lead trail :: ·) := by
  have leadNoTrail : ¬ IsTrail lead := by
    unfold IsLead at isLead
    unfold IsTrail
    omega
  rw [decode, if_neg leadNoTrail, if_pos isLead, if_pos isTrail]

theorem pushUnit_trail {value : Nat} (isTrail : IsTrail value) (chars : List Char)
    (pending : Option Nat) (paired : Bool) :
    TextDraft.pushUnit ⟨chars, pending, paired⟩ value =
      ⟨pending.toList.map (joined · value) ++ chars, none, paired && pending.isSome⟩ := by
  have range : 0xDC00 ≤ value ∧ value ≤ 0xDFFF := isTrail
  rw [TextDraft.pushUnit, if_pos range]
  cases pending <;> simp [joined]

theorem pushUnit_lead {value : Nat} (isLead : IsLead value) (chars : List Char)
    (pending : Option Nat) (paired : Bool) :
    TextDraft.pushUnit ⟨chars, pending, paired⟩ value =
      ⟨chars, some value, paired && pending.isNone⟩ := by
  have range : 0xD800 ≤ value ∧ value ≤ 0xDBFF := isLead
  rw [TextDraft.pushUnit, if_neg (by omega), if_pos range]
  rfl

theorem pushUnit_single {value : Nat} (noTrail : ¬ IsTrail value) (noLead : ¬ IsLead value)
    (draft : TextDraft) : draft.pushUnit value = draft.push (Char.ofNat value) := by
  have outside : ¬ (0xDC00 ≤ value ∧ value ≤ 0xDFFF) := noTrail
  have below : ¬ (0xD800 ≤ value ∧ value ≤ 0xDBFF) := noLead
  rw [TextDraft.pushUnit, if_neg outside, if_neg below]

/-- The content of a string is what its pieces stand for. -/
theorem content_foldl_addTo (chars : List Char) (pending : Option Nat) (paired : Bool)
    (pieces : List TextPiece) (leads : ∀ unit ∈ pending, IsLead unit) :
    (pieces.foldl addTo ⟨chars, pending, paired⟩).content =
      if paired then
        (decode (pending.toList.map .unit ++ pieces)).map
          fun more => String.ofList (chars.reverse ++ more)
      else none := by
  induction pieces generalizing chars pending paired with
  | nil =>
      cases pending with
      | none => cases paired <;> simp [TextDraft.content, TextDraft.settle, decode]
      | some lead => simp [TextDraft.content, TextDraft.settle, decode, leads lead rfl]
  | cons piece rest ih =>
      -- What waits is settled by the next piece, whatever it is.
      have pushed (char : Char) := ih (char :: chars) none (paired && pending.isNone) (by simp)
      rw [List.foldl_cons]
      cases piece with
      | single char =>
          rw [addTo, TextDraft.push, TextDraft.settle, pushed]
          cases pending with
          | none => simp [decode, Function.comp_def]
          | some lead => simp [decode, leads lead rfl]
      | unit value =>
          rw [addTo]
          by_cases isTrail : IsTrail value
          · rw [pushUnit_trail isTrail, ih _ _ _ (by simp)]
            cases pending with
            | none => simp [decode_trail isTrail]
            | some lead =>
                simp [decode_paired (leads lead rfl) isTrail, Function.comp_def]
          by_cases isLead : IsLead value
          · rw [pushUnit_lead isLead, ih _ _ _ (by simpa using isLead)]
            cases pending with
            | none => simp
            | some lead => simp [decode_unpaired (leads lead rfl) isTrail]
          · rw [pushUnit_single isTrail isLead, TextDraft.push, TextDraft.settle, pushed]
            cases pending with
            | none => simp [decode_unit isTrail isLead, Function.comp_def]
            | some lead => simp [decode_unpaired (leads lead rfl) isTrail]

end TextPiece

/-- A string with the given content, between quotes. -/
def TextSpelledBy (content : Option String) (chars : List Char) : Prop :=
  ∃ (pieces : List TextPiece) (spellings : List (List Char)),
    List.Forall₂ TextPiece.SpelledBy pieces spellings ∧
      chars = '"' :: spellings.flatten ++ ['"'] ∧
      content = (TextPiece.decode pieces).map String.ofList

theorem run_textSpelledBy {content : Option String} {chars : List Char}
    (spelled : TextSpelledBy content chars) (found : List Token) :
    chars.foldl Lexing.step ⟨found, .between⟩ = ⟨.text content :: found, .between⟩ := by
  obtain ⟨pieces, spellings, each, rfl, rfl⟩ := spelled
  have inside (draft : TextDraft) : spellings.flatten.foldl Lexing.step
      ⟨found, .text .plain draft⟩ =
        ⟨found, .text .plain (pieces.foldl TextPiece.addTo draft)⟩ := by
    induction each generalizing draft with
    | nil => rfl
    | cons first _ ih =>
        rw [List.flatten_cons, List.foldl_append, TextPiece.run_spelledBy first, ih,
          List.foldl_cons]
  have content : (pieces.foldl TextPiece.addTo .start).content =
      (TextPiece.decode pieces).map String.ofList :=
    TextPiece.content_foldl_addTo [] none true pieces (by simp)
  change (spellings.flatten ++ ['"']).foldl Lexing.step ⟨found, .text .plain .start⟩ = _
  rw [List.foldl_append, inside, ← content]
  rfl

/-! ## Numerals -/

/-- The digits after the point, with the point. -/
inductive FractionSpelledBy : List Digit → List Char → Prop
  | none : FractionSpelledBy [] []
  | some {digits : List Digit} (nonempty : digits ≠ []) :
      FractionSpelledBy digits ('.' :: digits.map Digit.toChar)

/-- The exponent, with its mark and its sign. -/
inductive ExponentSpelledBy : Option (Bool × List Digit) → List Char → Prop
  | none : ExponentSpelledBy none []
  | unsigned {digits : List Digit} {mark : Char} (isMark : mark = 'e' ∨ mark = 'E')
      (nonempty : digits ≠ []) :
      ExponentSpelledBy (some (false, digits)) (mark :: digits.map Digit.toChar)
  | signed {negative : Bool} {digits : List Digit} {mark : Char}
      (isMark : mark = 'e' ∨ mark = 'E') (nonempty : digits ≠ []) :
      ExponentSpelledBy (some (negative, digits))
        (mark :: (if negative then '-' else '+') :: digits.map Digit.toChar)

/-- How a numeral is written; its digits before the point start with zero only if
nothing follows it. -/
def Numeral.SpelledBy (numeral : Numeral) (chars : List Char) : Prop :=
  (numeral.whole = [0] ∨ ∃ first rest, numeral.whole = first :: rest ∧ first ≠ 0) ∧
    ∃ fraction exponent,
      FractionSpelledBy numeral.fraction fraction ∧
        ExponentSpelledBy numeral.exponent exponent ∧
        chars = (if numeral.negative then ['-'] else []) ++ numeral.whole.map Digit.toChar ++
          fraction ++ exponent

namespace Lexing

def firstStage (digit : Digit) : NumeralStage :=
  if digit = 0 then .zero else .whole

theorem step_first_digit (found : List Token) (digit : Digit) :
    Lexing.step ⟨found, .between⟩ digit.toChar =
      ⟨found, .numeral (firstStage digit) ⟨false, [digit], [], none⟩⟩ := by
  fin_cases digit <;> rfl

theorem step_first_digit_negative (found : List Token) (digit : Digit) :
    Lexing.step ⟨found, .numeral .sign ⟨true, [], [], none⟩⟩ digit.toChar =
      ⟨found, .numeral (firstStage digit) ⟨true, [digit], [], none⟩⟩ := by
  fin_cases digit <;> rfl

theorem step_extend {stage next : NumeralStage} {draft longer : Numeral} {char : Char}
    (extended : stage.extend draft char = some (next, longer)) (found : List Token) :
    Lexing.step ⟨found, .numeral stage draft⟩ char = ⟨found, .numeral next longer⟩ := by
  change stepNumeral ⟨found, .numeral stage draft⟩ stage draft char = _
  unfold stepNumeral
  rw [extended]
  rfl

theorem ofChar?_toChar (digit : Digit) : Digit.ofChar? digit.toChar = some digit := by
  fin_cases digit <;> rfl

/-- Where digits are collected, all of a row are. -/
theorem run_digits {stage : NumeralStage} (draft : List Digit → Numeral)
    (one : ∀ before digit,
      stage.extend (draft before) digit.toChar = some (stage, draft (digit :: before)))
    (found : List Token) (digits before : List Digit) :
    (digits.map Digit.toChar).foldl Lexing.step ⟨found, .numeral stage (draft before)⟩ =
      ⟨found, .numeral stage (draft (digits.reverse ++ before))⟩ := by
  induction digits generalizing before with
  | nil => rfl
  | cons digit rest ih =>
      rw [List.map_cons, List.foldl_cons, step_extend (one before digit), ih]
      simp

theorem run_whole_digits (found : List Token) (negative : Bool) (digits before : List Digit) :
    (digits.map Digit.toChar).foldl Lexing.step
        ⟨found, .numeral .whole ⟨negative, before, [], none⟩⟩ =
      ⟨found, .numeral .whole ⟨negative, digits.reverse ++ before, [], none⟩⟩ := by
  have one (before : List Digit) (digit : Digit) :
      NumeralStage.whole.extend ⟨negative, before, [], none⟩ digit.toChar =
        some (.whole, ⟨negative, digit :: before, [], none⟩) := by
    unfold NumeralStage.extend
    rw [ofChar?_toChar]
  exact run_digits (⟨negative, ·, [], none⟩) one found digits before

/-- The stages in which a numeral has no exponent yet and may end. -/
def BeforeExponent (stage : NumeralStage) : Prop :=
  stage = .zero ∨ stage = .whole ∨ stage = .fraction

theorem run_fraction {digits : List Digit} {chars : List Char}
    (spelled : FractionSpelledBy digits chars) {stage : NumeralStage}
    (noPoint : stage = .zero ∨ stage = .whole) (found : List Token) (negative : Bool)
    (whole : List Digit) :
    ∃ next, BeforeExponent next ∧
      chars.foldl Lexing.step ⟨found, .numeral stage ⟨negative, whole, [], none⟩⟩ =
        ⟨found, .numeral next ⟨negative, whole, digits.reverse, none⟩⟩ := by
  cases spelled with
  | none => exact ⟨stage, noPoint.imp_right .inl, rfl⟩
  | some nonempty =>
      obtain ⟨first, rest, rfl⟩ := List.exists_cons_of_ne_nil nonempty
      have point : stage.extend ⟨negative, whole, [], none⟩ '.' =
          some (.point, ⟨negative, whole, [], none⟩) := by
        rcases noPoint with rfl | rfl <;> rfl
      have opened : NumeralStage.point.extend ⟨negative, whole, [], none⟩ first.toChar =
          some (.fraction, ⟨negative, whole, [first], none⟩) := by
        unfold NumeralStage.extend
        rw [ofChar?_toChar]
      have one (before : List Digit) (digit : Digit) :
          NumeralStage.fraction.extend ⟨negative, whole, before, none⟩ digit.toChar =
            some (.fraction, ⟨negative, whole, digit :: before, none⟩) := by
        unfold NumeralStage.extend
        rw [ofChar?_toChar]
      refine ⟨.fraction, .inr (.inr rfl), ?_⟩
      rw [List.foldl_cons, step_extend point, List.map_cons, List.foldl_cons,
        step_extend opened, run_digits (⟨negative, whole, ·, none⟩) one]
      simp

theorem run_exponent {exponent : Option (Bool × List Digit)} {chars : List Char}
    (spelled : ExponentSpelledBy exponent chars) {stage : NumeralStage}
    (before : BeforeExponent stage) (found : List Token) (negative : Bool)
    (whole fraction : List Digit) :
    ∃ next : NumeralStage, next.complete = true ∧
      chars.foldl Lexing.step ⟨found, .numeral stage ⟨negative, whole, fraction, none⟩⟩ =
        ⟨found, .numeral next ⟨negative, whole, fraction,
          exponent.map fun (minus, digits) => (minus, digits.reverse)⟩⟩ := by
  have marked {mark : Char} (isMark : mark = 'e' ∨ mark = 'E') :
      stage.extend ⟨negative, whole, fraction, none⟩ mark =
        some (.exponentMark, ⟨negative, whole, fraction, some (false, [])⟩) := by
    rcases before with rfl | rfl | rfl <;> rcases isMark with rfl | rfl <;> rfl
  have one (minus : Bool) (before : List Digit) (digit : Digit) :
      NumeralStage.exponent.extend ⟨negative, whole, fraction, some (minus, before)⟩
          digit.toChar =
        some (.exponent, ⟨negative, whole, fraction, some (minus, digit :: before)⟩) := by
    unfold NumeralStage.extend
    rw [ofChar?_toChar]
    rfl
  have opened {stage : NumeralStage} (awaits : stage = .exponentMark ∨ stage = .exponentSign)
      (minus : Bool) (digit : Digit) :
      stage.extend ⟨negative, whole, fraction, some (minus, [])⟩ digit.toChar =
        some (.exponent, ⟨negative, whole, fraction, some (minus, [digit])⟩) := by
    unfold NumeralStage.extend
    rw [ofChar?_toChar]
    rcases awaits with rfl | rfl <;> rfl
  cases spelled with
  | none =>
      refine ⟨stage, ?_, rfl⟩
      rcases before with rfl | rfl | rfl <;> rfl
  | @unsigned digits mark isMark nonempty =>
      obtain ⟨first, rest, rfl⟩ := List.exists_cons_of_ne_nil nonempty
      refine ⟨.exponent, rfl, ?_⟩
      rw [List.foldl_cons, step_extend (marked isMark), List.map_cons, List.foldl_cons,
        step_extend (opened (.inl rfl) false first),
        run_digits (fun digits => ⟨negative, whole, fraction, some (false, digits)⟩)
          (one false)]
      simp
  | @signed minus digits mark isMark nonempty =>
      obtain ⟨first, rest, rfl⟩ := List.exists_cons_of_ne_nil nonempty
      have signed : NumeralStage.exponentMark.extend
          ⟨negative, whole, fraction, some (false, [])⟩ (if minus then '-' else '+') =
            some (.exponentSign, ⟨negative, whole, fraction, some (minus, [])⟩) := by
        cases minus <;> rfl
      refine ⟨.exponent, rfl, ?_⟩
      rw [List.foldl_cons, step_extend (marked isMark), List.foldl_cons, step_extend signed,
        List.map_cons, List.foldl_cons, step_extend (opened (.inr rfl) minus first),
        run_digits (fun digits => ⟨negative, whole, fraction, some (minus, digits)⟩)
          (one minus)]
      simp

/-- After the digits before the point, whatever the sign. -/
theorem run_whole {numeral : Numeral}
    (proper : numeral.whole = [0] ∨ ∃ first rest, numeral.whole = first :: rest ∧ first ≠ 0)
    (found : List Token) :
    ∃ stage, (stage = NumeralStage.zero ∨ stage = .whole) ∧
      ((if numeral.negative then ['-'] else []) ++
          numeral.whole.map Digit.toChar).foldl Lexing.step ⟨found, .between⟩ =
        ⟨found, .numeral stage ⟨numeral.negative, numeral.whole.reverse, [], none⟩⟩ := by
  obtain ⟨signed, afterSign, first⟩ : ∃ signed,
      (if numeral.negative then ['-'] else []).foldl Lexing.step ⟨found, .between⟩ = signed ∧
        ∀ digit : Digit, signed.step digit.toChar =
          ⟨found, .numeral (firstStage digit) ⟨numeral.negative, [digit], [], none⟩⟩ := by
    cases numeral.negative with
    | false => exact ⟨_, rfl, step_first_digit found⟩
    | true => exact ⟨_, rfl, step_first_digit_negative found⟩
  rw [List.foldl_append, afterSign]
  rcases proper with zero | ⟨digit, rest, written, nonzero⟩
  · rw [zero]
    exact ⟨.zero, .inl rfl, first 0⟩
  · refine ⟨.whole, .inr rfl, ?_⟩
    rw [written, List.map_cons, List.foldl_cons, first, firstStage, if_neg nonzero,
      run_whole_digits]
    simp

theorem rests_numeral {numeral : Numeral} {chars : List Char}
    (spelled : numeral.SpelledBy chars) (found : List Token) :
    (chars.foldl Lexing.step ⟨found, .between⟩).Rests (.number numeral :: found) := by
  obtain ⟨proper, fraction, exponent, ofFraction, ofExponent, rfl⟩ := spelled
  obtain ⟨stage, noPoint, afterWhole⟩ := run_whole proper found
  obtain ⟨later, before, afterFraction⟩ :=
    run_fraction ofFraction noPoint found numeral.negative numeral.whole.reverse
  obtain ⟨last, complete, afterExponent⟩ :=
    run_exponent ofExponent before found numeral.negative numeral.whole.reverse
      numeral.fraction.reverse
  rw [List.foldl_append, List.foldl_append, afterWhole, afterFraction, afterExponent]
  refine .inr ⟨found, last, _, rfl, complete, ?_⟩
  cases numeral with
  | mk negative whole fraction exponent =>
      cases exponent <;> simp [Numeral.ofDraft]

end Lexing

/-! ## Tokens -/

inductive Token.SpelledBy : Token → List Char → Prop
  | leftBracket : SpelledBy .leftBracket ['[']
  | rightBracket : SpelledBy .rightBracket [']']
  | leftBrace : SpelledBy .leftBrace ['\x7b']
  | rightBrace : SpelledBy .rightBrace ['\x7d']
  | comma : SpelledBy .comma [',']
  | colon : SpelledBy .colon [':']
  | null : SpelledBy .null "null".toList
  | bool (value : Bool) : SpelledBy (.bool value) (spellBool value)
  | number {numeral : Numeral} {chars : List Char} (spelled : numeral.SpelledBy chars) :
      SpelledBy (.number numeral) chars
  | text {content : Option String} {chars : List Char}
      (spelled : TextSpelledBy content chars) : SpelledBy (.text content) chars

/-- How a row of tokens is written, with any white space before, between and after
them. -/
inductive SpelledBy : List Token → List Char → Prop
  | done {blanks : List Char} (areBlank : ∀ char ∈ blanks, isBlank char = true) :
      SpelledBy [] blanks
  | token {token : Token} {tokens : List Token} {blanks chars rest : List Char}
      (areBlank : ∀ char ∈ blanks, isBlank char = true) (first : token.SpelledBy chars)
      (later : SpelledBy tokens rest) :
      SpelledBy (token :: tokens) (blanks ++ chars ++ rest)

/-- Whether a token is a number, which only the next character ends. -/
def Token.isNumber : Token → Bool
  | .number _ => true
  | _ => false

/-- A comma, or the end of a list or an object. -/
def Token.Closes (token : Token) : Prop :=
  token = .comma ∨ token = .rightBracket ∨ token = .rightBrace

/-- After a number comes a comma or the end of a list or an object. -/
def Token.Separates (first second : Token) : Prop :=
  first.isNumber = true → second.Closes

namespace Lexing

theorem Rests.run_blanks {lexing : Lexing} {found : List Token}
    (rests : lexing.Rests found) {blanks : List Char}
    (areBlank : ∀ char ∈ blanks, isBlank char = true) :
    (blanks.foldl Lexing.step lexing).Rests found := by
  induction blanks generalizing lexing with
  | nil => exact rests
  | cons char rest ih =>
      obtain ⟨blank, later⟩ := List.forall_mem_cons.mp areBlank
      have stays : stepBetween ⟨found, .between⟩ char = ⟨found, .between⟩ := if_pos blank
      rw [List.foldl_cons, rests.step (.inr blank), stays]
      exact ih (.inl rfl) later

theorem rests_token {token : Token} {chars : List Char} (spelled : token.SpelledBy chars)
    (found : List Token) :
    (chars.foldl Lexing.step ⟨found, .between⟩).Rests (token :: found) := by
  cases spelled with
  | number spelled => exact rests_numeral spelled found
  | text spelled => exact .inl (run_textSpelledBy spelled found)
  | bool value => cases value <;> exact .inl rfl
  | _ => exact .inl rfl

/-- A token is found after any other that it may follow. -/
theorem Rests.run_token {lexing : Lexing} {found : List Token} (rests : lexing.Rests found)
    {token : Token} {chars : List Char} (spelled : token.SpelledBy chars)
    (separates : ∀ last ∈ found.head?, last.Separates token) :
    (chars.foldl Lexing.step lexing).Rests (token :: found) := by
  rcases rests with rfl | ⟨earlier, stage, draft, rfl, complete, rfl⟩
  · exact rests_token spelled found
  · have rests : Lexing.Rests ⟨earlier, .numeral stage draft⟩
        (.number draft.ofDraft :: earlier) :=
      .inr ⟨earlier, stage, draft, rfl, complete, rfl⟩
    rcases separates _ rfl rfl with rfl | rfl | rfl
    · cases spelled
      exact .inl rests.step_comma
    · cases spelled
      exact .inl rests.step_rightBracket
    · cases spelled
      exact .inl rests.step_rightBrace

theorem Rests.run_tokens {tokens : List Token} {chars : List Char}
    (spelled : SpelledBy tokens chars) {lexing : Lexing} {found : List Token}
    (rests : lexing.Rests found)
    (separated : (found.head?.toList ++ tokens).IsChain Token.Separates) :
    (chars.foldl Lexing.step lexing).Rests (tokens.reverse ++ found) := by
  induction spelled generalizing lexing found with
  | done areBlank => exact rests.run_blanks areBlank
  | @token token tokens blanks chars rest areBlank first later ih =>
      have chain : (∀ last ∈ found.head?, last.Separates token) ∧
          (token :: tokens).IsChain Token.Separates := by
        cases found with
        | nil => exact ⟨by simp, separated⟩
        | cons last earlier =>
            obtain ⟨here, further⟩ := List.isChain_cons_cons.mp separated
            exact ⟨by simpa using here, further⟩
      have next := (rests.run_blanks areBlank).run_token first chain.1
      rw [List.foldl_append, List.foldl_append, List.reverse_cons, List.append_assoc]
      exact ih next chain.2

end Lexing

end RsaAudit.Json
