import RsaAudit.Json.Numeral

/-!
# JSON tokens

A text is cut into tokens by one pass over its characters.  The pass keeps the
tokens found so far and what it knows of the token it is in, so the tokens of a
concatenation are found by running over its parts in turn.

A character that no token admits ends the pass: the token `junk` marks the place
and nothing follows it.
-/

namespace RsaAudit.Json

open Decimal (Digit)

/-- A lexical unit.  A text that holds an unpaired surrogate has no content. -/
inductive Token where
  | leftBracket
  | rightBracket
  | leftBrace
  | rightBrace
  | comma
  | colon
  | null
  | bool (value : Bool)
  | number (numeral : Numeral)
  | text (content : Option String)
  | junk
  deriving DecidableEq

/-- How much of a numeral has been seen. -/
inductive NumeralStage where
  | sign
  | zero
  | whole
  | point
  | fraction
  | exponentMark
  | exponentSign
  | exponent
  deriving DecidableEq

/-- A place inside a string. -/
inductive TextStage where
  /-- Between two characters of the string. -/
  | plain
  /-- After a backslash. -/
  | escape
  /-- In a hexadecimal escape, with digits to come and the value so far. -/
  | hex (missing : Nat) (value : Nat)
  deriving DecidableEq

/-- The content of a string so far, last character first. -/
structure TextDraft where
  chars : List Char
  /-- A leading surrogate that waits for its trailing one. -/
  pending : Option Nat
  /-- Whether every surrogate so far has found its partner. -/
  paired : Bool
  deriving DecidableEq

/-- What the pass is in the middle of. -/
inductive Mode where
  | between
  /-- In a keyword, with the characters still to come. -/
  | word (rest : List Char) (token : Token)
  /-- In a numeral, whose digits are kept last first. -/
  | numeral (stage : NumeralStage) (draft : Numeral)
  | text (stage : TextStage) (draft : TextDraft)
  /-- After a character that no token admits. -/
  | stopped
  deriving DecidableEq

/-- The state of the pass: tokens found, last first, and the current mode. -/
structure Lexing where
  tokens : List Token
  mode : Mode

namespace NumeralStage

/-- Whether a numeral may end at this stage. -/
def complete : NumeralStage → Bool
  | .zero | .whole | .fraction | .exponent => true
  | _ => false

/-- The numeral with one more character, or `none` if it does not belong to it. -/
def extend (stage : NumeralStage) (draft : Numeral) (char : Char) :
    Option (NumeralStage × Numeral) :=
  match Digit.ofChar? char with
  | some digit =>
      match stage with
      | .sign =>
          some (if digit.val = 0 then .zero else .whole, { draft with whole := [digit] })
      | .whole => some (.whole, { draft with whole := digit :: draft.whole })
      | .point | .fraction =>
          some (.fraction, { draft with fraction := digit :: draft.fraction })
      | .exponentMark | .exponentSign | .exponent =>
          some (.exponent, { draft with
            exponent := draft.exponent.map fun (negative, digits) =>
              (negative, digit :: digits) })
      | .zero => none
  | none =>
      if char = '.' then
        match stage with
        | .zero | .whole => some (.point, draft)
        | _ => none
      else if char = 'e' ∨ char = 'E' then
        match stage with
        | .zero | .whole | .fraction =>
            some (.exponentMark, { draft with exponent := some (false, []) })
        | _ => none
      else if char = '+' ∨ char = '-' then
        match stage with
        | .exponentMark =>
            some (.exponentSign, { draft with exponent := some (char = '-', []) })
        | _ => none
      else none

end NumeralStage

/-- The numeral whose digits a draft holds last first. -/
def Numeral.ofDraft (draft : Numeral) : Numeral where
  negative := draft.negative
  whole := draft.whole.reverse
  fraction := draft.fraction.reverse
  exponent := draft.exponent.map fun (negative, digits) => (negative, digits.reverse)

namespace TextDraft

def start : TextDraft := ⟨[], none, true⟩

/-- Note that a leading surrogate, if one waits, has not found its partner. -/
def settle (draft : TextDraft) : TextDraft :=
  { draft with pending := none, paired := draft.paired && draft.pending.isNone }

def push (draft : TextDraft) (char : Char) : TextDraft :=
  { draft.settle with chars := char :: draft.chars }

/-- One more 16-bit code unit. -/
def pushUnit (draft : TextDraft) (unit : Nat) : TextDraft :=
  if 0xDC00 ≤ unit ∧ unit ≤ 0xDFFF then
    match draft.pending with
    | some lead =>
        { draft with
          chars := Char.ofNat (0x10000 + (lead - 0xD800) * 0x400 + (unit - 0xDC00)) ::
            draft.chars
          pending := none }
    | none => { draft with paired := false }
  else if 0xD800 ≤ unit ∧ unit ≤ 0xDBFF then
    { draft.settle with pending := some unit }
  else draft.push (Char.ofNat unit)

def content (draft : TextDraft) : Option String :=
  if draft.settle.paired then some (String.ofList draft.chars.reverse) else none

end TextDraft

/-- The character that a one-letter escape stands for. -/
def escaped? (char : Char) : Option Char :=
  match char with
  | '"' => some '"'
  | '\\' => some '\\'
  | '/' => some '/'
  | 'b' => some '\x08'
  | 'f' => some '\x0c'
  | 'n' => some '\n'
  | 'r' => some '\r'
  | 't' => some '\t'
  | _ => none

/-- The value of a hexadecimal digit of either case. -/
def hexDigit? (char : Char) : Option Nat :=
  if '0' ≤ char ∧ char ≤ '9' then some (char.toNat - '0'.toNat)
  else if 'a' ≤ char ∧ char ≤ 'f' then some (char.toNat - 'a'.toNat + 10)
  else if 'A' ≤ char ∧ char ≤ 'F' then some (char.toNat - 'A'.toNat + 10)
  else none

/-- The white space of the format. -/
def isBlank (char : Char) : Bool :=
  char = ' ' ∨ char = '\t' ∨ char = '\n' ∨ char = '\r'

namespace Lexing

def start : Lexing := ⟨[], .between⟩

/-- The token just completed joins the others. -/
def emit (lexing : Lexing) (token : Token) : Lexing :=
  ⟨token :: lexing.tokens, .between⟩

def stop (lexing : Lexing) : Lexing :=
  ⟨.junk :: lexing.tokens, .stopped⟩

def enter (lexing : Lexing) (mode : Mode) : Lexing :=
  { lexing with mode }

def stepBetween (lexing : Lexing) (char : Char) : Lexing :=
  if isBlank char then lexing.enter .between
  else
    match char with
    | '[' => lexing.emit .leftBracket
    | ']' => lexing.emit .rightBracket
    | '\x7b' => lexing.emit .leftBrace
    | '\x7d' => lexing.emit .rightBrace
    | ',' => lexing.emit .comma
    | ':' => lexing.emit .colon
    | '"' => lexing.enter (.text .plain .start)
    | 'n' => lexing.enter (.word ['u', 'l', 'l'] .null)
    | 't' => lexing.enter (.word ['r', 'u', 'e'] (.bool true))
    | 'f' => lexing.enter (.word ['a', 'l', 's', 'e'] (.bool false))
    | '-' => lexing.enter (.numeral .sign ⟨true, [], [], none⟩)
    | _ =>
        match NumeralStage.sign.extend ⟨false, [], [], none⟩ char with
        | some (stage, draft) => lexing.enter (.numeral stage draft)
        | none => lexing.stop

def stepWord (lexing : Lexing) (rest : List Char) (token : Token) (char : Char) :
    Lexing :=
  match rest with
  | [] => lexing.stop
  | next :: later =>
      if char = next then
        if later.isEmpty then lexing.emit token else lexing.enter (.word later token)
      else lexing.stop

/-- A character in or right after a numeral. -/
def stepNumeral (lexing : Lexing) (stage : NumeralStage) (draft : Numeral)
    (char : Char) : Lexing :=
  match stage.extend draft char with
  | some (stage, draft) => lexing.enter (.numeral stage draft)
  | none =>
      if stage = .zero ∧ (Digit.ofChar? char).isSome then lexing.stop
      else if stage.complete then (lexing.emit (.number draft.ofDraft)).stepBetween char
      else lexing.stop

def stepText (lexing : Lexing) (stage : TextStage) (draft : TextDraft)
    (char : Char) : Lexing :=
  match stage with
  | .plain =>
      if char = '"' then lexing.emit (.text draft.content)
      else if char = '\\' then lexing.enter (.text .escape draft)
      else if char < ' ' then lexing.stop
      else lexing.enter (.text .plain (draft.push char))
  | .escape =>
      if char = 'u' then lexing.enter (.text (.hex 4 0) draft)
      else
        match escaped? char with
        | some meant => lexing.enter (.text .plain (draft.push meant))
        | none => lexing.stop
  | .hex missing value =>
      match hexDigit? char with
      | some digit =>
          let value := 16 * value + digit
          if missing ≤ 1 then lexing.enter (.text .plain (draft.pushUnit value))
          else lexing.enter (.text (.hex (missing - 1) value) draft)
      | none => lexing.stop

def step (lexing : Lexing) (char : Char) : Lexing :=
  match lexing.mode with
  | .between => lexing.stepBetween char
  | .word rest token => lexing.stepWord rest token char
  | .numeral stage draft => lexing.stepNumeral stage draft char
  | .text stage draft => lexing.stepText stage draft char
  | .stopped => lexing

/-- The tokens once the text is over; one that is not complete is junk. -/
def finish (lexing : Lexing) : List Token :=
  match lexing.mode with
  | .between | .stopped => lexing.tokens.reverse
  | .numeral stage draft =>
      if stage.complete then (lexing.emit (.number draft.ofDraft)).tokens.reverse
      else lexing.stop.tokens.reverse
  | .word _ _ | .text _ _ => lexing.stop.tokens.reverse

end Lexing

def tokenize (chars : List Char) : List Token :=
  (chars.foldl Lexing.step .start).finish

end RsaAudit.Json
