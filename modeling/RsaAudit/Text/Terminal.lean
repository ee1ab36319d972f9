import RsaAudit.Text.Quoted

/-!
# Text for a terminal

A log message may hold text from a document.  Characters that could steer the
terminal on which it is shown are written by their codes; all others stay.
-/

namespace RsaAudit.Terminal

/-- The control characters below 128 that steer a terminal: bell, backspace, form
feed, escape and delete. -/
def steering : List Char := ['\x07', '\x08', '\x0c', '\x1b', '\x7f']

def encodeChar (char : Char) : List Char :=
  let code := char.toNat
  if steering.contains char then
    ['\\', 'x', Nat.digitChar (code / 16), Nat.digitChar (code % 16)]
  else if 0x80 ≤ code ∧ code ≤ 0x9f then Quoted.codePoint char
  else [char]

/-- A text without characters that steer a terminal. -/
def encode (text : String) : String :=
  String.ofList (text.toList.flatMap encodeChar)

end RsaAudit.Terminal
