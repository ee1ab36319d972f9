import RsaAudit.Text.Graphic

/-!
# Quoted text

A text is shown between double quotes.  The quote, the backslash and the common
control characters are written with a backslash; any other character that does
not show as itself is written by its hexadecimal code point.
-/

namespace RsaAudit.Quoted

/-- The hexadecimal digits of a code point, in lower case. -/
def codePoint (char : Char) : List Char :=
  ['\\', 'u', '\x7b'] ++ Nat.toDigits 16 char.toNat ++ ['\x7d']

def encodeChar (char : Char) : List Char :=
  if char = '\x00' then ['\\', '0']
  else if char = '\t' then ['\\', 't']
  else if char = '\r' then ['\\', 'r']
  else if char = '\n' then ['\\', 'n']
  else if char = '"' then ['\\', '"']
  else if char = '\\' then ['\\', '\\']
  else if Graphic.shows char then [char]
  else codePoint char

def encode (text : String) : String :=
  String.ofList ('"' :: text.toList.flatMap encodeChar ++ ['"'])

end RsaAudit.Quoted
