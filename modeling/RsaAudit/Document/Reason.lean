/-!
# Why a document is refused

A document that cannot be read is refused for the first problem in the order of
its text.  Problems of meaning are told apart; everything that is wrong with the
form of the text is one reason.
-/

namespace RsaAudit

/-- Why a document cannot be read. -/
inductive Reason where
  | missingField (name : String)
  | duplicateField (name : String)
  | unknownVariant (found : String) (expected : List String)
  /-- A value of another type than the one wanted. -/
  | invalidType
  /-- A value of the right type that is out of range. -/
  | invalidValue
  /-- A list with too few or too many items. -/
  | invalidLength
  /-- The text is not well formed. -/
  | malformed
  deriving DecidableEq

namespace Reason

/-- A name between backquotes. -/
def quote (name : String) : String :=
  "`" ++ name ++ "`"

def alternatives : List String → String
  | [] => "nothing"
  | [only] => quote only
  | [first, second] => quote first ++ " or " ++ quote second
  | names => "one of " ++ String.intercalate ", " (names.map quote)

def message : Reason → String
  | .missingField name => "missing field " ++ quote name
  | .duplicateField name => "duplicate field " ++ quote name
  | .unknownVariant found expected =>
      "unknown variant " ++ quote found ++ ", expected " ++ alternatives expected
  | .invalidType => "invalid type"
  | .invalidValue => "invalid value"
  | .invalidLength => "invalid length"
  | .malformed => "syntax"

end Reason

end RsaAudit
