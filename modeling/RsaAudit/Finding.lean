import RsaAudit.Program

/-!
# Findings and call errors

A finding reports one insecure use of a call.  A call error reports a call that
cannot be judged, because it has no usable position or too few arguments.
-/

namespace RsaAudit

/-- One insecure use: where, what to do about it, which rule, which callee. -/
structure Finding where
  position : Position
  message : String
  rule : String
  callee : String
  deriving DecidableEq

/-- Why a call cannot be judged. -/
inductive CallError where
  | missingArgument (callee : String) (index : Nat) (position : Position)
  | invalidPosition (callee : String) (position : Position)
  deriving DecidableEq

namespace Finding

/-- A finding on one line: its position, then its message. -/
def text (finding : Finding) : String :=
  finding.position.text ++ ": " ++ finding.message

end Finding

namespace CallError

def message : CallError → String
  | .missingArgument callee index position =>
      "call to " ++ callee ++ " at " ++ position.text ++ " is missing argument " ++
        Decimal.natText index
  | .invalidPosition callee position =>
      "call to " ++ callee ++ " has an invalid source position '" ++ position.text ++ "'"

end CallError

end RsaAudit
