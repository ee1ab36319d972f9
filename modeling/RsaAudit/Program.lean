import RsaAudit.Text.Decimal
import RsaAudit.Text.Quoted

/-!
# Programs under audit

A front end lowers source text to the shape below: a program is a list of
functions, a function a list of blocks, a block a list of instructions, and
every call instruction carries its fully qualified callee, its arguments and its
source position.  An audit only reads a program.
-/

namespace RsaAudit

/-- A place in a source file. -/
structure Position where
  file : String
  line : UInt64
  column : UInt64
  deriving DecidableEq, Inhabited

/-- A constant that a front end could determine. -/
inductive Literal where
  | int (number : Int64)
  | str (text : String)
  | bytes (content : List UInt8)
  | nil
  deriving DecidableEq, Inhabited

/-- What is known of an argument of a call. -/
inductive Argument where
  /-- A compile-time constant. -/
  | constant (value : Literal)
  /-- A conversion or interface value around another argument. -/
  | wrapped (inner : Argument)
  /-- The result of a call, or a read of a package variable. -/
  | callResult (callee : String)
  /-- Nothing is known; the origin is a remark of the front end. -/
  | unresolved (origin : Option String)
  deriving DecidableEq, Inhabited

/-- A call instruction. -/
structure Call where
  callee : String
  args : List Argument
  position : Position
  result : Option String
  deriving DecidableEq, Inhabited

/-- An instruction is a call, or anything else. -/
inductive Instruction where
  | call (made : Call)
  | other (opcode : Option String)
  deriving DecidableEq, Inhabited

/-- A straight-line run of instructions. -/
structure Block where
  instructions : List Instruction
  deriving DecidableEq, Inhabited

/-- A named list of blocks. -/
structure Function where
  name : String
  blocks : List Block
  deriving DecidableEq, Inhabited

/-- The functions of one document, with the name of what they were lowered from. -/
structure Program where
  source : Option String
  functions : List Function
  deriving DecidableEq, Inhabited

namespace Position

/-- A position is usable when it names a file and a line. -/
def valid (position : Position) : Bool :=
  position.file != "" && position.line != 0

/-- The usual `file:line:column` text. -/
def text (position : Position) : String :=
  position.file ++ ":" ++ Decimal.natText position.line.toNat ++ ":" ++
    Decimal.natText position.column.toNat

/-- Positions are ordered by file name, then line, then column. -/
def le (first second : Position) : Bool :=
  if first.file = second.file then
    if first.line = second.line then first.column ≤ second.column
    else first.line < second.line
  else first.file < second.file

def sort (positions : List Position) : List Position :=
  positions.mergeSort le

end Position

namespace Literal

def int? : Literal → Option Int64
  | .int number => some number
  | _ => none

def isNil : Literal → Bool
  | .nil => true
  | _ => false

/-- The length in bytes of a byte string, or of a text in UTF-8. -/
def byteLength? : Literal → Option Nat
  | .bytes content => some content.length
  | .str text => some text.utf8ByteSize
  | _ => none

/-- The text that shows a literal; only the length of a byte string is shown. -/
def display : Literal → String
  | .int number => Decimal.intText number.toInt
  | .str text => Quoted.encode text
  | .bytes content => "[" ++ Decimal.natText content.length ++ " bytes]"
  | .nil => "nil"

end Literal

namespace Instruction

def call? : Instruction → Option Call
  | .call made => some made
  | .other _ => none

end Instruction

namespace Function

/-- The calls of a function in block order, then instruction order. -/
def calls (function : Function) : List Call :=
  function.blocks.flatMap fun block => block.instructions.filterMap Instruction.call?

end Function

namespace Program

def callCount (program : Program) : Nat :=
  program.functions.foldl (fun total function => total + function.calls.length) 0

def withSource (program : Program) (source : String) : Program :=
  { program with source := some source }

/-- The program with its source filled in where it has none. -/
def withDefaultSource (program : Program) (label : String) : Program :=
  { program with source := some (program.source.getD label) }

end Program

end RsaAudit
