import RsaAudit.Document.Argument

/-!
# Reading programs

Programs, functions and blocks are read as they come; an instruction is read into
kept values first, since its kind may come last.
-/

namespace RsaAudit

section

variable {Read : Type → Type} {Node : Type}
  [Monad Read] [MonadExceptOf Reason Read] [Readable Read Node]

def Position.shape : Shape Read Node Position where
  fields := [
    ⟨"file", true, fun position node =>
      return { position with file := ← Readable.text node }⟩,
    ⟨"line", true, fun position node =>
      return { position with line := ← Readable.unsigned node }⟩,
    ⟨"column", true, fun position node =>
      return { position with column := ← Readable.unsigned node }⟩]
  blank := ⟨"", 0, 0⟩

def Position.read (node : Node) : Read Position :=
  Position.shape.read node

end

def Call.shape : Shape (Except Reason) Value Call where
  fields := [
    ⟨"callee", true, fun call node =>
      return { call with callee := ← Readable.text node }⟩,
    ⟨"args", false, fun call node =>
      return { call with args := ← Readable.list Argument.ofValue node }⟩,
    ⟨"position", true, fun call node =>
      return { call with position := ← Position.read node }⟩,
    ⟨"result", false, fun call node =>
      return { call with result := ← Readable.optionalText node }⟩]
  blank := ⟨"", [], ⟨"", 0, 0⟩, none⟩

namespace Instruction

inductive Kind where
  | call
  | other
  deriving DecidableEq

def Kind.variants : Variants Kind :=
  [("call", .call), ("other", .other)]

/-- The fields of an instruction that is no call. -/
def otherShape : Shape (Except Reason) Value Instruction where
  fields := [⟨"opcode", false, fun _ node => .other <$> Readable.optionalText node⟩]
  blank := .other none

/-- The instruction of a kind with the given parts. -/
def ofLayout (kind : Kind) (layout : Layout Value) : Except Reason Instruction :=
  match kind with
  | .call => .call <$> Call.shape.readLayout layout
  | .other => otherShape.readLayout layout

end Instruction

section

variable {Read : Type → Type} {Node : Type}
  [Monad Read] [MonadExceptOf Reason Read] [Readable Read Node]

def Instruction.read (node : Node) : Read Instruction := do
  let (kind, layout) ← Tagged.read Instruction.Kind.variants node
  MonadExcept.ofExcept (Instruction.ofLayout kind layout)

def Block.shape : Shape Read Node Block where
  fields := [
    ⟨"instructions", false, fun _ node =>
      return ⟨← Readable.list Instruction.read node⟩⟩]
  blank := ⟨[]⟩

def Function.shape : Shape Read Node Function where
  fields := [
    ⟨"name", true, fun function node =>
      return { function with name := ← Readable.text node }⟩,
    ⟨"blocks", false, fun function node =>
      return { function with blocks := ← Readable.list Block.shape.read node }⟩]
  blank := ⟨"", []⟩

def Program.shape : Shape Read Node Program where
  fields := [
    ⟨"source", false, fun program node =>
      return { program with source := ← Readable.optionalText node }⟩,
    ⟨"functions", false, fun program node =>
      return { program with functions := ← Readable.list Function.shape.read node }⟩]
  blank := ⟨none, []⟩

end

end RsaAudit
