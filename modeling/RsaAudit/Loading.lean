import RsaAudit.Document.Policy
import RsaAudit.Document.Program
import RsaAudit.Files.Discovery
import RsaAudit.Json.Readable
import RsaAudit.Yaml.Readable

/-!
# Loading programs and policies

The extension of a path tells the format of a document.  A program that does not
name its source gets the path of its document as its source; a policy has to be
free of defects.
-/

namespace RsaAudit

/-- Read a record from a text in the given format. -/
def DocumentFormat.read {Record : Type} (format : DocumentFormat)
    (shape : {Read : Type → Type} → {Node : Type} → [Monad Read] →
      [MonadExceptOf Reason Read] → [Readable Read Node] → Shape Read Node Record)
    (content : String) : Except Reason Record :=
  match format with
  | .json => do
      let document := Json.Document.parse content
      let record ← Shape.read shape document.root
      if document.ended then return record else throw .malformed
  | .yaml => do
      let document := Yaml.Document.parse content
      let root : Yaml.View := ⟨document.root, document⟩
      let (record, _) ← (Shape.read shape root).run 0
      if document.ended then return record else throw .malformed

/-- Why a program cannot be loaded. -/
inductive LoadError where
  | notFound (path : String)
  | unsupportedFormat (extension : String)
  | unreadable (path : String) (cause : FileError)
  | unparsable (label : String) (reason : Reason)
  deriving DecidableEq

def LoadError.message : LoadError → String
  | .notFound path => "file not found: " ++ path
  | .unsupportedFormat extension =>
      "unsupported IR format: " ++ extension ++ " (expected json or yaml)"
  | .unreadable path cause => "failed to read file '" ++ path ++ "': " ++ cause.message
  | .unparsable label reason =>
      "failed to parse IR document '" ++ label ++ "': " ++ reason.message

namespace Program

/-- The program in a text; the label is its source if the text names none. -/
def parse (format : DocumentFormat) (label content : String) :
    Except LoadError Program :=
  match format.read Program.shape content with
  | .ok program => .ok (program.withDefaultSource label)
  | .error reason => .error (.unparsable label reason)

def load (view : FileView) (path : String) : Except LoadError Program :=
  match view path with
  | .error _ => .error (.notFound path)
  | .ok entry =>
      match DocumentFormat.ofPath path with
      | none => .error (.unsupportedFormat ((Path.extension? path).getD ""))
      | some format =>
          match entry.read with
          | .error cause => .error (.unreadable path cause)
          | .ok content => parse format path content

end Program

/-- Why a policy cannot be loaded. -/
inductive PolicyError where
  | unreadable (path : String) (cause : FileError)
  | unsupportedFormat (extension : String)
  | unparsable (path : String) (reason : Reason)
  | defective (defect : Policy.Defect)
  deriving DecidableEq

def PolicyError.message : PolicyError → String
  | .unreadable path cause =>
      "failed to read config file '" ++ path ++ "': " ++ cause.message
  | .unsupportedFormat extension =>
      "unsupported config format: " ++ extension ++ " (expected json or yaml)"
  | .unparsable path reason =>
      "failed to parse config file '" ++ path ++ "': " ++ reason.message
  | .defective defect => defect.message

namespace Policy

/-- The policy in a text from the given path. -/
def parse (format : DocumentFormat) (path content : String) :
    Except PolicyError Policy :=
  match format.read Policy.shape content with
  | .error reason => .error (.unparsable path reason)
  | .ok policy =>
      match policy.defect? with
      | some defect => .error (.defective defect)
      | none => .ok policy

def load (view : FileView) (path : String) : Except PolicyError Policy :=
  match view path >>= Entry.read with
  | .error cause => .error (.unreadable path cause)
  | .ok content =>
      let extension := (Path.extension? path).getD ""
      match DocumentFormat.ofExtension extension with
      | none => .error (.unsupportedFormat extension)
      | some format => parse format path content

end Policy

end RsaAudit
