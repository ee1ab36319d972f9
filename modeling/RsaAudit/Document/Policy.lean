import RsaAudit.Document.Record
import RsaAudit.Policy

/-!
# Reading policies

Every setting of a policy may be left out and then has its standard value.
-/

namespace RsaAudit.Policy

variable {Read : Type → Type} {Node : Type}
  [Monad Read] [MonadExceptOf Reason Read] [Readable Read Node]

def readSymbols (node : Node) : Read SymbolSet :=
  .ofList <$> Readable.list Readable.text node

def shape : Shape Read Node Policy where
  fields := [
    ⟨"minimum_bits", false, fun policy node =>
      return { policy with minimumBits := ← Readable.signed node }⟩,
    ⟨"bit_alignment", false, fun policy node =>
      return { policy with bitAlignment := ← Readable.signed node }⟩,
    ⟨"minimum_session_key_bytes", false, fun policy node =>
      return { policy with minimumSessionKeyBytes := ← Readable.unsigned node }⟩,
    ⟨"accepted_hash_identifiers", false, fun policy node =>
      return { policy with acceptedHashIdentifiers := ← readSymbols node }⟩,
    ⟨"accepted_hash_constructors", false, fun policy node =>
      return { policy with acceptedHashConstructors := ← readSymbols node }⟩,
    ⟨"secure_source_symbols", false, fun policy node =>
      return { policy with secureSourceSymbols := ← readSymbols node }⟩,
    ⟨"parallel", false, fun policy node =>
      return { policy with parallel := ← Readable.flag node }⟩]
  blank := standard

end RsaAudit.Policy
