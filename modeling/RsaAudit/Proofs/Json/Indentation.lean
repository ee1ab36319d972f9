import RsaAudit.Proofs.Json.Nesting

/-!
# Reading indented text

A value may be written with one item to a line.  Line ends and indentation are white
space between tokens, so the indented text of a value is one of its texts and is read
like all others.
-/

namespace RsaAudit.Json

theorem isBlank_of_mem_newline {level : Nat} {char : Char} (member : char ∈ newline level) :
    isBlank char = true := by
  rcases List.mem_cons.mp member with rfl | space
  · rfl
  · obtain ⟨-, rfl⟩ := List.mem_replicate.mp space
    rfl

namespace SpelledBy

variable {tokens : List Token} {chars : List Char}

theorem newline_append (level : Nat) (spelled : SpelledBy tokens chars) :
    SpelledBy tokens (newline level ++ chars) :=
  spelled.blanks_append fun _ member => isBlank_of_mem_newline member

theorem space_cons (spelled : SpelledBy tokens chars) : SpelledBy tokens (' ' :: chars) := by
  have spaced : SpelledBy tokens ([' '] ++ chars) :=
    spelled.blanks_append (List.forall_mem_singleton.mpr rfl)
  exact spaced

end SpelledBy

-- The three statements below follow the mutual recursion of the printer.  Every item
-- and every closing bracket of what is not empty starts a line.
mutual

theorem spelledBy_prettyChars (level : Nat) {json : Json}
    (spellable : json.Spellable Numeral.WritesInteger) :
    SpelledBy json.tokens (prettyChars level json) := by
  match json, spellable with
  | .list [], _ => exact .cons .leftBracket (.single .rightBracket)
  | .list (item :: rest), spellable =>
      rw [Spellable] at spellable
      have items := spelledBy_prettyItems (level + 1) spellable
      have closing : SpelledBy [.rightBracket] (newline level ++ [']']) :=
        (SpelledBy.single .rightBracket).newline_append level
      rw [prettyChars, List.append_assoc]
      · exact (SpelledBy.cons .leftBracket (items.append closing) :)
      · simp
  | .object [], _ => exact .cons .leftBrace (.single .rightBrace)
  | .object (member :: rest), spellable =>
      rw [Spellable] at spellable
      have members := spelledBy_prettyMembers (level + 1) spellable
      have closing : SpelledBy [.rightBrace] (newline level ++ ['\x7d']) :=
        (SpelledBy.single .rightBrace).newline_append level
      rw [prettyChars, List.append_assoc]
      · exact (SpelledBy.cons .leftBrace (members.append closing) :)
      · simp
  | .null, _ => exact .single .null
  | .bool value, _ => exact .single (.bool value)
  | .number numeral, spellable =>
      rw [Spellable] at spellable
      obtain ⟨number, rfl⟩ := spellable
      exact .single (.number (Numeral.spelledBy_ofInt number))
  | .text content, spellable =>
      rw [Spellable] at spellable
      obtain ⟨content, rfl⟩ := Option.isSome_iff_exists.mp spellable
      exact .single (.text (textSpelledBy_spellText content))
  | .broken, spellable =>
      rw [Spellable] at spellable
      exact spellable.elim

theorem spelledBy_prettyItems (level : Nat) {items : List Json}
    (spellable : SpellableItems Numeral.WritesInteger items) :
    SpelledBy (itemTokens items) (prettyItems level items) := by
  match items, spellable with
  | [], _ => exact .done (List.forall_mem_nil _)
  | [item], spellable =>
      rw [SpellableItems] at spellable
      exact (spelledBy_prettyChars level spellable.1).newline_append level
  | item :: next :: rest, spellable =>
      rw [SpellableItems] at spellable
      have first := (spelledBy_prettyChars level spellable.1).newline_append level
      have later := spelledBy_prettyItems level spellable.2
      exact first.append (.cons .comma later)

theorem spelledBy_prettyMembers (level : Nat) {members : List (Option String × Json)}
    (spellable : SpellableMembers Numeral.WritesInteger members) :
    SpelledBy (memberTokens members) (prettyMembers level members) := by
  match members, spellable with
  | [], _ => exact .done (List.forall_mem_nil _)
  | [(key, value)], spellable =>
      rw [SpellableMembers] at spellable
      have written := (spelledBy_prettyChars level spellable.2.1).space_cons
      have keyed := (spelledBy_spellKey spellable.1 written).newline_append level
      rw [← List.append_assoc] at keyed
      exact keyed
  | (key, value) :: next :: rest, spellable =>
      rw [SpellableMembers] at spellable
      have written := (spelledBy_prettyChars level spellable.2.1).space_cons
      have keyed := (spelledBy_spellKey spellable.1 written).newline_append level
      have later := spelledBy_prettyMembers level spellable.2.2
      rw [← List.append_assoc] at keyed
      exact keyed.append (.cons .comma later)

end

theorem writtenAs_pretty {json : Json} (spellable : json.Spellable Numeral.WritesInteger) :
    json.WrittenAs json.pretty := by
  refine ⟨spellable.intact, ?_⟩
  rw [pretty, String.toList_ofList]
  exact spelledBy_prettyChars 0 spellable

end RsaAudit.Json
