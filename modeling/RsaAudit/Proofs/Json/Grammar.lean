import RsaAudit.Proofs.Json.Spelling

/-!
# All texts of a value

A text is described by the tokens of its value and by how each of them is spelled.
The printer writes one such text, and the pass over the characters of any of them
finds the tokens of the value.
-/

namespace RsaAudit.Json

open Decimal (Digit)

mutual

/-- Every text of a value has content and every numeral is admitted. -/
def Spellable (admits : Numeral → Prop) : Json → Prop
  | .null | .bool _ => True
  | .number numeral => admits numeral
  | .text content => content.isSome = true
  | .list items => SpellableItems admits items
  | .object members => SpellableMembers admits members
  | .broken => False

def SpellableItems (admits : Numeral → Prop) : List Json → Prop
  | [] => True
  | item :: rest => item.Spellable admits ∧ SpellableItems admits rest

def SpellableMembers (admits : Numeral → Prop) : List (Option String × Json) → Prop
  | [] => True
  | (key, value) :: rest =>
      key.isSome = true ∧ value.Spellable admits ∧ SpellableMembers admits rest

end

@[simp]
theorem spellable_list_map {admits : Numeral → Prop} {Item : Type} {write : Item → Json}
    {items : List Item} :
    (Json.list (items.map write)).Spellable admits ↔
      ∀ item ∈ items, (write item).Spellable admits := by
  rw [Spellable]
  induction items with
  | nil => simp [SpellableItems]
  | cons item rest ih => simp [SpellableItems, ih]

@[simp]
theorem spellable_record {admits : Numeral → Prop} {members : List (String × Json)} :
    (record members).Spellable admits ↔
      ∀ member ∈ members, member.2.Spellable admits := by
  rw [record, Spellable]
  induction members with
  | nil => simp [SpellableMembers]
  | cons member rest ih => simp [SpellableMembers, ih]

@[simp]
theorem spellable_ofText {admits : Numeral → Prop} {content : String} :
    (ofText content).Spellable admits :=
  rfl

mutual

def tokens : Json → List Token
  | .null => [.null]
  | .bool value => [.bool value]
  | .number numeral => [.number numeral]
  | .text content => [.text content]
  | .list items => .leftBracket :: itemTokens items ++ [.rightBracket]
  | .object members => .leftBrace :: memberTokens members ++ [.rightBrace]
  | .broken => []

def itemTokens : List Json → List Token
  | [] => []
  | [item] => item.tokens
  | item :: rest => item.tokens ++ .comma :: itemTokens rest

def memberTokens : List (Option String × Json) → List Token
  | [] => []
  | [(key, value)] => .text key :: .colon :: value.tokens
  | (key, value) :: rest =>
      .text key :: .colon :: value.tokens ++ .comma :: memberTokens rest

end

def Numeral.WritesInteger (numeral : Numeral) : Prop :=
  ∃ number, numeral = .ofInt number

/-! ## Cutting a text into tokens -/

theorem isChain_cons {token : Token} {after : List Token} (noNumber : token.isNumber = false)
    (separated : after.IsChain Token.Separates) :
    (token :: after).IsChain Token.Separates := by
  refine separated.cons fun next _ isNumber => ?_
  rw [noNumber] at isNumber
  cases isNumber

-- A value ends before a comma, before a bracket or at the end, so these three take
-- what comes after it along.
mutual

theorem isChain_tokens (json : Json) {after : List Token}
    (closes : ∀ next ∈ after.head?, next.Closes) (separated : after.IsChain Token.Separates) :
    (json.tokens ++ after).IsChain Token.Separates := by
  cases json with
  | number numeral =>
      exact separated.cons fun next first _ => closes next first
  | list items =>
      have body : (itemTokens items ++ .rightBracket :: after).IsChain Token.Separates :=
        isChain_itemTokens items (by simp [Token.Closes]) (isChain_cons rfl separated)
      rw [tokens, List.cons_append, List.cons_append, List.append_assoc]
      exact isChain_cons rfl body
  | object members =>
      have body : (memberTokens members ++ .rightBrace :: after).IsChain Token.Separates :=
        isChain_memberTokens members (by simp [Token.Closes]) (isChain_cons rfl separated)
      rw [tokens, List.cons_append, List.cons_append, List.append_assoc]
      exact isChain_cons rfl body
  | broken => exact separated
  | _ => exact isChain_cons rfl separated

theorem isChain_itemTokens (items : List Json) {after : List Token}
    (closes : ∀ next ∈ after.head?, next.Closes) (separated : after.IsChain Token.Separates) :
    (itemTokens items ++ after).IsChain Token.Separates := by
  match items with
  | [] => exact separated
  | [item] => exact isChain_tokens item closes separated
  | item :: next :: rest =>
      have later := isChain_itemTokens (next :: rest) closes separated
      have first : (item.tokens ++ .comma :: (itemTokens (next :: rest) ++ after)).IsChain
          Token.Separates :=
        isChain_tokens item (by simp [Token.Closes]) (isChain_cons rfl later)
      simpa [itemTokens] using first

theorem isChain_memberTokens (members : List (Option String × Json)) {after : List Token}
    (closes : ∀ next ∈ after.head?, next.Closes) (separated : after.IsChain Token.Separates) :
    (memberTokens members ++ after).IsChain Token.Separates := by
  match members with
  | [] => exact separated
  | [(key, value)] =>
      exact isChain_cons rfl (isChain_cons rfl (isChain_tokens value closes separated))
  | (key, value) :: next :: rest =>
      have later := isChain_memberTokens (next :: rest) closes separated
      have first : (value.tokens ++ .comma :: (memberTokens (next :: rest) ++ after)).IsChain
          Token.Separates :=
        isChain_tokens value (by simp [Token.Closes]) (isChain_cons rfl later)
      have keyed : (.text key :: .colon ::
          (value.tokens ++ .comma :: (memberTokens (next :: rest) ++ after))).IsChain
          Token.Separates :=
        isChain_cons rfl (isChain_cons rfl first)
      simpa [memberTokens] using keyed

end

/-- A text with the tokens of a value, however they are spelled, is cut into them. -/
theorem tokenize_of_spelledBy {json : Json} {chars : List Char}
    (spelled : SpelledBy json.tokens chars) : tokenize chars = json.tokens := by
  have separated : (json.tokens ++ []).IsChain Token.Separates :=
    isChain_tokens json (by simp) .nil
  rw [List.append_nil] at separated
  have rests : (chars.foldl Lexing.step .start).Rests (json.tokens.reverse ++ []) :=
    Lexing.Rests.run_tokens spelled (.inl rfl) separated
  rw [tokenize, rests.finish, List.append_nil, List.reverse_reverse]

/-! ## The text that is printed -/

theorem hexDigit?_hexChar (digit : Nat) (small : digit < 16) :
    hexDigit? (hexChar digit) = some digit := by
  have all : ∀ digit : Fin 16, hexDigit? (hexChar digit.val) = some digit.val := by
    decide
  exact all ⟨digit, small⟩

/-- An escaped character stands for itself. -/
theorem TextPiece.exists_spelledBy_escape (char : Char) :
    ∃ piece : TextPiece, piece.SpelledBy (escape char) ∧
      ∀ rest, decode (piece :: rest) = (decode rest).map (char :: ·) := by
  have single {chars : List Char} (spelled : SpelledBy (.single char) chars) :
      ∃ piece : TextPiece, piece.SpelledBy chars ∧
        ∀ rest, decode (piece :: rest) = (decode rest).map (char :: ·) :=
    ⟨.single char, spelled, fun rest => by rw [decode]⟩
  rw [escape]
  split
  · subst char; exact single (.letter rfl)
  split
  · subst char; exact single (.letter rfl)
  split
  · subst char; exact single (.letter rfl)
  split
  · subst char; exact single (.letter rfl)
  split
  · subst char; exact single (.letter rfl)
  split
  · subst char; exact single (.letter rfl)
  split
  · subst char; exact single (.letter rfl)
  split
  · rename_i control
    have small : char.toNat < 32 := control
    have high := hexDigit?_hexChar (char.toNat / 16) (by omega)
    have low := hexDigit?_hexChar (char.toNat % 16) (by omega)
    have code : 16 * (16 * (16 * 0 + 0) + char.toNat / 16) + char.toNat % 16 =
        char.toNat := by
      omega
    have spelled := SpelledBy.hex (show hexDigit? '0' = some 0 from rfl)
      (show hexDigit? '0' = some 0 from rfl) high low
    rw [code] at spelled
    refine ⟨.unit char.toNat, spelled, fun rest => ?_⟩
    rw [decode_unit (by unfold IsTrail; omega) (by unfold IsLead; omega), Char.ofNat_toNat]
  · rename_i noQuote noBackslash _ _ _ _ _ shown
    exact single (.plain noQuote noBackslash shown)

theorem textSpelledBy_spellText (content : String) :
    TextSpelledBy (some content) (spellText (some content)) := by
  have written (chars : List Char) : ∃ pieces,
      List.Forall₂ TextPiece.SpelledBy pieces (chars.map escape) ∧
        TextPiece.decode pieces = some chars := by
    induction chars with
    | nil => exact ⟨[], .nil, rfl⟩
    | cons char rest ih =>
        obtain ⟨pieces, spelled, decoded⟩ := ih
        obtain ⟨piece, first, decodes⟩ := TextPiece.exists_spelledBy_escape char
        refine ⟨piece :: pieces, .cons first spelled, ?_⟩
        rw [decodes, decoded]
        rfl
  obtain ⟨pieces, spelled, decoded⟩ := written content.toList
  refine ⟨pieces, content.toList.map escape, spelled, rfl, ?_⟩
  rw [decoded]
  simp

theorem Numeral.spelledBy_ofInt (number : Int) :
    (ofInt number).SpelledBy (ofInt number).spell := by
  cases number with
  | ofNat number =>
      refine ⟨Decimal.digits_eq_zero_or number, [], [], .none, .none, ?_⟩
      simp [ofInt, ofNat, spell]
  | negSucc number =>
      refine ⟨Decimal.digits_eq_zero_or (number + 1), [], [], .none, .none, ?_⟩
      simp [ofInt, spell]

namespace SpelledBy

variable {tokens later : List Token} {chars rest : List Char}

theorem blanks_append {blanks : List Char} (areBlank : ∀ char ∈ blanks, isBlank char = true)
    (spelled : SpelledBy tokens chars) : SpelledBy tokens (blanks ++ chars) := by
  cases spelled with
  | done lastBlank => exact .done (List.forall_mem_append.mpr ⟨areBlank, lastBlank⟩)
  | token firstBlank first later =>
      rw [List.append_assoc, ← List.append_assoc blanks, ← List.append_assoc]
      exact .token (List.forall_mem_append.mpr ⟨areBlank, firstBlank⟩) first later

theorem append (spelled : SpelledBy tokens chars) (spelledLater : SpelledBy later rest) :
    SpelledBy (tokens ++ later) (chars ++ rest) := by
  induction spelled with
  | done areBlank => exact spelledLater.blanks_append areBlank
  | token areBlank first _ ih =>
      rw [List.cons_append, List.append_assoc]
      exact .token areBlank first ih

theorem cons {token : Token} (first : token.SpelledBy chars) (spelled : SpelledBy later rest) :
    SpelledBy (token :: later) (chars ++ rest) :=
  .token (List.forall_mem_nil _) first spelled

theorem single {token : Token} (spelled : token.SpelledBy chars) : SpelledBy [token] chars := by
  have padded := cons spelled (.done (List.forall_mem_nil _))
  rwa [List.append_nil] at padded

end SpelledBy

theorem spelledBy_spellKey {key : Option String} (complete : key.isSome = true)
    {later : List Token} {rest : List Char} (spelled : SpelledBy later rest) :
    SpelledBy (.text key :: .colon :: later) (spellText key ++ ':' :: rest) := by
  obtain ⟨content, rfl⟩ := Option.isSome_iff_exists.mp complete
  exact .cons (.text (textSpelledBy_spellText content)) (.cons .colon spelled)

-- The three statements below follow the mutual recursion of the printer.
mutual

theorem spelledBy_compactChars {json : Json}
    (spellable : json.Spellable Numeral.WritesInteger) :
    SpelledBy json.tokens json.compactChars := by
  cases json with
  | null => exact .single .null
  | bool value => exact .single (.bool value)
  | number numeral =>
      rw [Spellable] at spellable
      obtain ⟨number, rfl⟩ := spellable
      exact .single (.number (Numeral.spelledBy_ofInt number))
  | text content =>
      rw [Spellable] at spellable
      obtain ⟨content, rfl⟩ := Option.isSome_iff_exists.mp spellable
      exact .single (.text (textSpelledBy_spellText content))
  | list items =>
      rw [Spellable] at spellable
      have closed := (spelledBy_compactItems spellable).append (.single .rightBracket)
      exact (SpelledBy.cons .leftBracket closed :)
  | object members =>
      rw [Spellable] at spellable
      have closed := (spelledBy_compactMembers spellable).append (.single .rightBrace)
      exact (SpelledBy.cons .leftBrace closed :)
  | broken =>
      rw [Spellable] at spellable
      exact spellable.elim

theorem spelledBy_compactItems {items : List Json}
    (spellable : SpellableItems Numeral.WritesInteger items) :
    SpelledBy (itemTokens items) (compactItems items) := by
  match items, spellable with
  | [], _ => exact .done (List.forall_mem_nil _)
  | [item], spellable =>
      rw [SpellableItems] at spellable
      exact spelledBy_compactChars spellable.1
  | item :: next :: rest, spellable =>
      rw [SpellableItems] at spellable
      exact (spelledBy_compactChars spellable.1).append
        (.cons .comma (spelledBy_compactItems spellable.2))

theorem spelledBy_compactMembers {members : List (Option String × Json)}
    (spellable : SpellableMembers Numeral.WritesInteger members) :
    SpelledBy (memberTokens members) (compactMembers members) := by
  match members, spellable with
  | [], _ => exact .done (List.forall_mem_nil _)
  | [(key, value)], spellable =>
      rw [SpellableMembers] at spellable
      exact spelledBy_spellKey spellable.1 (spelledBy_compactChars spellable.2.1)
  | (key, value) :: next :: rest, spellable =>
      rw [SpellableMembers] at spellable
      have keyed := spelledBy_spellKey spellable.1 (spelledBy_compactChars spellable.2.1)
      exact keyed.append (.cons .comma (spelledBy_compactMembers spellable.2.2))

end

end RsaAudit.Json
