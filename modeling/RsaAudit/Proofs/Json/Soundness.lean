import RsaAudit.Proofs.Json.Nesting

/-!
# What is read is JSON

A text that is read to its end writes the value that it is read as.  So the value is the
only one that the text writes, and nothing that is not JSON is ever accepted.

The pass over the characters keeps, beside the tokens it has found, the part of a token
that it is in the middle of.  The pass over the tokens keeps what has been opened, and the
tokens of that come before everything else.
-/

namespace RsaAudit.Json

open Decimal (Digit)

/-! ## Numerals -/

theorem eq_toChar_of_ofChar? {char : Char} {digit : Digit}
    (read : Digit.ofChar? char = some digit) : char = digit.toChar := by
  unfold Digit.ofChar? at read
  split at read
  · split at read
    · rename_i high low
      cases read
      have code : 48 + (char.toNat - 48) = char.toNat := by omega
      rw [Digit.toChar, code, Char.ofNat_toNat]
    · cases read
  · cases read

def signChars (negative : Bool) : List Char :=
  if negative then ['-'] else []

/-- Digits before the point: zero, or a row that does not start with it. -/
inductive Leads : List Digit → Prop
  | zero : Leads [0]
  | other {first : Digit} (rest : List Digit) (nonzero : first ≠ 0) : Leads (first :: rest)

theorem Leads.eq_zero_or {whole : List Digit} (leads : Leads whole) :
    whole = [0] ∨ ∃ first rest, whole = first :: rest ∧ first ≠ 0 := by
  cases leads with
  | zero => exact .inl rfl
  | other rest nonzero => exact .inr ⟨_, rest, rfl, nonzero⟩

/-- The characters up to the exponent. -/
def SpellsFront (negative : Bool) (whole fraction : List Digit) (chars : List Char) : Prop :=
  Leads whole ∧ ∃ after, FractionSpelledBy fraction after ∧
    chars = signChars negative ++ whole.map Digit.toChar ++ after

/-- The characters of a numeral that have been seen, by the stage that they lead to.  The
digits of the draft stand last first. -/
inductive NumeralStage.Spells : NumeralStage → Numeral → List Char → Prop
  | sign : Spells .sign ⟨true, [], [], none⟩ ['-']
  | zero (negative : Bool) :
      Spells .zero ⟨negative, [0], [], none⟩ (signChars negative ++ ['0'])
  | whole (negative : Bool) (first : Digit) (rest : List Digit) (nonzero : first ≠ 0) :
      Spells .whole ⟨negative, (first :: rest).reverse, [], none⟩
        (signChars negative ++ (first :: rest).map Digit.toChar)
  | point (negative : Bool) {whole : List Digit} (leads : Leads whole) :
      Spells .point ⟨negative, whole.reverse, [], none⟩
        (signChars negative ++ whole.map Digit.toChar ++ ['.'])
  | fraction (negative : Bool) {whole : List Digit} (leads : Leads whole)
      (digits : List Digit) (nonempty : digits ≠ []) :
      Spells .fraction ⟨negative, whole.reverse, digits.reverse, none⟩
        (signChars negative ++ whole.map Digit.toChar ++ '.' :: digits.map Digit.toChar)
  | mark {negative : Bool} {whole fraction : List Digit} {front : List Char} {mark : Char}
      (spelled : SpellsFront negative whole fraction front) (isMark : mark = 'e' ∨ mark = 'E') :
      Spells .exponentMark ⟨negative, whole.reverse, fraction.reverse, some (false, [])⟩
        (front ++ [mark])
  | markSign {negative : Bool} {whole fraction : List Digit} {front : List Char} {mark : Char}
      (spelled : SpellsFront negative whole fraction front) (isMark : mark = 'e' ∨ mark = 'E')
      (minus : Bool) :
      Spells .exponentSign ⟨negative, whole.reverse, fraction.reverse, some (minus, [])⟩
        (front ++ [mark, if minus then '-' else '+'])
  | exponent {negative minus : Bool} {whole fraction digits : List Digit}
      {front after : List Char} (spelled : SpellsFront negative whole fraction front)
      (ofExponent : ExponentSpelledBy (some (minus, digits)) after) :
      Spells .exponent
        ⟨negative, whole.reverse, fraction.reverse, some (minus, digits.reverse)⟩
        (front ++ after)

theorem ExponentSpelledBy.concat {minus : Bool} {digits : List Digit} {chars : List Char}
    (spelled : ExponentSpelledBy (some (minus, digits)) chars) (digit : Digit) :
    ExponentSpelledBy (some (minus, digits ++ [digit])) (chars ++ [digit.toChar]) := by
  have nonempty : digits ++ [digit] ≠ [] := by simp
  cases spelled with
  | unsigned isMark _ => simpa using unsigned isMark nonempty
  | signed isMark _ =>
      have longer := @signed minus _ _ isMark nonempty
      simpa using longer

namespace NumeralStage

theorem spells_first (negative : Bool) (digit : Digit) :
    Spells (if digit.val = 0 then .zero else .whole) ⟨negative, [digit], [], none⟩
      (signChars negative ++ [digit.toChar]) := by
  by_cases zero : digit = 0
  · subst zero
    exact .zero negative
  · have nonzero : digit.val ≠ 0 := fun none => zero (Fin.ext none)
    rw [if_neg nonzero]
    exact .whole negative digit [] zero

theorem spells_of_extend_sign {char : Char} {stage : NumeralStage} {draft : Numeral}
    (extended : NumeralStage.sign.extend ⟨false, [], [], none⟩ char = some (stage, draft)) :
    stage.Spells draft [char] := by
  unfold extend at extended
  cases read : Digit.ofChar? char with
  | some digit =>
      rw [read] at extended
      cases extended
      rw [eq_toChar_of_ofChar? read]
      exact spells_first false digit
  | none => simp [read] at extended

namespace Spells

variable {stage next : NumeralStage} {draft longer : Numeral} {chars : List Char}

theorem digit (spells : stage.Spells draft chars) {digit : Digit}
    (extended : stage.extend draft digit.toChar = some (next, longer)) :
    next.Spells longer (chars ++ [digit.toChar]) := by
  have row (digits : List Digit) : digits ++ [digit] ≠ [] := by simp
  unfold extend at extended
  rw [Lexing.ofChar?_toChar] at extended
  cases spells with
  | sign =>
      cases extended
      exact spells_first true digit
  | zero negative => cases extended
  | whole negative first rest nonzero =>
      cases extended
      simpa using whole negative first (rest ++ [digit]) nonzero
  | point negative leads =>
      cases extended
      simpa using fraction negative leads [digit] (row [])
  | fraction negative leads digits _ =>
      cases extended
      simpa using fraction negative leads (digits ++ [digit]) (row digits)
  | mark spelled isMark =>
      cases extended
      simpa using exponent spelled (.unsigned isMark (row []))
  | markSign spelled isMark minus =>
      cases extended
      simpa using exponent spelled (.signed isMark (row []))
  | exponent spelled ofExponent =>
      cases extended
      simpa using exponent spelled (ofExponent.concat digit)

theorem exists_whole (spells : stage.Spells draft chars)
    (noPoint : stage = .zero ∨ stage = .whole) :
    ∃ negative whole, draft = ⟨negative, whole.reverse, [], none⟩ ∧ Leads whole ∧
      chars = signChars negative ++ whole.map Digit.toChar := by
  cases spells with
  | zero negative => exact ⟨negative, [0], rfl, .zero, rfl⟩
  | whole negative first rest nonzero =>
      exact ⟨negative, first :: rest, rfl, .other rest nonzero, rfl⟩
  | _ => simp at noPoint

theorem exists_front (spells : stage.Spells draft chars) (before : Lexing.BeforeExponent stage) :
    ∃ negative whole fraction, draft = ⟨negative, whole.reverse, fraction.reverse, none⟩ ∧
      SpellsFront negative whole fraction chars := by
  by_cases noPoint : stage = .zero ∨ stage = .whole
  · obtain ⟨negative, whole, rfl, leads, rfl⟩ := spells.exists_whole noPoint
    exact ⟨negative, whole, [], rfl, leads, [], .none, (List.append_nil _).symm⟩
  · cases spells with
    | @fraction negative whole leads digits nonempty =>
        exact ⟨negative, whole, digits, rfl, leads, _, .some nonempty, rfl⟩
    | _ => simp_all [Lexing.BeforeExponent]

/-- A character that belongs to a numeral continues its spelling. -/
theorem extend {char : Char} (spells : stage.Spells draft chars)
    (extended : stage.extend draft char = some (next, longer)) :
    next.Spells longer (chars ++ [char]) := by
  cases read : Digit.ofChar? char with
  | some digit =>
      obtain rfl := eq_toChar_of_ofChar? read
      exact spells.digit extended
  | none =>
      unfold NumeralStage.extend at extended
      rw [read] at extended
      dsimp only at extended
      split at extended
      case isTrue isPoint =>
        subst isPoint
        have noPoint : stage = .zero ∨ stage = .whole := by
          split at extended <;> simp_all
        obtain ⟨negative, whole, rfl, leads, rfl⟩ := spells.exists_whole noPoint
        rcases noPoint with rfl | rfl <;> cases extended <;> exact .point negative leads
      case isFalse =>
      split at extended
      case isTrue isMark =>
        have before : Lexing.BeforeExponent stage := by
          split at extended <;> simp_all [Lexing.BeforeExponent]
        obtain ⟨negative, whole, fraction, rfl, front⟩ := spells.exists_front before
        rcases before with rfl | rfl | rfl <;> cases extended <;> exact .mark front isMark
      case isFalse =>
      split at extended
      case isTrue isSign =>
        cases spells with
        | mark spelled isMark =>
            cases extended
            rcases isSign with rfl | rfl
            · simpa using markSign spelled isMark false
            · simpa using markSign spelled isMark true
        | _ => cases extended
      case isFalse => cases extended

/-- Where a numeral may end, it is spelled. -/
theorem spelledBy (spells : stage.Spells draft chars) (complete : stage.complete = true) :
    draft.ofDraft.SpelledBy chars := by
  by_cases before : Lexing.BeforeExponent stage
  · obtain ⟨negative, whole, fraction, rfl, leads, after, ofFraction, rfl⟩ :=
      spells.exists_front before
    rw [Numeral.ofDraft, List.reverse_reverse, List.reverse_reverse]
    exact ⟨leads.eq_zero_or, after, [], ofFraction, .none, (List.append_nil _).symm⟩
  · cases spells with
    | exponent spelled ofExponent =>
        obtain ⟨leads, after, ofFraction, rfl⟩ := spelled
        rw [Numeral.ofDraft, List.reverse_reverse, List.reverse_reverse, Option.map_some]
        dsimp only
        rw [List.reverse_reverse]
        exact ⟨leads.eq_zero_or, after, _, ofFraction, ofExponent, rfl⟩
    | _ => simp_all [Lexing.BeforeExponent, NumeralStage.complete]

end Spells

end NumeralStage

/-! ## Strings -/

/-- The pieces of a string that have been seen, after its opening quote. -/
def PiecesSpelledBy (pieces : List TextPiece) (chars : List Char) : Prop :=
  ∃ spellings, List.Forall₂ TextPiece.SpelledBy pieces spellings ∧
    chars = '"' :: spellings.flatten

theorem PiecesSpelledBy.concat {pieces : List TextPiece} {piece : TextPiece}
    {chars more : List Char} (spelled : PiecesSpelledBy pieces chars)
    (last : piece.SpelledBy more) : PiecesSpelledBy (pieces ++ [piece]) (chars ++ more) := by
  obtain ⟨spellings, each, rfl⟩ := spelled
  refine ⟨spellings ++ [more], List.rel_append each (.cons last .nil), ?_⟩
  simp

theorem PiecesSpelledBy.textSpelledBy {pieces : List TextPiece} {chars : List Char}
    (spelled : PiecesSpelledBy pieces chars) :
    TextSpelledBy (pieces.foldl TextPiece.addTo .start).content (chars ++ ['"']) := by
  obtain ⟨spellings, each, rfl⟩ := spelled
  refine ⟨pieces, spellings, each, rfl, ?_⟩
  exact TextPiece.content_foldl_addTo [] none true pieces (by simp)

/-- The characters of a string that have been seen, by the stage that they lead to. -/
inductive TextStage.Spells : TextStage → TextDraft → List Char → Prop
  | plain {pieces : List TextPiece} {chars : List Char}
      (spelled : PiecesSpelledBy pieces chars) :
      Spells .plain (pieces.foldl TextPiece.addTo .start) chars
  | escape {pieces : List TextPiece} {chars : List Char}
      (spelled : PiecesSpelledBy pieces chars) :
      Spells .escape (pieces.foldl TextPiece.addTo .start) (chars ++ ['\\'])
  | hex {pieces : List TextPiece} {chars digits : List Char} {values : List Nat} {missing : Nat}
      (spelled : PiecesSpelledBy pieces chars)
      (read : List.Forall₂ (fun char value => hexDigit? char = some value) digits values)
      (four : digits.length + missing = 4) (incomplete : 0 < missing) :
      Spells (.hex missing (values.foldl (fun total digit => 16 * total + digit) 0))
        (pieces.foldl TextPiece.addTo .start) (chars ++ '\\' :: 'u' :: digits)

/-! ## Tokens -/

/-- The characters of a token that is not complete, by what the pass knows of it. -/
def Mode.Begins : Mode → List Char → Prop
  | .between, chars => chars = []
  | .word rest token, chars => rest ≠ [] ∧ token.SpelledBy (chars ++ rest)
  | .numeral stage draft, chars => stage.Spells draft chars
  | .text stage draft, chars => stage.Spells draft chars
  | .stopped, _ => False

namespace SpelledBy

theorem concat {tokens : List Token} {token : Token} {chars more : List Char}
    (spelled : SpelledBy tokens.reverse chars) (last : token.SpelledBy more) :
    SpelledBy (token :: tokens).reverse (chars ++ more) := by
  rw [List.reverse_cons]
  exact spelled.append (.single last)

theorem concat_blank {tokens : List Token} {chars : List Char} {char : Char}
    (spelled : SpelledBy tokens chars) (blank : isBlank char = true) :
    SpelledBy tokens (chars ++ [char]) := by
  have longer := spelled.append (.done (List.forall_mem_singleton.mpr blank))
  rwa [List.append_nil] at longer

end SpelledBy

namespace Lexing

/-- The characters that have led to a state of the pass, unless it has stopped at junk:
those of the tokens found, and then those of the token it is in. -/
def Explains (lexing : Lexing) (chars : List Char) : Prop :=
  lexing.mode = .stopped ∧ .junk ∈ lexing.tokens ∨
    ∃ before part, chars = before ++ part ∧
      SpelledBy lexing.tokens.reverse before ∧ lexing.mode.Begins part

theorem explains_stop (lexing : Lexing) (chars : List Char) : lexing.stop.Explains chars :=
  .inl ⟨rfl, List.mem_cons_self⟩

variable {lexing : Lexing} {chars before part : List Char} {char : Char}

theorem explains_emit {token : Token} (spelled : SpelledBy lexing.tokens.reverse before)
    (last : token.SpelledBy part) : (lexing.emit token).Explains (before ++ part) :=
  .inr ⟨before ++ part, [], (List.append_nil _).symm, spelled.concat last, rfl⟩

theorem explains_enter {mode : Mode} (spelled : SpelledBy lexing.tokens.reverse before)
    (begins : mode.Begins part) : (lexing.enter mode).Explains (before ++ part) :=
  .inr ⟨before, part, rfl, spelled, begins⟩

theorem explains_stepBetween (spelled : SpelledBy lexing.tokens.reverse chars) (char : Char) :
    (lexing.stepBetween char).Explains (chars ++ [char]) := by
  unfold stepBetween
  split
  case isTrue blank =>
    exact .inr ⟨_, [], (List.append_nil _).symm, spelled.concat_blank blank, rfl⟩
  case isFalse =>
    split
    · exact explains_emit spelled .leftBracket
    · exact explains_emit spelled .rightBracket
    · exact explains_emit spelled .leftBrace
    · exact explains_emit spelled .rightBrace
    · exact explains_emit spelled .comma
    · exact explains_emit spelled .colon
    · exact explains_enter spelled (.plain ⟨[], .nil, rfl⟩)
    · exact explains_enter spelled ⟨List.cons_ne_nil _ _, .null⟩
    · exact explains_enter spelled ⟨List.cons_ne_nil _ _, .bool true⟩
    · exact explains_enter spelled ⟨List.cons_ne_nil _ _, .bool false⟩
    · exact explains_enter spelled .sign
    · split
      case h_1 stage draft extended =>
        exact explains_enter spelled (NumeralStage.spells_of_extend_sign extended)
      case h_2 => exact explains_stop _ _

theorem explains_stepWord {rest : List Char} {token : Token}
    (spelled : SpelledBy lexing.tokens.reverse before)
    (begins : (Mode.word rest token).Begins part) (char : Char) :
    (lexing.stepWord rest token char).Explains (before ++ (part ++ [char])) := by
  obtain ⟨nonempty, ofToken⟩ := begins
  unfold stepWord
  split
  · exact explains_stop _ _
  · rename_i next later
    split
    case isTrue same =>
      subst same
      rw [List.append_cons] at ofToken
      split
      case isTrue none =>
        rw [List.isEmpty_iff.mp none, List.append_nil] at ofToken
        exact explains_emit spelled ofToken
      case isFalse more =>
        exact explains_enter spelled ⟨fun none => more (List.isEmpty_iff.mpr none), ofToken⟩
    case isFalse => exact explains_stop _ _

theorem explains_stepNumeral {stage : NumeralStage} {draft : Numeral}
    (spelled : SpelledBy lexing.tokens.reverse before) (spells : stage.Spells draft part)
    (char : Char) : (lexing.stepNumeral stage draft char).Explains (before ++ (part ++ [char])) := by
  unfold stepNumeral
  split
  case h_1 extended => exact explains_enter spelled (spells.extend extended)
  case h_2 =>
    split
    case isTrue => exact explains_stop _ _
    case isFalse =>
      split
      case isTrue complete =>
        rw [← List.append_assoc]
        exact explains_stepBetween (spelled.concat (.number (spells.spelledBy complete))) char
      case isFalse => exact explains_stop _ _

theorem explains_stepText {stage : TextStage} {draft : TextDraft}
    (spelled : SpelledBy lexing.tokens.reverse before) (spells : stage.Spells draft part)
    (char : Char) : (lexing.stepText stage draft char).Explains (before ++ (part ++ [char])) := by
  unfold stepText
  cases spells with
  | @plain pieces chars ofPieces =>
      dsimp only
      split
      case isTrue isQuote =>
        subst isQuote
        exact explains_emit spelled (.text ofPieces.textSpelledBy)
      case isFalse noQuote =>
      split
      case isTrue isBackslash =>
        subst isBackslash
        exact explains_enter spelled (.escape ofPieces)
      case isFalse noBackslash =>
      split
      case isTrue => exact explains_stop _ _
      case isFalse shown =>
        have longer := ofPieces.concat (.plain noQuote noBackslash shown)
        refine explains_enter spelled ?_
        have spells := TextStage.Spells.plain longer
        rwa [List.foldl_concat] at spells
  | @escape pieces chars ofPieces =>
      dsimp only
      split
      case isTrue isHex =>
        subst isHex
        refine explains_enter spelled ?_
        have opened := TextStage.Spells.hex ofPieces .nil (Nat.zero_add 4) (Nat.succ_pos 3)
        rwa [List.append_assoc]
      case isFalse =>
      split
      case h_1 meant isLetter =>
        have longer := ofPieces.concat (.letter isLetter)
        refine explains_enter spelled ?_
        have spells := TextStage.Spells.plain longer
        rw [List.foldl_concat] at spells
        rwa [List.append_assoc]
      case h_2 => exact explains_stop _ _
  | @hex pieces chars digits values missing ofPieces read four incomplete =>
      dsimp only
      split
      case h_2 => exact explains_stop _ _
      case h_1 digit isDigit =>
        rw [List.append_assoc, List.cons_append, List.cons_append]
        split
        case isFalse more =>
          have longer := List.rel_append read (.cons isDigit .nil)
          refine explains_enter spelled ?_
          have spells := TextStage.Spells.hex ofPieces longer
            (show (digits ++ [char]).length + (missing - 1) = 4 by
              rw [List.length_append, List.length_singleton]; omega) (by omega)
          rwa [List.foldl_concat] at spells
        case isTrue last =>
          -- Three digits have been seen, and this is the fourth.
          have three : digits.length = 3 := by omega
          obtain ⟨first, second, third, rfl⟩ := List.length_eq_three.mp three
          cases read with
          | cons ofFirst read =>
          cases read with
          | cons ofSecond read =>
          cases read with
          | cons ofThird read =>
          cases read
          have longer := ofPieces.concat (.hex ofFirst ofSecond ofThird isDigit)
          refine explains_enter spelled ?_
          have spells := TextStage.Spells.plain longer
          rw [List.foldl_concat] at spells
          simpa [TextPiece.addTo, Mode.Begins] using spells

theorem Explains.step (explains : lexing.Explains chars) (char : Char) :
    (lexing.step char).Explains (chars ++ [char]) := by
  unfold Lexing.step
  rcases explains with ⟨stopped, junk⟩ | ⟨before, part, rfl, spelled, begins⟩
  · rw [stopped]
    exact .inl ⟨stopped, junk⟩
  · rw [List.append_assoc]
    cases mode : lexing.mode with
    | between =>
        rw [mode] at begins
        obtain rfl : part = [] := begins
        exact explains_stepBetween spelled char
    | word rest token =>
        rw [mode] at begins
        exact explains_stepWord spelled begins char
    | numeral stage draft =>
        rw [mode] at begins
        exact explains_stepNumeral spelled begins char
    | text stage draft =>
        rw [mode] at begins
        exact explains_stepText spelled begins char
    | stopped =>
        rw [mode] at begins
        exact begins.elim

theorem explains_run (chars : List Char) : (chars.foldl Lexing.step .start).Explains chars := by
  -- The induction is on the last character, since the pass looks at one after the other.
  induction chars using List.reverseRecOn with
  | nil => exact .inr ⟨[], [], rfl, .done (List.forall_mem_nil _), rfl⟩
  | append_singleton chars char ih =>
      rw [List.foldl_concat]
      exact ih.step char

theorem Explains.finish (explains : lexing.Explains chars) (clean : .junk ∉ lexing.finish) :
    SpelledBy lexing.finish chars := by
  rcases explains with ⟨stopped, junk⟩ | ⟨before, part, rfl, spelled, begins⟩
  · rw [Lexing.finish, stopped] at clean
    exact absurd (List.mem_reverse.mpr junk) clean
  · have stops : .junk ∈ lexing.stop.tokens.reverse :=
      List.mem_reverse.mpr List.mem_cons_self
    unfold Lexing.finish at clean ⊢
    cases mode : lexing.mode with
    | between =>
        rw [mode] at begins
        obtain rfl : part = [] := begins
        rw [List.append_nil]
        exact spelled
    | numeral stage draft =>
        rw [mode] at begins clean
        dsimp only at clean ⊢
        split
        case isTrue complete =>
          exact spelled.concat (.number (NumeralStage.Spells.spelledBy begins complete))
        case isFalse incomplete =>
          rw [if_neg incomplete] at clean
          exact absurd stops clean
    | word rest token | text stage draft =>
        rw [mode] at clean
        exact absurd stops clean
    | stopped =>
        rw [mode] at begins
        exact begins.elim

end Lexing

/-- A text without junk is spelled by the tokens it is cut into. -/
theorem spelledBy_tokenize {chars : List Char} (clean : .junk ∉ tokenize chars) :
    SpelledBy (tokenize chars) chars :=
  (Lexing.explains_run chars).finish clean

/-! ## Trees -/

/-- The tokens of an item and the comma after it. -/
def itemPiece (item : Json) : List Token :=
  item.tokens ++ [.comma]

/-- The tokens of a member and the comma after it. -/
def memberPiece (member : Option String × Json) : List Token :=
  .text member.1 :: .colon :: member.2.tokens ++ [.comma]

theorem itemTokens_comma {items : List Json} (nonempty : items ≠ []) :
    itemTokens items ++ [.comma] = items.flatMap itemPiece := by
  induction items with
  | nil => exact absurd rfl nonempty
  | cons item rest ih =>
      cases rest with
      | nil => simp [itemTokens, itemPiece]
      | cons next later =>
          rw [List.flatMap_cons, ← ih (List.cons_ne_nil next later)]
          simp [itemTokens, itemPiece]

theorem memberTokens_comma {members : List (Option String × Json)} (nonempty : members ≠ []) :
    memberTokens members ++ [.comma] = members.flatMap memberPiece := by
  induction members with
  | nil => exact absurd rfl nonempty
  | cons member rest ih =>
      cases rest with
      | nil => simp [memberTokens, memberPiece]
      | cons next later =>
          rw [List.flatMap_cons, ← ih (List.cons_ne_nil next later)]
          simp [memberTokens, memberPiece]

namespace Frame

/-- The tokens of what has been opened, up to where its next part stands. -/
def tokens : Frame → List Token
  | .list items => .leftBracket :: items.reverse.flatMap itemPiece
  | .object members => .leftBrace :: members.reverse.flatMap memberPiece
  | .member members key =>
      .leftBrace :: members.reverse.flatMap memberPiece ++ [.text key, .colon]

def Intact : Frame → Prop
  | .list items => ∀ item ∈ items, item.intact = true
  | .object members | .member members _ => ∀ member ∈ members, member.2.intact = true

def AwaitsValue : Frame → Prop
  | .object _ => False
  | _ => True

end Frame

namespace Building

def openTokens (frames : List Frame) : List Token :=
  frames.reverse.flatMap Frame.tokens

theorem openTokens_cons (frame : Frame) (outer : List Frame) :
    openTokens (frame :: outer) = openTokens outer ++ frame.tokens := by
  simp [openTokens]

/-- A value can come next in all that has been opened, and what is there is intact. -/
def Waiting (frames : List Frame) : Prop :=
  ∀ frame ∈ frames, frame.AwaitsValue ∧ frame.Intact

/-- The tokens that have led to a state of the pass.  After a part of a list or an object
the comma is still to come. -/
inductive Explains : Building → List Token → Prop
  | value {frames : List Frame} (waiting : Waiting frames) :
      Explains ⟨frames, .value, none⟩ (openTokens frames)
  | firstItem {outer : List Frame} (waiting : Waiting outer) :
      Explains ⟨.list [] :: outer, .firstItem, none⟩ (openTokens (.list [] :: outer))
  | firstKey {outer : List Frame} (waiting : Waiting outer) :
      Explains ⟨.object [] :: outer, .firstKey, none⟩ (openTokens (.object [] :: outer))
  | key {outer : List Frame} {members : List (Option String × Json)} (waiting : Waiting outer)
      (intact : (Frame.object members).Intact) :
      Explains ⟨.object members :: outer, .key, none⟩ (openTokens (.object members :: outer))
  | colon {outer : List Frame} {members : List (Option String × Json)} {key : Option String}
      {read : List Token} (waiting : Waiting outer) (intact : (Frame.object members).Intact)
      (all : read ++ [.colon] = openTokens (.member members key :: outer)) :
      Explains ⟨.member members key :: outer, .colon, none⟩ read
  | item {outer : List Frame} {items : List Json} {read : List Token}
      (waiting : Waiting outer) (intact : (Frame.list items).Intact) (nonempty : items ≠ [])
      (all : read ++ [.comma] = openTokens (.list items :: outer)) :
      Explains ⟨.list items :: outer, .continuation, none⟩ read
  | member {outer : List Frame} {members : List (Option String × Json)} {read : List Token}
      (waiting : Waiting outer) (intact : (Frame.object members).Intact)
      (nonempty : members ≠ [])
      (all : read ++ [.comma] = openTokens (.object members :: outer)) :
      Explains ⟨.object members :: outer, .continuation, none⟩ read
  | root {json : Json} (intact : json.intact = true) :
      Explains ⟨[], .continuation, some json⟩ json.tokens
  | stopped {building : Building} {read : List Token} (phase : building.phase = .stopped) :
      Explains building read

theorem explains_place {frames : List Frame} (waiting : Waiting frames) {json : Json}
    (intact : json.intact = true) (phase : Phase) (root : Option Json) :
    (place ⟨frames, phase, root⟩ json).Explains (openTokens frames ++ json.tokens) := by
  cases frames with
  | nil => exact .root intact
  | cons frame outer =>
      obtain ⟨⟨awaits, whole⟩, later⟩ := List.forall_mem_cons.mp waiting
      cases frame with
      | list items =>
          refine .item later (List.forall_mem_cons.mpr ⟨intact, whole⟩) (List.cons_ne_nil _ _) ?_
          simp [openTokens_cons, Frame.tokens, itemPiece]
      | member members key =>
          refine .member later (List.forall_mem_cons.mpr ⟨intact, whole⟩)
            (List.cons_ne_nil _ _) ?_
          simp [openTokens_cons, Frame.tokens, memberPiece]
      | object members => exact awaits.elim

theorem explains_stepValue {frames : List Frame} (waiting : Waiting frames) (phase : Phase)
    (token : Token) :
    (stepValue ⟨frames, phase, none⟩ token).Explains (openTokens frames ++ [token]) := by
  cases token with
  | null => exact explains_place waiting rfl phase none
  | bool value => exact explains_place waiting rfl phase none
  | number numeral => exact explains_place waiting rfl phase none
  | text content => exact explains_place waiting rfl phase none
  | leftBracket =>
      have opened := Explains.firstItem waiting
      rwa [openTokens_cons] at opened
  | leftBrace =>
      have opened := Explains.firstKey waiting
      rwa [openTokens_cons] at opened
  | _ => exact .stopped rfl

theorem explains_closeList {outer : List Frame} (waiting : Waiting outer) {items : List Json}
    (intact : (Frame.list items).Intact) {read : List Token}
    (all : read = openTokens outer ++ .leftBracket :: itemTokens items.reverse) (phase : Phase) :
    (closeList ⟨.list items :: outer, phase, none⟩).Explains (read ++ [.rightBracket]) := by
  have whole : (Json.list items.reverse).intact = true := by
    rw [Json.intact, intactItems_iff]
    exact fun item member => intact item (List.mem_reverse.mp member)
  have closed := explains_place waiting whole phase none
  rw [all, List.append_assoc]
  rwa [Json.tokens] at closed

theorem explains_closeObject {outer : List Frame} (waiting : Waiting outer)
    {members : List (Option String × Json)} (intact : (Frame.object members).Intact)
    {read : List Token}
    (all : read = openTokens outer ++ .leftBrace :: memberTokens members.reverse)
    (phase : Phase) :
    (closeObject ⟨.object members :: outer, phase, none⟩).Explains (read ++ [.rightBrace]) := by
  have whole : (Json.object members.reverse).intact = true := by
    rw [Json.intact, intactMembers_iff]
    exact fun member listed => intact member (List.mem_reverse.mp listed)
  have closed := explains_place waiting whole phase none
  rw [all, List.append_assoc]
  rwa [Json.tokens] at closed

theorem explains_openMember {outer : List Frame} (waiting : Waiting outer)
    {members : List (Option String × Json)} (intact : (Frame.object members).Intact)
    (phase : Phase) (key : Option String) :
    (openMember ⟨.object members :: outer, phase, none⟩ key).Explains
      (openTokens (.object members :: outer) ++ [.text key]) := by
  refine .colon waiting intact ?_
  simp [openTokens_cons, Frame.tokens]

theorem Explains.step {building : Building} {read : List Token}
    (explains : building.Explains read) (token : Token) :
    (building.step token).Explains (read ++ [token]) := by
  have cons {frame : Frame} {outer : List Frame} (waiting : Waiting outer)
      (awaits : frame.AwaitsValue) (intact : frame.Intact) : Waiting (frame :: outer) :=
    List.forall_mem_cons.mpr ⟨⟨awaits, intact⟩, waiting⟩
  cases explains with
  | value waiting => exact explains_stepValue waiting .value token
  | @firstItem outer waiting =>
      have empty : (Frame.list []).Intact := List.forall_mem_nil _
      by_cases closes : token = .rightBracket
      · subst closes
        exact explains_closeList waiting empty (openTokens_cons _ _) .firstItem
      · have awaits : AwaitsValue ⟨.list [] :: outer, .firstItem, none⟩ := .inr rfl
        have onward : Waiting (.list [] :: outer) := cons waiting trivial empty
        rw [awaits.step closes]
        exact explains_stepValue onward .firstItem token
  | firstKey waiting =>
      have empty : (Frame.object []).Intact := List.forall_mem_nil _
      cases token with
      | rightBrace => exact explains_closeObject waiting empty (openTokens_cons _ _) .firstKey
      | text key => exact explains_openMember waiting empty .firstKey key
      | _ => exact .stopped rfl
  | key waiting intact =>
      cases token with
      | text key => exact explains_openMember waiting intact .key key
      | _ => exact .stopped rfl
  | @colon outer members key _ waiting intact all =>
      cases token with
      | colon =>
          have onward : Waiting (.member members key :: outer) := cons waiting trivial intact
          rw [all]
          exact .value onward
      | _ => exact .stopped rfl
  | @item outer items _ waiting intact nonempty all =>
      have nonempty : items.reverse ≠ [] := fun none => nonempty (List.reverse_eq_nil_iff.mp none)
      cases token with
      | comma =>
          have onward : Waiting (.list items :: outer) := cons waiting trivial intact
          rw [all]
          exact .value onward
      | rightBracket =>
          rw [openTokens_cons, Frame.tokens, ← itemTokens_comma nonempty, ← List.cons_append,
            ← List.append_assoc] at all
          exact explains_closeList waiting intact (List.append_cancel_right all) .continuation
      | _ => exact .stopped rfl
  | @member outer members _ waiting intact nonempty all =>
      have nonempty : members.reverse ≠ [] :=
        fun none => nonempty (List.reverse_eq_nil_iff.mp none)
      cases token with
      | comma =>
          rw [all]
          exact .key waiting intact
      | rightBrace =>
          rw [openTokens_cons, Frame.tokens, ← memberTokens_comma nonempty, ← List.cons_append,
            ← List.append_assoc] at all
          exact explains_closeObject waiting intact (List.append_cancel_right all) .continuation
      | _ => exact .stopped rfl
  | root intact => cases token <;> exact .stopped rfl
  | stopped phase =>
      have stays : building.step token = building.stop := by
        unfold Building.step
        rw [phase]
      rw [stays]
      exact .stopped rfl

theorem explains_run (tokens : List Token) :
    (tokens.foldl Building.step .start).Explains tokens := by
  induction tokens using List.reverseRecOn with
  | nil => exact .value (List.forall_mem_nil _)
  | append_singleton tokens token ih =>
      rw [List.foldl_concat]
      exact ih.step token

theorem Explains.finish {building : Building} {read : List Token} {json : Json}
    (explains : building.Explains read) (finished : building.finish = ⟨json, true⟩) :
    json.intact = true ∧ read = json.tokens := by
  cases explains with
  | root intact =>
      cases finished
      exact ⟨intact, rfl⟩
  | stopped phase =>
      unfold Building.finish at finished
      split at finished <;> simp [phase] at finished
  | _ => cases finished

end Building

mutual

theorem junk_notMem_tokens (json : Json) : .junk ∉ json.tokens := by
  cases json with
  | list items => simp [tokens, junk_notMem_itemTokens items]
  | object members => simp [tokens, junk_notMem_memberTokens members]
  | _ => simp [tokens]

theorem junk_notMem_itemTokens (items : List Json) : .junk ∉ itemTokens items := by
  match items with
  | [] => simp [itemTokens]
  | [item] => exact junk_notMem_tokens item
  | item :: next :: rest =>
      simp [itemTokens, junk_notMem_tokens item, junk_notMem_itemTokens (next :: rest)]

theorem junk_notMem_memberTokens (members : List (Option String × Json)) :
    .junk ∉ memberTokens members := by
  match members with
  | [] => simp [memberTokens]
  | [(key, value)] => simp [memberTokens, junk_notMem_tokens value]
  | (key, value) :: next :: rest =>
      simp [memberTokens, junk_notMem_tokens value, junk_notMem_memberTokens (next :: rest)]

end

/-- A text that is read to its end writes what it is read as. -/
theorem writtenAs_of_parse {text : String} {json : Json}
    (parsed : Document.parse text = ⟨json, true⟩) : json.WrittenAs text := by
  have explains := Building.explains_run (tokenize text.toList)
  obtain ⟨intact, tokens⟩ := explains.finish parsed
  have clean : .junk ∉ tokenize text.toList := tokens ▸ junk_notMem_tokens json
  have spelled := spelledBy_tokenize clean
  rw [tokens] at spelled
  exact ⟨intact, spelled⟩

end RsaAudit.Json
