import RsaAudit.Json.Token
import RsaAudit.Yaml.Cursor

/-!
# The text of scalars

A scalar is written plain, between quotes, or as an indented block.  Each of the
functions below reads one scalar from its first character on; `none` means that
the text is not well formed.

Plain and quoted scalars may span lines.  A gap with one line feed reads as one
space; with more, as one line feed less.
-/

namespace RsaAudit.Yaml

/-- A run of separators inside a scalar. -/
structure Gap where
  /-- The blanks, where the run stays on its line. -/
  blanks : List Char
  /-- Whether the run goes past the end of a line. -/
  broken : Bool
  /-- The first line break, unless it was escaped. -/
  first : List Char
  /-- The line breaks after the first. -/
  later : List Char

namespace Gap

def none : Gap := ⟨[], false, [], []⟩

/-- The gap that a run of separators makes. -/
def ofRun (run : List Char) : Gap :=
  match run.filter isBreak with
  | [] => ⟨run, false, [], []⟩
  | first :: later => ⟨[], true, [first], later⟩

/-- The gap that a run of separators makes after an escaped line break. -/
def afterEscape (run : List Char) : Gap :=
  ⟨[], true, [], run.filter isBreak⟩

/-- How the run reads when more text follows. -/
def text (gap : Gap) : List Char :=
  if gap.broken then
    if gap.first = ['\n'] then if gap.later.isEmpty then [' '] else gap.later
    else gap.first ++ gap.later
  else gap.blanks

end Gap

/-- Whether a run holds a tab that stands before column `indent` of a line after
the first. -/
def tabInIndentation (indent : Nat) (broken : Bool) (column : Nat) : List Char → Bool
  | [] => false
  | char :: rest =>
      if isBreak char then tabInIndentation indent true 0 rest
      else (broken && char == '\t' && decide (column < indent)) ||
        tabInIndentation indent broken (column + 1) rest

namespace Plain

/-- Whether a colon may not stand before what follows, in a flow collection. -/
def refusesColon : List Char → Bool
  | [] => false
  | char :: _ => isFlowIndicator char || char == '?'

/-- The characters up to the next separator or the end of the scalar. -/
def chunk (flow : Bool) : List Char → Option (List Char)
  | [] => some []
  | char :: rest =>
      if isSpacing char then some []
      else if flow && char == ':' && refusesColon rest then none
      else if (char == ':' && separated rest) || (flow && isFlowIndicator char) then
        some []
      else (char :: ·) <$> chunk flow rest

/-- A plain scalar: its text, given the part of it that has been read, last
character first, whether a line break follows it, and the place after it.  It ends
at a line that is indented less than `indent`, unless it stands in a flow
collection. -/
def scan (flow : Bool) (indent : Nat) :
    (fuel : Nat) → Cursor → Gap → List Char → Option (List Char × Bool × Cursor)
  | 0, _, _, _ => none
  | fuel + 1, cursor, gap, text =>
      if cursor.atDocumentMark || cursor.rest.head? == some '#' then
        some (text.reverse, gap.broken, cursor)
      else do
        let chunk ← chunk flow cursor.rest
        if chunk.isEmpty then return (text.reverse, gap.broken, cursor)
        let cursor := cursor.advance chunk.length
        let text := chunk.reverse ++ (gap.text.reverse ++ text)
        let run := cursor.run isSpacing
        if run.isEmpty then return (text.reverse, false, cursor)
        if tabInIndentation indent false cursor.column run then none
        let gap := Gap.ofRun run
        let cursor := cursor.advance run.length
        if !flow && decide (cursor.column < indent) then
          return (text.reverse, gap.broken, cursor)
        scan flow indent fuel cursor gap text

end Plain

namespace Quoted

def escaped? (char : Char) : Option Char :=
  match char with
  | '0' => some '\x00'
  | 'a' => some '\x07'
  | 'b' => some '\x08'
  | 't' => some '\t'
  | '\t' => some '\t'
  | 'n' => some '\n'
  | 'v' => some '\x0b'
  | 'f' => some '\x0c'
  | 'r' => some '\r'
  | 'e' => some '\x1b'
  | ' ' => some ' '
  | '"' => some '"'
  | '/' => some '/'
  | '\\' => some '\\'
  | 'N' => some '\x85'
  | '_' => some '\xa0'
  | 'L' => some '\u2028'
  | 'P' => some '\u2029'
  | _ => none

/-- The number of hexadecimal digits after an escape letter. -/
def hexLength? (char : Char) : Option Nat :=
  match char with
  | 'x' => some 2
  | 'u' => some 4
  | 'U' => some 8
  | _ => none

def hexValue (digits : List Char) : Option Nat :=
  digits.foldlM (fun value char => (16 * value + ·) <$> Json.hexDigit? char) 0

def charOf? (code : Nat) : Option Char :=
  if code < 0xD800 ∨ (0xDFFF < code ∧ code ≤ 0x10FFFF) then some (Char.ofNat code)
  else none

/-- The character that an escape stands for, given what follows the backslash, and
how many characters the escape has after it. -/
def escape? : List Char → Option (Char × Nat)
  | [] => none
  | char :: rest =>
      match hexLength? char with
      | some length => do
          if rest.length < length then none
          let code ← hexValue (rest.take length)
          return (← charOf? code, length + 1)
      | none => (·, 1) <$> escaped? char

/-- A quoted scalar after its opening quote: its text, given the part of it that
has been read, last character first, and the place after the closing quote. -/
def scan (single : Bool) :
    (fuel : Nat) → Cursor → List Char → Option (List Char × Cursor)
  | 0, _, _ => none
  | fuel + 1, cursor, text =>
      if cursor.atDocumentMark then none
      else
        match cursor.rest with
        | [] => none
        | char :: rest =>
            if isSpacing char then
              let run := cursor.run isSpacing
              let gap := Gap.ofRun run
              scan single fuel (cursor.advance run.length) (gap.text.reverse ++ text)
            else if single then
              if char == '\'' then
                if rest.head? == some '\'' then
                  scan single fuel (cursor.advance 2) ('\'' :: text)
                else some (text.reverse, cursor.skip)
              else scan single fuel cursor.skip (char :: text)
            else if char == '"' then some (text.reverse, cursor.skip)
            else if char == '\\' then
              if (rest.head?.map isBreak).getD false then
                let cursor := cursor.advance 2
                let run := cursor.run isSpacing
                let gap := Gap.afterEscape run
                scan single fuel (cursor.advance run.length) (gap.text.reverse ++ text)
              else do
                let (meant, length) ← escape? rest
                scan single fuel (cursor.advance (length + 1)) (meant :: text)
            else scan single fuel cursor.skip (char :: text)

end Quoted

namespace Block

/-- What becomes of the line breaks at the end of a block. -/
inductive Chomping where
  | strip
  | clip
  | keep
  deriving DecidableEq

def chomping? : Char → Option Chomping
  | '-' => some .strip
  | '+' => some .keep
  | _ => none

def isDigit (char : Char) : Bool :=
  (Decimal.Digit.ofChar? char).isSome

/-- An indentation indicator, which must not be zero. -/
def increment? (char : Char) : Option Nat :=
  match Decimal.Digit.ofChar? char with
  | some digit => if digit.val = 0 then none else some digit.val
  | none => none

/-- The chomping indicator at the front of a text, if there is one. -/
def leadingChomping (chars : List Char) : Option Chomping :=
  chars.head?.bind chomping?

/-- The indentation indicator at the front of a text; zero if there is none. -/
def leadingIncrement (chars : List Char) : Option Nat :=
  match chars with
  | char :: _ => if isDigit char then increment? char else some 0
  | [] => some 0

/-- The indicators after the mark of a block, in either order, and the number of
characters that write them. -/
def header (chars : List Char) : Option (Chomping × Nat × Nat) :=
  match leadingChomping chars with
  | some chomping => do
      let increment ← leadingIncrement (chars.drop 1)
      return (chomping, increment, if increment = 0 then 1 else 2)
  | none => do
      let increment ← leadingIncrement chars
      if increment = 0 then return (.clip, 0, 0)
      match leadingChomping (chars.drop 1) with
      | some chomping => return (chomping, increment, 2)
      | none => return (.clip, increment, 1)

/-- Whether a column lies in the indentation; an indentation of zero is not settled
yet and has no end. -/
def indents (indent column : Nat) : Bool :=
  indent == 0 || decide (column < indent)

/-- Pass over blank lines: the place of the next line with text, the deepest column
met, and the line breaks passed, given those passed before, last one first. -/
def skipBlankLines (indent : Nat) :
    (fuel : Nat) → Cursor → Nat → List Char → Option (Cursor × Nat × List Char)
  | 0, _, _, _ => none
  | fuel + 1, cursor, deepest, breaks =>
      match cursor.rest with
      | [] => some (cursor, max deepest cursor.column, breaks.reverse)
      | char :: _ =>
          if char == ' ' && indents indent cursor.column then
            skipBlankLines indent fuel cursor.skip deepest breaks
          else if char == '\t' && indents indent cursor.column then none
          else
            let deepest := max deepest cursor.column
            if isBreak char then
              skipBlankLines indent fuel cursor.skip deepest (char :: breaks)
            else some (cursor, deepest, breaks.reverse)

/-- How the break before a line reads, and the breaks of the blank lines after it.
In a folded block a line feed between two lines that do not start with a blank
reads as a space, or not at all before blank lines. -/
def joint (folded : Bool) (afterBlank : Bool) (beforeBlank : Bool)
    (lineBreak breaks : List Char) : List Char :=
  if folded && lineBreak == ['\n'] && !afterBlank && !beforeBlank then
    (if breaks.isEmpty then [' '] else []) ++ breaks
  else lineBreak ++ breaks

/-- The lines of a block, with a bound on the steps to pass over blank lines: the
text, the break after the last line, those of the blank lines after it, and the
place after them.  Given are the text so far, last character first, whether the
last line starts with a blank, and the same breaks of it. -/
def lines (folded : Bool) (indent bound : Nat) :
    (fuel : Nat) → Cursor → List Char → Bool → List Char → List Char →
    Option (List Char × List Char × List Char × Cursor)
  | 0, _, _, _, _, _ => none
  | fuel + 1, cursor, text, afterBlank, lineBreak, breaks =>
      match cursor.rest with
      | [] => some (text.reverse, lineBreak, breaks, cursor)
      | char :: _ =>
          if cursor.column ≠ indent then some (text.reverse, lineBreak, breaks, cursor)
          else do
            let startsBlank := isBlank char
            let line := cursor.run (!isBreak ·)
            let joint := joint folded afterBlank startsBlank lineBreak breaks
            let text := line.reverse ++ (joint.reverse ++ text)
            let cursor := cursor.advance line.length
            let lineBreak := cursor.rest.take 1
            let (cursor, _, breaks) ←
              skipBlankLines indent bound cursor.skip 0 []
            lines folded indent bound fuel cursor text startsBlank lineBreak breaks

/-- A block scalar after its mark, inside a node with the given indentation: its
text and the place after it.  The bound is one on the number of its characters. -/
def scan (folded : Bool) (outer : Int) (bound : Nat) (cursor : Cursor) :
    Option (List Char × Cursor) := do
  let (chomping, increment, length) ← header cursor.rest
  let cursor ← (cursor.advance length).skipLine
  let given := if increment = 0 then 0 else outer.toNat + increment
  let (cursor, deepest, breaks) ←
    skipBlankLines given bound cursor 0 []
  let indent := if given = 0 then max (max deepest (outer + 1).toNat) 1 else given
  let (text, lineBreak, breaks, cursor) ←
    lines folded indent bound bound cursor [] false [] breaks
  let ending :=
    match chomping with
    | .strip => []
    | .clip => lineBreak
    | .keep => lineBreak ++ breaks
  return (text ++ ending, cursor)

end Block

end RsaAudit.Yaml
