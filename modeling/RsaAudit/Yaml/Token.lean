import RsaAudit.Yaml.ScalarText
import RsaAudit.Yaml.Tag

/-!
# YAML tokens

The marks of a text become tokens.  Indentation opens and closes block
collections, and a key that carries no mark of its own is recognised only by the
colon after it: its tokens go back to the place where the key starts.

So the tokens from such a place on are not certain before the colon is found or
ruled out.  When the text turns out not to be well formed, only the tokens that
were certain by then exist.
-/

namespace RsaAudit.Yaml

/-- How a scalar is written. -/
inductive Style where
  | plain
  | quoted
  | literal
  | folded
  deriving DecidableEq, Inhabited

/-- A lexical unit.  A block collection has a start and an end, as a flow
collection has. -/
inductive Token where
  | streamEnd
  | directive (content : Directive)
  | documentStart
  | documentEnd
  | blockSequenceStart
  | blockMappingStart
  | blockEnd
  | flowSequenceStart
  | flowSequenceEnd
  | flowMappingStart
  | flowMappingEnd
  | blockEntry
  | flowEntry
  | key
  | value
  | alias (name : String)
  | anchor (name : String)
  | tag (written : WrittenTag)
  | scalar (text : String) (style : Style)
  deriving DecidableEq, Inhabited

/-- A place that may turn out to start a key. -/
structure PendingKey where
  /-- Whether nothing but a key may start there. -/
  required : Bool
  /-- The number of tokens before it. -/
  number : Nat
  index : Nat
  line : Nat
  column : Nat

/-- The state of the scan. -/
structure Scanning where
  cursor : Cursor
  /-- A bound on the steps that one token may take. -/
  bound : Nat
  /-- Whether the text goes on with a portion that cannot be taken in. -/
  torn : Bool
  flowLevel : Nat
  /-- The column of the innermost block collection, `-1` outside all of them. -/
  indent : Int
  /-- The columns of the block collections around it. -/
  outerIndents : List Int
  /-- Whether a key may start at the next token. -/
  keyAllowed : Bool
  /-- The place in the innermost collection that may start a key. -/
  pendingKey : Option PendingKey
  /-- Such places in the collections around it. -/
  outerKeys : List (Option PendingKey)
  /-- The tokens, last first. -/
  tokens : List Token
  /-- The number of tokens. -/
  count : Nat
  ended : Bool

namespace Scanning

def start (chars : List Char) (torn : Bool) : Scanning where
  cursor := .ofChars chars
  bound := chars.length + 1
  torn
  flowLevel := 0
  indent := -1
  outerIndents := []
  keyAllowed := true
  pendingKey := none
  outerKeys := []
  tokens := []
  count := 0
  ended := false

def emit (scanning : Scanning) (token : Token) : Scanning :=
  { scanning with tokens := token :: scanning.tokens, count := scanning.count + 1 }

/-- One more token, at an earlier place. -/
def insert (scanning : Scanning) (number : Nat) (token : Token) : Scanning :=
  let after := scanning.count - number
  { scanning with
    tokens := scanning.tokens.take after ++ token :: scanning.tokens.drop after
    count := scanning.count + 1 }

def advance (scanning : Scanning) (count : Nat) : Scanning :=
  { scanning with cursor := scanning.cursor.advance count }

/-- Allow or forbid a key at the next token. -/
def allowKey (scanning : Scanning) (allowed : Bool) : Scanning :=
  { scanning with keyAllowed := allowed }

def inFlow (scanning : Scanning) : Bool :=
  scanning.flowLevel != 0

/-- Whether a place is too far back to start a key. -/
def outOfReach (scanning : Scanning) (key : PendingKey) : Bool :=
  decide (key.line < scanning.cursor.line) ||
    decide (key.index + 1024 < scanning.cursor.index)

/-- The place, unless it is too far back; then it must not be required. -/
def dropStale (scanning : Scanning) : Option PendingKey → Option (Option PendingKey)
  | none => some none
  | some key =>
      if scanning.outOfReach key then if key.required then none else some none
      else some (some key)

/-- Give up the places that are too far back to start a key. -/
def dropStaleKeys (scanning : Scanning) : Option Scanning :=
  if (scanning.pendingKey :: scanning.outerKeys).any (·.any scanning.outOfReach) then do
    let outerKeys ← scanning.outerKeys.mapM scanning.dropStale
    let pendingKey ← scanning.dropStale scanning.pendingKey
    return { scanning with pendingKey, outerKeys }
  else some scanning

/-- Give up the place in the innermost collection; it must not be required. -/
def removeKey (scanning : Scanning) : Option Scanning :=
  if scanning.pendingKey.any PendingKey.required then none
  else some { scanning with pendingKey := none }

/-- Note that a key may start here. -/
def saveKey (scanning : Scanning) : Option Scanning :=
  if scanning.keyAllowed then do
    let key : PendingKey := {
      required := !scanning.inFlow && scanning.indent == scanning.cursor.column
      number := scanning.count
      index := scanning.cursor.index
      line := scanning.cursor.line
      column := scanning.cursor.column }
    return { ← scanning.removeKey with pendingKey := some key }
  else some scanning

/-- Open a block collection at a column, if it is deeper than the innermost. -/
def deepen (scanning : Scanning) (column : Nat) (number : Nat) (token : Token) :
    Scanning :=
  if !scanning.inFlow && decide (scanning.indent < column) then
    { scanning.insert number token with
      indent := column
      outerIndents := scanning.indent :: scanning.outerIndents }
  else scanning

/-- Close the block collections among `outer` that are deeper than a column. -/
def closeDeeper (column : Int) : List Int → Scanning → Scanning
  | [], scanning => scanning
  | outer :: rest, scanning =>
      if column < scanning.indent then
        closeDeeper column rest
          { scanning.emit .blockEnd with indent := outer, outerIndents := rest }
      else scanning

/-- Close the block collections that are deeper than a column. -/
def unindent (scanning : Scanning) (column : Int) : Scanning :=
  if scanning.inFlow then scanning
  else closeDeeper column scanning.outerIndents scanning

/-- Pass over white space, comments and line ends. -/
def skipToToken : (fuel : Nat) → Scanning → Scanning
  | 0, scanning => scanning
  | fuel + 1, scanning =>
      match scanning.cursor.rest with
      | [] => scanning
      | char :: _ =>
          let tabs := scanning.inFlow || !scanning.keyAllowed
          if char == ' ' || (char == '\t' && tabs) then
            skipToToken fuel (scanning.advance 1)
          else if char == byteOrderMark && scanning.cursor.column == 0 then
            skipToToken fuel (scanning.advance 1)
          else if char == '#' then
            skipToToken fuel
              { scanning with cursor := scanning.cursor.skipRun (!isBreak ·) }
          else if isBreak char then
            skipToToken fuel
              ((scanning.advance 1).allowKey (scanning.keyAllowed || !scanning.inFlow))
          else scanning

/-- The end of the text, which ends its last line. -/
def fetchEnd (scanning : Scanning) : Option Scanning := do
  let scanning := { scanning with cursor := scanning.cursor.breakLine }
  let scanning ← (scanning.unindent (-1)).removeKey
  return { (scanning.allowKey false).emit .streamEnd with ended := true }

def fetchDirective (scanning : Scanning) : Option Scanning := do
  let scanning := (← (scanning.unindent (-1)).removeKey).allowKey false
  let (directive, cursor) ← Directive.scan scanning.cursor.skip
  return { scanning with cursor }.emit (.directive directive)

/-- A mark that starts or ends a document. -/
def fetchDocumentMark (scanning : Scanning) (token : Token) : Option Scanning := do
  let scanning ← (scanning.unindent (-1)).removeKey
  return ((scanning.allowKey false).advance 3).emit token

def fetchFlowStart (scanning : Scanning) (token : Token) : Option Scanning := do
  let scanning ← scanning.saveKey
  let scanning := { scanning with
    flowLevel := scanning.flowLevel + 1
    pendingKey := none
    outerKeys := scanning.pendingKey :: scanning.outerKeys }
  return ((scanning.allowKey true).advance 1).emit token

def fetchFlowEnd (scanning : Scanning) (token : Token) : Option Scanning := do
  let scanning ← scanning.removeKey
  let scanning :=
    if scanning.inFlow then { scanning with
      flowLevel := scanning.flowLevel - 1
      pendingKey := scanning.outerKeys.head?.getD none
      outerKeys := scanning.outerKeys.tail }
    else scanning
  return ((scanning.allowKey false).advance 1).emit token

/-- The comma of a flow collection. -/
def fetchFlowEntry (scanning : Scanning) : Option Scanning := do
  let scanning ← scanning.removeKey
  return ((scanning.allowKey true).advance 1).emit .flowEntry

/-- A mark that may open a block collection at its column. -/
def openBlock (scanning : Scanning) (token : Token) : Option Scanning :=
  if scanning.inFlow then some scanning
  else if scanning.keyAllowed then
    some (scanning.deepen scanning.cursor.column scanning.count token)
  else none

/-- The dash of a block sequence. -/
def fetchBlockEntry (scanning : Scanning) : Option Scanning := do
  let scanning ← (← scanning.openBlock .blockSequenceStart).removeKey
  return ((scanning.allowKey true).advance 1).emit .blockEntry

/-- The question mark before a key. -/
def fetchKey (scanning : Scanning) : Option Scanning := do
  let scanning ← (← scanning.openBlock .blockMappingStart).removeKey
  return ((scanning.allowKey !scanning.inFlow).advance 1).emit .key

/-- The colon before a value. -/
def fetchValue (scanning : Scanning) : Option Scanning :=
  match scanning.pendingKey with
  | some key =>
      let scanning := (scanning.insert key.number .key).deepen key.column key.number
        .blockMappingStart
      let scanning := { scanning with pendingKey := none }
      some (((scanning.allowKey false).advance 1).emit .value)
  | none => do
      let scanning ← scanning.openBlock .blockMappingStart
      return ((scanning.allowKey !scanning.inFlow).advance 1).emit .value

/-- Whether the name of an anchor may end before what follows. -/
def endsName : List Char → Bool
  | [] => true
  | char :: _ =>
      isSpacing char || ['?', ':', ',', ']', '\x7d', '%', '@', '\x60'].contains char

def fetchName (scanning : Scanning) (token : String → Token) : Option Scanning := do
  let scanning := ((← scanning.saveKey).allowKey false).advance 1
  let name := scanning.cursor.run isNameChar
  let scanning := scanning.advance name.length
  if name.isEmpty || !endsName scanning.cursor.rest then none
  return scanning.emit (token (String.ofList name))

def fetchTag (scanning : Scanning) : Option Scanning := do
  let scanning := ((← scanning.saveKey).allowKey false).advance 1
  let (written, length) ← WrittenTag.scan scanning.cursor.rest
  let scanning := scanning.advance length
  let next := scanning.cursor.rest
  if !separated next && !(scanning.inFlow && next.head? == some ',') then none
  return scanning.emit (.tag written)

def fetchBlockScalar (scanning : Scanning) (folded : Bool) : Option Scanning := do
  let scanning := (← scanning.removeKey).allowKey true
  let (text, cursor) ← Block.scan folded scanning.indent scanning.bound
    scanning.cursor.skip
  let style := if folded then .folded else .literal
  return { scanning with cursor }.emit (.scalar (String.ofList text) style)

def fetchQuoted (scanning : Scanning) (single : Bool) : Option Scanning := do
  let scanning := (← scanning.saveKey).allowKey false
  let (text, cursor) ←
    Quoted.scan single scanning.bound scanning.cursor.skip []
  return { scanning with cursor }.emit (.scalar (String.ofList text) .quoted)

def fetchPlain (scanning : Scanning) : Option Scanning := do
  let scanning ← scanning.saveKey
  let (text, broken, cursor) ← Plain.scan scanning.inFlow (scanning.indent + 1).toNat
    scanning.bound scanning.cursor .none []
  let scanning := { scanning with cursor, keyAllowed := broken }
  return scanning.emit (.scalar (String.ofList text) .plain)

/-- Whether a plain scalar may start with a character. -/
def startsPlain (inFlow : Bool) (char : Char) (rest : List Char) : Bool :=
  if char == '-' then !(rest.head?.any isBlank)
  else if char == '?' || char == ':' then !inFlow && !separated rest
  else !(isSpacing char || isFlowIndicator char ||
    ['#', '&', '*', '!', '|', '>', '\'', '"', '%', '@', '\x60'].contains char)

/-- The token that starts with the given character, which is the next one. -/
def fetchAt (scanning : Scanning) (char : Char) (rest : List Char) : Option Scanning :=
  if scanning.cursor.column == 0 && char == '%' then scanning.fetchDirective
  else if scanning.cursor.atMark '-' then scanning.fetchDocumentMark .documentStart
  else if scanning.cursor.atMark '.' then scanning.fetchDocumentMark .documentEnd
  else if char == '[' then scanning.fetchFlowStart .flowSequenceStart
  else if char == '\x7b' then scanning.fetchFlowStart .flowMappingStart
  else if char == ']' then scanning.fetchFlowEnd .flowSequenceEnd
  else if char == '\x7d' then scanning.fetchFlowEnd .flowMappingEnd
  else if char == ',' then scanning.fetchFlowEntry
  else if char == '-' && separated rest then scanning.fetchBlockEntry
  else if char == '?' && (scanning.inFlow || separated rest) then scanning.fetchKey
  else if char == ':' && (scanning.inFlow || separated rest) then scanning.fetchValue
  else if char == '*' then scanning.fetchName .alias
  else if char == '&' then scanning.fetchName .anchor
  else if char == '!' then scanning.fetchTag
  else if char == '|' && !scanning.inFlow then scanning.fetchBlockScalar false
  else if char == '>' && !scanning.inFlow then scanning.fetchBlockScalar true
  else if char == '\'' then scanning.fetchQuoted true
  else if char == '"' then scanning.fetchQuoted false
  else if startsPlain scanning.inFlow char rest then scanning.fetchPlain
  else none

/-- Whether fewer than the given number of characters are left before a portion
that cannot be taken in. -/
def nearTear (scanning : Scanning) (count : Nat) : Bool :=
  scanning.torn && (scanning.cursor.rest.drop (count - 1)).isEmpty

/-- The state after the next token. -/
def fetchToken (scanning : Scanning) : Option Scanning := do
  let scanning := skipToToken scanning.bound scanning
  if scanning.nearTear 4 then none
  let scanning ← scanning.dropStaleKeys
  let scanning := scanning.unindent scanning.cursor.column
  match scanning.cursor.rest with
  | [] => scanning.fetchEnd
  | char :: rest => scanning.fetchAt char rest

/-- The state after the next token, unless the text cannot be taken in as far as
the token reaches. -/
def fetch (scanning : Scanning) : Option Scanning := do
  let scanning ← scanning.fetchToken
  if scanning.nearTear 1 then none else scanning.dropStaleKeys

/-- The number of tokens before the first place that may start a key. -/
def certain (scanning : Scanning) : Nat :=
  ((scanning.pendingKey :: scanning.outerKeys).filterMap id).foldl
    (fun least key => min least key.number) scanning.count

/-- The tokens of the rest of a text. -/
def run : (fuel : Nat) → Scanning → List Token
  | 0, _ => []
  | fuel + 1, scanning =>
      if scanning.ended then scanning.tokens.reverse
      else
        match scanning.fetch with
        | some next => run fuel next
        | none => scanning.tokens.reverse.take scanning.certain

end Scanning

/-- The tokens of a text; the last one is `streamEnd` exactly if the whole text
could be cut into tokens. -/
def tokenize (text : String) : List Token :=
  let chars := text.toList
  let sound := unifyBreaks (soundPortions [] portionBytes chars)
  Scanning.run (sound.length + 2) (.start sound (!chars.all isAdmissible))

end RsaAudit.Yaml
