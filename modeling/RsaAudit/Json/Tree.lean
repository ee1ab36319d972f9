import RsaAudit.Json.Token

/-!
# JSON documents

The tokens of a text are put together to a tree by one pass with a stack.  The
tree also describes a text that stops being JSON somewhere: what was read up to
that place is kept, and the leaf `broken` stands at it.  So a reader that visits
a tree in the order of the text meets the first problem of the text first,
whether it is one of meaning or one of form.
-/

namespace RsaAudit

/-- A JSON value, with numerals as they are written and members in the order of
the text.  A text that holds an unpaired surrogate has no content. -/
inductive Json where
  | null
  | bool (value : Bool)
  | number (numeral : Json.Numeral)
  | text (content : Option String)
  | list (items : List Json)
  | object (members : List (Option String × Json))
  /-- The place where the text stops being JSON. -/
  | broken
  deriving Inhabited

namespace Json

/-- A list or an object that has been opened, with its parts last first. -/
inductive Frame where
  | list (items : List Json)
  | object (members : List (Option String × Json))
  /-- An object with a key whose value is to come. -/
  | member (members : List (Option String × Json)) (key : Option String)

/-- What the next token has to be. -/
inductive Phase where
  | value
  /-- A value or the end of the list just opened. -/
  | firstItem
  /-- A key or the end of the object just opened. -/
  | firstKey
  | key
  | colon
  /-- A comma or the end of what is open. -/
  | continuation
  /-- The tokens have stopped making sense. -/
  | stopped
  deriving DecidableEq

/-- The state of the pass: what is open, innermost first, what has to follow, and
the tree once it is complete. -/
structure Building where
  frames : List Frame
  phase : Phase
  root : Option Json

namespace Building

def start : Building := ⟨[], .value, none⟩

/-- A value takes its place in what is open. -/
def place (building : Building) (value : Json) : Building :=
  match building.frames with
  | [] => ⟨[], .continuation, some value⟩
  | .list items :: outer => ⟨.list (value :: items) :: outer, .continuation, none⟩
  | .member members key :: outer =>
      ⟨.object ((key, value) :: members) :: outer, .continuation, none⟩
  | .object members :: outer =>
      ⟨.object ((none, value) :: members) :: outer, .continuation, none⟩

def push (building : Building) (frame : Frame) (phase : Phase) : Building :=
  ⟨frame :: building.frames, phase, none⟩

def stop (building : Building) : Building :=
  { building with phase := .stopped }

/-- A token where a value is expected. -/
def stepValue (building : Building) : Token → Building
  | .null => building.place .null
  | .bool value => building.place (.bool value)
  | .number numeral => building.place (.number numeral)
  | .text content => building.place (.text content)
  | .leftBracket => building.push (.list []) .firstItem
  | .leftBrace => building.push (.object []) .firstKey
  | _ => building.stop

def closeList (building : Building) : Building :=
  match building.frames with
  | .list items :: outer =>
      Building.place { building with frames := outer } (.list items.reverse)
  | _ => building.stop

def closeObject (building : Building) : Building :=
  match building.frames with
  | .object members :: outer =>
      Building.place { building with frames := outer } (.object members.reverse)
  | _ => building.stop

/-- A key of the innermost object. -/
def openMember (building : Building) (key : Option String) : Building :=
  match building.frames with
  | .object members :: outer => ⟨.member members key :: outer, .colon, none⟩
  | _ => building.stop

def next (building : Building) : Building :=
  match building.frames with
  | .list _ :: _ => { building with phase := .value }
  | .object _ :: _ => { building with phase := .key }
  | _ => building.stop

def step (building : Building) (token : Token) : Building :=
  match building.phase, token with
  | .value, token => building.stepValue token
  | .firstItem, .rightBracket => building.closeList
  | .firstItem, token => building.stepValue token
  | .firstKey, .rightBrace => building.closeObject
  | .firstKey, .text key | .key, .text key => building.openMember key
  | .colon, .colon => { building with phase := .value }
  | .continuation, .comma => building.next
  | .continuation, .rightBracket => building.closeList
  | .continuation, .rightBrace => building.closeObject
  | _, _ => building.stop

/-- What is open is closed around a place where the text stopped being JSON. -/
def breakOff : List Frame → Json → Json
  | [], inner => inner
  | .list items :: outer, inner => breakOff outer (.list (inner :: items).reverse)
  | .object members :: outer, inner =>
      breakOff outer (.object ((none, inner) :: members).reverse)
  | .member members key :: outer, inner =>
      breakOff outer (.object ((key, inner) :: members).reverse)

end Building

/-- A text as a tree, and whether nothing but white space follows it. -/
structure Document where
  root : Json
  ended : Bool

def Building.finish (building : Building) : Document :=
  match building.root with
  | some root => ⟨root, building.phase = .continuation⟩
  | none => ⟨Building.breakOff building.frames .broken, false⟩

def Document.ofTokens (tokens : List Token) : Document :=
  (tokens.foldl Building.step .start).finish

def Document.parse (text : String) : Document :=
  .ofTokens (tokenize text.toList)

mutual

/-- Whether a value has no place where the text stops being JSON. -/
def intact : Json → Bool
  | .broken => false
  | .list items => intactItems items
  | .object members => intactMembers members
  | _ => true

def intactItems : List Json → Bool
  | [] => true
  | item :: rest => intact item && intactItems rest

def intactMembers : List (Option String × Json) → Bool
  | [] => true
  | (_, value) :: rest => intact value && intactMembers rest

end

end Json

end RsaAudit
