import RsaAudit.Yaml.Token

/-!
# YAML nodes

The tokens of a text are put together to nodes.  Where the tokens stop making
sense the node `missing` stands, and nothing after it is read; so a reader that
visits the nodes in order meets the first problem of the text first.

An alias stands for an anchored node.  An anchored node gets as its number the
number of different names that anchors before it have.  So two nodes may share a
number once a name is used again; an alias with this number then stands for the
last of them, even if that one comes later.
-/

namespace RsaAudit.Yaml

inductive Node where
  | scalar (text : String) (style : Style) (tag : Option Tag)
  | sequence (tag : Option Tag) (items : List Node)
  | mapping (tag : Option Tag) (pairs : List (Node × Node))
  | alias (number : Nat)
  /-- The place where the text stops being YAML. -/
  | missing
  deriving Inhabited

namespace Node

/-- A node of which nothing is written. -/
def empty : Node := .scalar "" .plain none

mutual

/-- Whether a node is written to its end. -/
def intact : Node → Bool
  | .missing => false
  | .sequence _ items => intactItems items
  | .mapping _ pairs => intactPairs pairs
  | _ => true

def intactItems : List Node → Bool
  | [] => true
  | item :: rest => intact item && intactItems rest

def intactPairs : List (Node × Node) → Bool
  | [] => true
  | (key, value) :: rest => intact key && intact value && intactPairs rest

end

mutual

/-- The number of marks that write a node: one for a scalar or an alias, one for
each end of a collection. -/
def weight : Node → Nat
  | .missing => 0
  | .sequence _ items => 1 + itemsWeight items
  | .mapping _ pairs => 1 + pairsWeight pairs
  | _ => 1

/-- The number of marks that write the items of a sequence, and its end if it is
written. -/
def itemsWeight : List Node → Nat
  | [] => 1
  | item :: rest => weight item + if intact item then itemsWeight rest else 0

/-- The number of marks that write the pairs of a mapping, and its end if it is
written. -/
def pairsWeight : List (Node × Node) → Nat
  | [] => 1
  | (key, value) :: rest =>
      weight key + weight value +
        if intact key && intact value then pairsWeight rest else 0

end

end Node

/-- The state while nodes are put together. -/
structure Composing where
  tokens : List Token
  /-- The handles of tags. -/
  handles : Handles
  /-- The numbers of anchors by name. -/
  anchors : List (String × Nat)
  /-- For each anchored node, latest first, its number. -/
  numbers : List Nat
  /-- The anchored nodes by their place in the order of anchored nodes. -/
  anchored : List (Nat × Node)
  /-- Whether the tokens make sense up to here. -/
  sound : Bool

namespace Composing

abbrev Step := StateM Composing

def peek : Step (Option Token) :=
  return (← get).tokens.head?

def advance : Step Unit :=
  modify fun state => { state with tokens := state.tokens.tail }

/-- The tokens do not make sense here. -/
def miss : Step Node := do
  modify fun state => { state with sound := false, tokens := [] }
  return .missing

/-- Whether the tokens make sense up to here. -/
def isSound : Step Bool :=
  return (← get).sound

/-- Give the node to come a number, under a name; the result is its place in the
order of anchored nodes. -/
def register (name : String) : Step Nat := do
  let place := (← get).numbers.length
  modify fun state =>
    let number := state.anchors.length
    { state with
      anchors := (name, number) :: state.anchors.filter fun anchor => anchor.1 != name
      numbers := number :: state.numbers }
  return place

/-- A node that is registered, if it has an anchor, before it is put together. -/
def named (anchor : Option String) (node : Step Node) : Step Node := do
  match anchor with
  | none => node
  | some name =>
      let place ← register name
      let found ← node
      modify fun state => { state with anchored := (place, found) :: state.anchored }
      return found

/-- The node that an alias refers to. -/
def follow (name : String) : Step Node := do
  match (← get).anchors.lookup name with
  | some number => return .alias number
  | none => miss

def anchor? : Step (Option String) := do
  match ← peek with
  | some (.anchor name) =>
      advance
      return some name
  | _ => return none

def tag? : Step (Option WrittenTag) := do
  match ← peek with
  | some (.tag written) =>
      advance
      return some written
  | _ => return none

/-- The anchor and the tag in front of a node, in either order. -/
def properties : Step (Option String × Option WrittenTag) := do
  match ← anchor? with
  | some name => return (some name, ← tag?)
  | none =>
      match ← tag? with
      | some written => return (← anchor?, some written)
      | none => return (none, none)

/-- The tag of a scalar with the given type; the neutral name is none. -/
def scalarTag (type : Option (List UInt8)) : Option Tag :=
  if type = some Tag.neutral then none else type.map Tag.ofName

/-- A node, unless the next token is one that ends it before it starts. -/
def nodeUnless (ends : Token → Bool) (node : Step Node) : Step Node := do
  match ← peek with
  | none => miss
  | some token => if ends token then return .empty else node

/-- A node after its mark; without the mark it is empty. -/
def afterMark (mark : Token) (ends : Token → Bool) (node : Step Node) : Step Node := do
  match ← peek with
  | none => miss
  | some token =>
      if token = mark then
        advance
        nodeUnless ends node
      else return .empty

/-- Tokens that end a part of a block mapping. -/
def endsInMapping (token : Token) : Bool :=
  [.key, .value, .blockEnd].contains token

/-- Tokens that end an entry of a block sequence. -/
def endsInSequence (token : Token) : Bool :=
  [.blockEntry, .blockEnd].contains token

/-- Tokens that end an entry of a sequence at the indentation of its mapping. -/
def endsInIndentless (token : Token) : Bool :=
  [.blockEntry, .key, .value, .blockEnd].contains token

/-- Tokens that end a value in a flow collection with the given end. -/
def endsFlowValue (close : Token) (token : Token) : Bool :=
  [.flowEntry, close].contains token

/-- Tokens that end a key in a flow collection with the given end. -/
def endsFlowKey (close : Token) (token : Token) : Bool :=
  [.value, .flowEntry, close].contains token

mutual

/-- A node; `block` tells whether it may be a block collection, and `indentless`
whether it may be a sequence at the indentation of the mapping around it. -/
def node (block indentless : Bool) : (fuel : Nat) → Step Node
  | 0 => miss
  | fuel + 1 => do
      match ← peek with
      | some (.alias name) =>
          advance
          follow name
      | _ =>
          let (anchor, written) ← properties
          match written with
          | none => content block indentless anchor none fuel
          | some written =>
              match written.name? (← get).handles with
              | none => miss
              | some type => content block indentless anchor (some type) fuel

/-- A node after its anchor and the name of its type. -/
def content (block indentless : Bool) (anchor : Option String)
    (type : Option (List UInt8)) : (fuel : Nat) → Step Node
  | 0 => miss
  | fuel + 1 => do
      let tag := type.map Tag.ofName
      match ← peek with
      | some (.scalar text style) =>
          advance
          named anchor (return .scalar text style (scalarTag type))
      | some .flowSequenceStart =>
          advance
          named anchor (return .sequence tag (← flowItems true fuel))
      | some .flowMappingStart =>
          advance
          named anchor (return .mapping tag (← flowPairs true fuel))
      | some token =>
          if indentless && token = .blockEntry then
            named anchor (return .sequence tag (← blockItems true fuel))
          else if block && token = .blockSequenceStart then
            advance
            named anchor (return .sequence tag (← blockItems false fuel))
          else if block && token = .blockMappingStart then
            advance
            named anchor (return .mapping tag (← blockPairs fuel))
          else if anchor.isSome || type.isSome then
            named anchor (return .scalar "" .plain tag)
          else miss
      | none => miss

def blockItems (indentless : Bool) : (fuel : Nat) → Step (List Node)
  | 0 => return [← miss]
  | fuel + 1 => do
      match ← peek with
      | some .blockEntry =>
          advance
          let ends := if indentless then endsInIndentless else endsInSequence
          let item ← nodeUnless ends (node true false fuel)
          if ← isSound then return item :: (← blockItems indentless fuel)
          return [item]
      | some token =>
          if indentless then return []
          else if token = .blockEnd then
            advance
            return []
          else return [← miss]
      | none => return [← miss]

def blockPairs : (fuel : Nat) → Step (List (Node × Node))
  | 0 => return [(← miss, .missing)]
  | fuel + 1 => do
      match ← peek with
      | some .key =>
          advance
          let key ← nodeUnless endsInMapping (node true true fuel)
          if !(← isSound) then return [(key, .missing)]
          let value ← afterMark .value endsInMapping (node true true fuel)
          if ← isSound then return (key, value) :: (← blockPairs fuel)
          return [(key, value)]
      | some .blockEnd =>
          advance
          return []
      | _ => return [(← miss, .missing)]

def flowItems (first : Bool) : (fuel : Nat) → Step (List Node)
  | 0 => return [← miss]
  | fuel + 1 => do
      match ← peek with
      | some .flowSequenceEnd =>
          advance
          return []
      | some .flowEntry =>
          if first then return [← miss]
          advance
          flowItem fuel
      | some _ => if first then flowItem fuel else return [← miss]
      | none => return [← miss]

/-- The items of a flow sequence after a comma or at its start. -/
def flowItem : (fuel : Nat) → Step (List Node)
  | 0 => return [← miss]
  | fuel + 1 => do
      match ← peek with
      | some .flowSequenceEnd =>
          advance
          return []
      | some .key =>
          advance
          let item := Node.mapping none (← flowPair fuel)
          if ← isSound then return item :: (← flowItems false fuel)
          return [item]
      | _ =>
          let item ← node false false fuel
          if ← isSound then return item :: (← flowItems false fuel)
          return [item]

/-- The only pair of a mapping that stands in a flow sequence without braces.  A
token that ends its key before it starts is passed over.  The mapping ends before
the next token, which has to be there. -/
def flowPair : (fuel : Nat) → Step (List (Node × Node))
  | 0 => return [(← miss, .missing)]
  | fuel + 1 => do
      let key ← (do
        match ← peek with
        | none => miss
        | some token =>
            if endsFlowKey .flowSequenceEnd token then
              advance
              return .empty
            else node false false fuel)
      if !(← isSound) then return [(key, .missing)]
      let value ←
        afterMark .value (endsFlowValue .flowSequenceEnd) (node false false fuel)
      if !(← isSound) then return [(key, value)]
      match ← peek with
      | some _ => return [(key, value)]
      | none => return [(key, value), (← miss, .missing)]

def flowPairs (first : Bool) : (fuel : Nat) → Step (List (Node × Node))
  | 0 => return [(← miss, .missing)]
  | fuel + 1 => do
      match ← peek with
      | some .flowMappingEnd =>
          advance
          return []
      | some .flowEntry =>
          if first then return [(← miss, .missing)]
          advance
          flowMember fuel
      | some _ => if first then flowMember fuel else return [(← miss, .missing)]
      | none => return [(← miss, .missing)]

/-- The pairs of a flow mapping after a comma or at its start. -/
def flowMember : (fuel : Nat) → Step (List (Node × Node))
  | 0 => return [(← miss, .missing)]
  | fuel + 1 => do
      match ← peek with
      | some .flowMappingEnd =>
          advance
          return []
      | some .key =>
          advance
          let key ← nodeUnless (endsFlowKey .flowMappingEnd) (node false false fuel)
          if !(← isSound) then return [(key, .missing)]
          let value ←
            afterMark .value (endsFlowValue .flowMappingEnd) (node false false fuel)
          if ← isSound then return (key, value) :: (← flowPairs false fuel)
          return [(key, value)]
      | _ =>
          let key ← node false false fuel
          if !(← isSound) then return [(key, .missing)]
          match ← peek with
          | none => return [(key, ← miss)]
          | some _ => return (key, .empty) :: (← flowPairs false fuel)

end

/-- Whether a token stands between documents. -/
def betweenDocuments : Token → Bool
  | .streamEnd | .directive _ | .documentStart | .documentEnd => true
  | _ => false

/-- Take the directives at the start of a document; the result is whether they make
sense. -/
def takeDirectives : Step Bool := do
  let tokens := (← get).tokens
  let directives := tokens.map fun
    | .directive content => some content
    | _ => none
  let directives := (directives.takeWhile Option.isSome).filterMap id
  match Directive.handles? directives with
  | none => return false
  | some handles =>
      modify fun state =>
        { state with handles, tokens := tokens.drop directives.length }
      return true

/-- The node of the first document of a text. -/
def root (fuel : Nat) : Step Node := do
  match ← peek with
  | some .streamEnd => return .empty
  | some (.directive _) | some .documentStart =>
      if !(← takeDirectives) then return ← miss
      match ← peek with
      | some .documentStart =>
          advance
          nodeUnless betweenDocuments (node true false fuel)
      | _ => miss
  | _ => node true false fuel

end Composing

/-- A text as nodes. -/
structure Document where
  root : Node
  /-- The nodes with numbers, those that count first. -/
  targets : List (Nat × Node)
  /-- The number of aliases that may be followed while the document is read. -/
  maxFollowed : Nat
  /-- Whether nothing follows the only document. -/
  ended : Bool

def Document.parse (text : String) : Document :=
  let tokens := tokenize text
  let start : Composing := ⟨tokens, .standard, [], [], [], true⟩
  let (root, state) := (Composing.root (4 * tokens.length + 8)).run start
  let places := (List.range state.numbers.length).reverse
  { root
    targets := (state.numbers.zip places).filterMap fun (number, place) =>
      (state.anchored.lookup place).map (number, ·)
    maxFollowed := 100 * root.weight
    ended := state.tokens.dropWhile (· = .documentEnd) == [.streamEnd] }

end RsaAudit.Yaml
