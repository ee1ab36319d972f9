import RsaAudit.Loading
import RsaAudit.Proofs.Document.Sources
import RsaAudit.Proofs.Json.Soundness
import RsaAudit.Proofs.ProgramRenderings

/-!
# Accepted documents are unambiguous

A node of a document is read in some role: as a program, a function and so on.  The role
tells which of its keys are known; for a tagged node it depends on the tag.  In a text
that is accepted as a program, no node has a known key twice, whatever its other keys are,
however deep it lies and however its keys are spelled.
-/

namespace RsaAudit

/-! ## Nodes in their roles -/

/-- What a node of a document is read as. -/
inductive Role where
  | program
  | function
  | block
  | instruction (kind : Instruction.Kind)
  | argument (kind : Argument.Kind)
  | position
  | literal

/-- The keys that are known in a role.  In a list the nodes stand in this order. -/
def Role.keys : Role → List String
  | .program => ["source", "functions"]
  | .function => ["name", "blocks"]
  | .block => ["instructions"]
  | .instruction .call => ["kind", "callee", "args", "position", "result"]
  | .instruction .other => ["kind", "opcode"]
  | .argument .constant => ["kind", "value"]
  | .argument .wrapped => ["kind", "inner"]
  | .argument .callResult => ["kind", "callee"]
  | .argument .unresolved => ["kind", "origin"]
  | .position => ["file", "line", "column"]
  | .literal => ["type", "value"]

namespace Json

/-- A node holds another one under a key, or in a list at the place of the key. -/
inductive Holds (keys : List String) (key : String) : Json → Json → Prop
  | member {members : List (Option String × Json)} {child : Json}
      (listed : (some key, child) ∈ members) : Holds keys key (.object members) child
  | item {items : List Json} {child : Json} {place : Nat} (named : keys[place]? = some key)
      (listed : items[place]? = some child) : Holds keys key (.list items) child

/-- The tag of a node names a variant. -/
def HasTag {Variant : Type} (variants : Variants Variant) (variant : Variant) (node : Json) :
    Prop :=
  ∃ tag, node.Holds ["kind"] "kind" tag ∧ variants.NamedBy variant tag

end Json

/-- The nodes of a document that are read in some role.  Which keys of a node matter
depends on its tag, so the role of a tagged node has a kind. -/
inductive ReadAs (root : Json) : Role → Json → Prop
  | program : ReadAs root .program root
  | function {node child : Json} {nodes : List Json} (parent : ReadAs root .program node)
      (held : node.Holds Role.program.keys "functions" (.list nodes)) (listed : child ∈ nodes) :
      ReadAs root .function child
  | block {node child : Json} {nodes : List Json} (parent : ReadAs root .function node)
      (held : node.Holds Role.function.keys "blocks" (.list nodes)) (listed : child ∈ nodes) :
      ReadAs root .block child
  | instruction {node child : Json} {nodes : List Json} {kind : Instruction.Kind}
      (parent : ReadAs root .block node)
      (held : node.Holds Role.block.keys "instructions" (.list nodes)) (listed : child ∈ nodes)
      (tagged : child.HasTag Instruction.Kind.variants kind) :
      ReadAs root (.instruction kind) child
  | position {node child : Json} (parent : ReadAs root (.instruction .call) node)
      (held : node.Holds (Role.instruction .call).keys "position" child) :
      ReadAs root .position child
  | argument {node child : Json} {nodes : List Json} {kind : Argument.Kind}
      (parent : ReadAs root (.instruction .call) node)
      (held : node.Holds (Role.instruction .call).keys "args" (.list nodes))
      (listed : child ∈ nodes) (tagged : child.HasTag Argument.Kind.variants kind) :
      ReadAs root (.argument kind) child
  | inner {node child : Json} {kind : Argument.Kind}
      (parent : ReadAs root (.argument .wrapped) node)
      (held : node.Holds (Role.argument .wrapped).keys "inner" child)
      (tagged : child.HasTag Argument.Kind.variants kind) : ReadAs root (.argument kind) child
  | literal {node child : Json} (parent : ReadAs root (.argument .constant) node)
      (held : node.Holds (Role.argument .constant).keys "value" child) :
      ReadAs root .literal child

/-- Something has been read from a node in its role. -/
def Role.Drawn : Role → Json → Prop
  | .program, node => ∃ program : Program, program.DrawnFrom node
  | .function, node => ∃ function : Function, function.DrawnFrom node
  | .block, node => ∃ block : Block, block.DrawnFrom node
  | .instruction kind, node =>
      ∃ instruction : Instruction, instruction.kind = kind ∧ instruction.DrawnFrom node
  | .argument kind, node =>
      ∃ argument : Argument, argument.kind = kind ∧ argument.DrawnFrom node
  | .position, node => ∃ position : Position, position.DrawnFrom node
  | .literal, node => ∃ literal : Literal, literal.DrawnFrom node

theorem Listed.writes {forms : List FieldForm} {items : List Json} (listed : Listed forms items)
    {place : Nat} {form : FieldForm} {child : Json} (isForm : forms[place]? = some form)
    (isChild : items[place]? = some child) : form.writes child := by
  induction listed generalizing place with
  | done => cases isChild
  | next writes _ ih =>
      cases place with
      | zero =>
          cases isForm
          cases isChild
          exact writes
      | succ place => exact ih isForm isChild

theorem Json.Holds.mem_of_record {keys : List String} {key : String} {child : Json}
    {members : List (String × Json)} (held : (Json.record members).Holds keys key child) :
    (key, child) ∈ members := by
  unfold Json.record at held
  cases held with
  | member listed => simpa using listed

namespace LaidOut

variable {harmless : Json → Prop} {forms : List FieldForm} {node child : Json}
  {form : FieldForm}

theorem writes (laidOut : LaidOut harmless forms node)
    (distinct : (forms.map FieldForm.name).Nodup) {keys : List String}
    (leading : keys <+: forms.map FieldForm.name) (listed : form ∈ forms)
    (held : node.Holds keys form.name child) : form.writes child := by
  cases laidOut with
  | keyed keyed => exact keyed.writes form listed child held.mem_of_record
  | listed inOrder =>
      cases held with
      | @item _ _ place named isChild =>
          -- No other form has the name that stands at this place.
          obtain ⟨other, isOther, same⟩ : ∃ other, forms[place]? = some other ∧
              other.name = form.name := by
            obtain ⟨later, all⟩ := leading
            have isName : (forms.map FieldForm.name)[place]? = some form.name := by
              rw [← all, List.getElem?_append_left (List.getElem?_eq_some_iff.mp named).1, named]
            rwa [List.getElem?_map, Option.map_eq_some_iff] at isName
          have isForm := List.inj_on_of_nodup_map distinct (List.mem_of_getElem? isOther) listed same
          exact inOrder.writes (isForm ▸ isOther) isChild

theorem count_le_one {members : List (Option String × Json)}
    (laidOut : LaidOut harmless forms (.object members)) (listed : form ∈ forms) :
    (members.map Prod.fst).count (some form.name) ≤ 1 := by
  generalize same : Json.object members = node at laidOut
  cases laidOut with
  | @keyed written keyed =>
      obtain rfl := Json.object.inj same
      rw [List.map_map]
      change ((written.map (some ∘ Prod.fst)).count (some form.name)) ≤ 1
      rw [← List.map_map, List.count_map_of_injective _ _ (Option.some_injective String)]
      exact keyed.once form listed
  | listed => cases same

end LaidOut

theorem Role.nodup_keys (role : Role) : role.keys.Nodup := by
  cases role with
  | instruction kind => cases kind <;> decide
  | argument kind => cases kind <;> decide
  | program | function | block | position | literal => decide

section

variable {harmless : Json → Prop} {forms : List FieldForm} {node child : Json} {role : Role}

theorem LaidOut.writes_key (laidOut : LaidOut harmless forms node)
    (names : forms.map FieldForm.name = role.keys) {form : FieldForm} (listed : form ∈ forms)
    (held : node.Holds role.keys form.name child) : form.writes child :=
  laidOut.writes (names ▸ role.nodup_keys) (names ▸ List.prefix_refl role.keys) listed held

theorem LaidOut.exists_item {Item : Type} {writes : Item → Json → Prop} {items : List Item}
    {key : String} {nodes : List Json} (laidOut : LaidOut harmless forms node)
    (names : forms.map FieldForm.name = role.keys) (isField : .list key writes items ∈ forms)
    (held : node.Holds role.keys key (.list nodes)) (listed : child ∈ nodes) :
    ∃ item, writes item child := by
  obtain ⟨_, ⟨⟩, each⟩ := laidOut.writes_key names isField held
  obtain ⟨item, -, written⟩ := exists_of_forall₂ each listed
  exact ⟨item, written⟩

/-- A node that has been read has no other tag than the one that has been read. -/
theorem LaidOut.variant_eq (role : Role) {Variant : Type} {variants : Variants Variant}
    {variant other : Variant}
    (laidOut : LaidOut harmless (variants.tagForm variant :: forms) node)
    (names : Tagged.tag :: forms.map FieldForm.name = role.keys)
    (tagged : node.HasTag variants other) : variant = other := by
  obtain ⟨tag, held, named⟩ := tagged
  have distinct := role.nodup_keys
  rw [← names] at distinct
  have written := laidOut.writes distinct ⟨forms.map FieldForm.name, rfl⟩ List.mem_cons_self held
  exact Variants.NamedBy.unique written named

theorem LaidOut.count_key_le_one {members : List (Option String × Json)}
    (laidOut : LaidOut harmless forms (.object members))
    (names : forms.map FieldForm.name = role.keys) {key : String} (known : key ∈ role.keys) :
    (members.map Prod.fst).count (some key) ≤ 1 := by
  rw [← names] at known
  obtain ⟨form, listed, rfl⟩ := List.mem_map.mp known
  exact laidOut.count_le_one listed

end

theorem Instruction.DrawnFrom.kind_eq {instruction : Instruction} {node : Json} {kind : Kind}
    (drawn : instruction.DrawnFrom node) (tagged : node.HasTag Kind.variants kind) :
    instruction.kind = kind := by
  cases instruction with
  | call made => exact LaidOut.variant_eq (.instruction .call) drawn rfl tagged
  | other opcode => exact LaidOut.variant_eq (.instruction .other) drawn rfl tagged

theorem Argument.DrawnFrom.kind_eq {argument : Argument} {node : Json} {kind : Kind}
    (drawn : argument.DrawnFrom node) (tagged : node.HasTag Kind.variants kind) :
    argument.kind = kind := by
  cases argument with
  | constant value => exact LaidOut.variant_eq (.argument .constant) drawn rfl tagged
  | wrapped inner => exact LaidOut.variant_eq (.argument .wrapped) drawn rfl tagged
  | callResult callee => exact LaidOut.variant_eq (.argument .callResult) drawn rfl tagged
  | unresolved origin => exact LaidOut.variant_eq (.argument .unresolved) drawn rfl tagged

/-- Whatever is drawn from the root, something is drawn from every node in its role. -/
theorem Role.drawn_of_readAs {root : Json} {program : Program} (drawn : program.DrawnFrom root)
    {role : Role} {node : Json} (read : ReadAs root role node) : role.Drawn node := by
  induction read with
  | program => exact ⟨program, drawn⟩
  | function _ held listed ih =>
      obtain ⟨program, drawn⟩ := ih
      exact LaidOut.exists_item drawn rfl (List.mem_cons_of_mem _ List.mem_cons_self) held listed
  | block _ held listed ih =>
      obtain ⟨function, drawn⟩ := ih
      exact LaidOut.exists_item drawn rfl (List.mem_cons_of_mem _ List.mem_cons_self) held listed
  | instruction _ held listed tagged ih =>
      obtain ⟨block, drawn⟩ := ih
      obtain ⟨instruction, drawn⟩ :=
        LaidOut.exists_item drawn rfl List.mem_cons_self held listed
      exact ⟨instruction, drawn.kind_eq tagged, drawn⟩
  | position _ held ih =>
      obtain ⟨instruction, isCall, drawn⟩ := ih
      cases instruction with
      | call made =>
          have isField : .required "position" made.position.DrawnFrom ∈
              (Instruction.call made).sourceForms := by
            simp [Instruction.sourceForms, Call.sourceForms]
          exact ⟨made.position, LaidOut.writes_key drawn rfl isField held⟩
      | other opcode => cases isCall
  | argument _ held listed tagged ih =>
      obtain ⟨instruction, isCall, drawn⟩ := ih
      cases instruction with
      | call made =>
          have isField : .list "args" Argument.DrawnFrom made.args ∈
              (Instruction.call made).sourceForms := by
            simp [Instruction.sourceForms, Call.sourceForms]
          obtain ⟨argument, drawn⟩ := LaidOut.exists_item drawn rfl isField held listed
          exact ⟨argument, drawn.kind_eq tagged, drawn⟩
      | other opcode => cases isCall
  | inner _ held tagged ih =>
      obtain ⟨argument, isWrapped, drawn⟩ := ih
      cases argument with
      | wrapped inner =>
          have drawn : inner.DrawnFrom _ :=
            LaidOut.writes_key drawn rfl (List.mem_cons_of_mem _ List.mem_cons_self) held
          exact ⟨inner, drawn.kind_eq tagged, drawn⟩
      | _ => cases isWrapped
  | literal _ held ih =>
      obtain ⟨argument, isConstant, drawn⟩ := ih
      cases argument with
      | constant value =>
          exact ⟨value,
            LaidOut.writes_key drawn rfl (List.mem_cons_of_mem _ List.mem_cons_self) held⟩
      | _ => cases isConstant

theorem Literal.DrawnFrom.laidOut {literal : Literal} {members : List (Option String × Json)}
    (drawn : literal.DrawnFrom (.object members)) :
    LaidOut (fun _ => True) literal.sourceForms (.object members) := by
  generalize same : Json.object members = node at drawn
  cases drawn with
  | keyed keyed => exact .keyed keyed
  | listed => cases same

theorem Role.Drawn.count_le_one {role : Role} {members : List (Option String × Json)}
    (drawn : role.Drawn (.object members)) {key : String} (known : key ∈ role.keys) :
    (members.map Prod.fst).count (some key) ≤ 1 := by
  cases role with
  | program =>
      obtain ⟨program, drawn⟩ := drawn
      exact LaidOut.count_key_le_one drawn rfl known
  | function =>
      obtain ⟨function, drawn⟩ := drawn
      exact LaidOut.count_key_le_one drawn rfl known
  | block =>
      obtain ⟨block, drawn⟩ := drawn
      exact LaidOut.count_key_le_one drawn rfl known
  | instruction kind =>
      obtain ⟨instruction, rfl, drawn⟩ := drawn
      cases instruction with
      | call made => exact LaidOut.count_key_le_one drawn rfl known
      | other opcode => exact LaidOut.count_key_le_one drawn rfl known
  | argument kind =>
      obtain ⟨argument, rfl, drawn⟩ := drawn
      cases argument with
      | constant value => exact LaidOut.count_key_le_one drawn rfl known
      | wrapped inner => exact LaidOut.count_key_le_one drawn rfl known
      | callResult callee => exact LaidOut.count_key_le_one drawn rfl known
      | unresolved origin => exact LaidOut.count_key_le_one drawn rfl known
  | position =>
      obtain ⟨position, drawn⟩ := drawn
      exact LaidOut.count_key_le_one drawn rfl known
  | literal =>
      obtain ⟨literal, drawn⟩ := drawn
      exact drawn.laidOut.count_key_le_one rfl known

namespace Program

theorem exists_root_of_parse {label text : String} {program : Program}
    (accepted : parse .json label text = .ok program) :
    ∃ root drawn, Json.Document.parse text = ⟨root, true⟩ ∧ shape.read root = .ok drawn ∧
      program = drawn.withDefaultSource label := by
  unfold parse at accepted
  split at accepted
  case h_1 drawn read =>
    cases accepted
    obtain ⟨record, ofRoot, read⟩ := bind_eq_ok_iff.mp read
    split at read
    case isTrue ended =>
      cases read
      exact ⟨_, drawn, congrArg (Json.Document.mk _) ended, ofRoot, rfl⟩
    case isFalse => cases read
  case h_2 => cases accepted

/-- An accepted text has one value.  From it every field of the program is drawn, and no
node of it that is read in some role has a key of that role twice. -/
theorem parse_json_unambiguous {label text : String} {program : Program}
    (accepted : parse .json label text = .ok program) :
    ∃ root : Json, (∀ json : Json, json.WrittenAs text ↔ json = root) ∧
      (∃ drawn : Program, drawn.DrawnFrom root ∧ program = drawn.withDefaultSource label) ∧
      ∀ role node, ReadAs root role node → ∀ members, node = .object members →
        ∀ key ∈ role.keys, (members.map Prod.fst).count (some key) ≤ 1 := by
  obtain ⟨root, drawn, parsed, read, named⟩ := exists_root_of_parse accepted
  have drawnFrom : drawn.DrawnFrom root := tells.laidOut read
  refine ⟨root, fun json => ⟨fun written => ?_, ?_⟩, ⟨drawn, drawnFrom, named⟩, ?_⟩
  · have same := (Json.parse_of_writtenAs written).symm.trans parsed
    exact congrArg Json.Document.root same
  · rintro rfl
    exact Json.writtenAs_of_parse parsed
  · rintro role node read members rfl key known
    exact (Role.drawn_of_readAs drawnFrom read).count_le_one known

/-- The node of the literal in the argument of the call. -/
def mixedLiteral : Json :=
  .record [("value", .ofInt 5), ("type", .ofText "int")]

theorem readAs_mixedLiteral : ReadAs mixedJson .literal mixedLiteral := by
  have function : ReadAs mixedJson .function (.list [.ofText "main", .list [.record
      [("instructions", .list [.record [("opcode", .null), ("kind", .ofText "other")],
        mixedCall])]]]) :=
    .function .program (.member (List.mem_cons_of_mem _ List.mem_cons_self)) List.mem_cons_self
  have block : ReadAs mixedJson .block (.record [("instructions", .list [
      .record [("opcode", .null), ("kind", .ofText "other")], mixedCall])]) :=
    .block function (@Json.Holds.item _ _ _ _ 1 rfl rfl) List.mem_cons_self
  have call : ReadAs mixedJson (.instruction .call) mixedCall :=
    .instruction block (.member List.mem_cons_self) (List.mem_cons_of_mem _ List.mem_cons_self)
      ⟨.ofText "call", @Json.Holds.item _ _ _ _ 0 rfl rfl, .name rfl⟩
  have argument : ReadAs mixedJson (.argument .constant)
      (.record [("value", mixedLiteral), ("kind", .ofText "constant")]) :=
    .argument call (@Json.Holds.item _ _ _ _ 2 rfl rfl) List.mem_cons_self
      ⟨.ofText "constant", .member (List.mem_cons_of_mem _ List.mem_cons_self), .name rfl⟩
  exact .literal argument (.member List.mem_cons_self)

theorem parse_json_unambiguous_mixedText :
    parse .json "b.json" mixedText = .ok { mixedProgram with source := some "b.json" } ∧
      ReadAs mixedJson .literal mixedLiteral ∧
      (∃ drawn : Program, drawn.DrawnFrom mixedJson ∧
        { mixedProgram with source := some "b.json" } = drawn.withDefaultSource "b.json") ∧
      ∀ role node, ReadAs mixedJson role node → ∀ members, node = .object members →
        ∀ key ∈ role.keys, (members.map Prod.fst).count (some key) ≤ 1 := by
  have accepted : parse .json "b.json" mixedText =
      .ok { mixedProgram with source := some "b.json" } := by
    have read : DocumentFormat.json.read shape mixedText = .ok mixedProgram := by
      unfold DocumentFormat.read
      dsimp only
      rw [Json.parse_of_writtenAs writtenAs_mixedText,
        read_of_writtenAs writtenAs_mixedJson (by decide)]
      rfl
    rw [parse, read]
    rfl
  obtain ⟨root, value, drawn, once⟩ := parse_json_unambiguous accepted
  obtain rfl := (value mixedJson).mp writtenAs_mixedText
  exact ⟨accepted, readAs_mixedLiteral, drawn, once⟩

end Program

end RsaAudit
