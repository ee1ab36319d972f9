import Mathlib.Data.List.Forall2
import RsaAudit.Document.Writing
import RsaAudit.Proofs.Document.Kept

/-!
# All documents of a program

A record can be written as an object, with its fields in any order and other members
between them, or as a list of its fields in order.  A tag is a field like any other,
and comes first in a list.  A field whose value is the default one can be left out,
in a list only if all later ones are left out too.

Other members of an object have to be in order: above an instruction it is enough
that they are JSON, below one they must not hold numbers that are out of range or
texts without content either.
-/

namespace RsaAudit

/-- How a field can be written: under which name, when it can be left out, and by
which nodes. -/
structure FieldForm where
  name : String
  omissible : Prop
  writes : Json → Prop

namespace FieldForm

@[simp]
def required (name : String) (writes : Json → Prop) : FieldForm :=
  ⟨name, False, writes⟩

/-- A text; a tag is written the same way. -/
@[simp]
def text (name content : String) : FieldForm :=
  required name (· = .ofText content)

/-- A text that can be left out or be null if there is none. -/
@[simp]
def optionalText (name : String) (content : Option String) : FieldForm :=
  ⟨name, content = none, (· = .ofText? content)⟩

/-- A list that can be left out if it is empty. -/
@[simp]
def list {Item : Type} (name : String) (writes : Item → Json → Prop) (items : List Item) :
    FieldForm :=
  ⟨name, items = [], fun json => ∃ nodes, json = .list nodes ∧ List.Forall₂ writes items nodes⟩

end FieldForm

/-- The members of an object that writes fields.  No field comes twice; for members
that are no fields `harmless` tells which values they may have. -/
structure Keyed (harmless : Json → Prop) (forms : List FieldForm)
    (members : List (String × Json)) : Prop where
  once : ∀ form ∈ forms, (members.map Prod.fst).count form.name ≤ 1
  given : ∀ form ∈ forms, form.omissible ∨ form.name ∈ members.map Prod.fst
  writes : ∀ form ∈ forms, ∀ json, (form.name, json) ∈ members → form.writes json
  others : ∀ member ∈ members, (∀ form ∈ forms, member.1 ≠ form.name) → harmless member.2

/-- The items of a list that writes fields in order. -/
inductive Listed : List FieldForm → List Json → Prop
  | done {forms : List FieldForm} (omissible : ∀ form ∈ forms, form.omissible) :
      Listed forms []
  | next {form : FieldForm} {forms : List FieldForm} {json : Json} {items : List Json}
      (writes : form.writes json) (later : Listed forms items) :
      Listed (form :: forms) (json :: items)

/-- A value that writes fields, one way or the other. -/
inductive LaidOut (harmless : Json → Prop) (forms : List FieldForm) : Json → Prop
  | keyed {members : List (String × Json)} (keyed : Keyed harmless forms members) :
      LaidOut harmless forms (.record members)
  | listed {items : List Json} (listed : Listed forms items) :
      LaidOut harmless forms (.list items)

/-- Below an instruction, what other members may have for values. -/
def Json.Keepable : Json → Prop :=
  Json.Spellable Json.Numeral.InRange

namespace Literal

def typeName : Literal → String
  | .int _ => "int"
  | .str _ => "str"
  | .bytes _ => "bytes"
  | .nil => "nil"

/-- The value of a literal; nil has none, which can be left out. -/
def valueJson : Literal → Json
  | .int number => .ofInt number.toInt
  | .str text => .ofText text
  | .bytes content => .list (content.map fun byte => .ofNat byte.toNat)
  | .nil => .null

def forms (literal : Literal) : List FieldForm :=
  [.text "type" literal.typeName, ⟨"value", literal = .nil, (· = literal.valueJson)⟩]

/-- The values that write a literal: objects, and lists of type and value. -/
inductive WrittenAs (literal : Literal) : Json → Prop
  | keyed {members : List (String × Json)}
      (keyed : Keyed Json.Keepable literal.forms members) :
      WrittenAs literal (.record members)
  | listed : WrittenAs literal (.list [.ofText literal.typeName, literal.valueJson])

end Literal

/-- The values that write an argument. -/
def Argument.WrittenAs : Argument → Json → Prop
  | .constant value =>
      LaidOut Json.Keepable [.text "kind" "constant", .required "value" value.WrittenAs]
  | .wrapped inner =>
      LaidOut Json.Keepable [.text "kind" "wrapped", .required "inner" inner.WrittenAs]
  | .callResult callee =>
      LaidOut Json.Keepable [.text "kind" "call_result", .text "callee" callee]
  | .unresolved origin =>
      LaidOut Json.Keepable [.text "kind" "unresolved", .optionalText "origin" origin]

def Position.forms (position : Position) : List FieldForm := [
  .text "file" position.file,
  .required "line" (· = .ofNat position.line.toNat),
  .required "column" (· = .ofNat position.column.toNat)]

def Position.WrittenAs (position : Position) : Json → Prop :=
  LaidOut Json.Keepable position.forms

def Call.forms (call : Call) : List FieldForm := [
  .text "callee" call.callee,
  .list "args" Argument.WrittenAs call.args,
  .required "position" call.position.WrittenAs,
  .optionalText "result" call.result]

def Instruction.WrittenAs : Instruction → Json → Prop
  | .call made => LaidOut Json.Keepable (.text "kind" "call" :: made.forms)
  | .other opcode =>
      LaidOut Json.Keepable [.text "kind" "other", .optionalText "opcode" opcode]

def Block.WrittenAs (block : Block) : Json → Prop :=
  LaidOut (·.intact = true) [.list "instructions" Instruction.WrittenAs block.instructions]

def Function.forms (function : Function) : List FieldForm :=
  [.text "name" function.name, .list "blocks" Block.WrittenAs function.blocks]

def Function.WrittenAs (function : Function) : Json → Prop :=
  LaidOut (·.intact = true) function.forms

def Program.forms (program : Program) : List FieldForm := [
  .optionalText "source" program.source,
  .list "functions" Function.WrittenAs program.functions]

def Program.WrittenAs (program : Program) : Json → Prop :=
  LaidOut (·.intact = true) program.forms

/-! ## What is printed is one of the values -/

theorem Literal.writtenAs_toJson (literal : Literal) : literal.WrittenAs literal.toJson := by
  cases literal with
  | int number | str text | bytes content | nil =>
      refine .keyed ⟨?_, ?_, ?_, ?_⟩ <;> simp [forms, typeName, valueJson]

theorem Argument.writtenAs_toJson (argument : Argument) :
    argument.WrittenAs argument.toJson := by
  induction argument with
  | constant value => refine .keyed ⟨?_, ?_, ?_, ?_⟩ <;> simp [value.writtenAs_toJson]
  | wrapped inner ih => refine .keyed ⟨?_, ?_, ?_, ?_⟩ <;> simp [ih]
  | callResult callee => refine .keyed ⟨?_, ?_, ?_, ?_⟩ <;> simp
  | unresolved origin =>
      cases origin with
      | none | some text =>
          refine .keyed ⟨?_, ?_, ?_, ?_⟩ <;> simp [Json.optionalMember, Json.ofText?]

theorem Position.writtenAs_toJson (position : Position) :
    position.WrittenAs position.toJson := by
  refine .keyed ⟨?_, ?_, ?_, ?_⟩ <;> simp [forms]

theorem Call.keyed_members (call : Call) : Keyed Json.Keepable call.forms call.members := by
  have args : List.Forall₂ Argument.WrittenAs call.args (call.args.map Argument.toJson) :=
    List.forall₂_map_right_iff.mpr
      (List.forall₂_same.mpr fun argument _ => argument.writtenAs_toJson)
  have position := call.position.writtenAs_toJson
  cases given : call.result with
  | none | some text =>
      refine ⟨?_, ?_, ?_, ?_⟩ <;>
        simp [forms, members, given, Json.optionalMember, Json.ofText?, args, position]

/-! ## Fields and other members -/

namespace Keyed

variable {harmless : Json → Prop} {form : FieldForm} {forms : List FieldForm}
  {members : List (String × Json)}

theorem writes_or_harmless (keyed : Keyed harmless forms members) {member : String × Json}
    (present : member ∈ members) :
    (∃ form ∈ forms, member.1 = form.name ∧ form.writes member.2) ∨
      (∀ form ∈ forms, member.1 ≠ form.name) ∧ harmless member.2 := by
  by_cases known : ∃ form ∈ forms, member.1 = form.name
  · obtain ⟨form, listed, named⟩ := known
    exact .inl ⟨form, listed, named, keyed.writes form listed member.2 (named ▸ present)⟩
  · have unknown : ∀ form ∈ forms, member.1 ≠ form.name := by simpa using known
    exact .inr ⟨unknown, keyed.others member present unknown⟩

/-- A field has not been met before its member. -/
theorem fresh (keyed : Keyed harmless forms members) (listed : form ∈ forms)
    {before after : List (String × Json)} {member : String × Json}
    (split : members = before ++ member :: after) (named : member.1 = form.name) :
    form.name ∉ before.map Prod.fst := by
  intro earlier
  have once := keyed.once form listed
  rw [split, List.map_append, List.map_cons, named, List.count_append, List.count_cons_self]
    at once
  have positive := List.count_pos_iff.mpr earlier
  omega

/-- The other fields, once the first one is taken out. -/
theorem tail (keyed : Keyed harmless (form :: forms) members)
    (apart : ∀ other ∈ forms, other.name ≠ form.name) :
    Keyed harmless forms (members.filter (·.1 ≠ form.name)) where
  once other listed := by
    refine Nat.le_trans ?_ (keyed.once other (List.mem_cons_of_mem form listed))
    exact (List.filter_sublist.map Prod.fst).count_le other.name
  given other listed := by
    refine (keyed.given other (List.mem_cons_of_mem form listed)).imp_right fun present => ?_
    obtain ⟨member, inMembers, named⟩ := List.mem_map.mp present
    refine List.mem_map.mpr ⟨member, List.mem_filter.mpr ⟨inMembers, ?_⟩, named⟩
    simpa [named] using apart other listed
  writes other listed json present :=
    keyed.writes other (List.mem_cons_of_mem form listed) json
      (List.mem_filter.mp present).1
  others member present unknown := by
    obtain ⟨inMembers, notFirst⟩ := List.mem_filter.mp present
    refine keyed.others member inMembers (List.forall_mem_cons.mpr ⟨?_, unknown⟩)
    simpa using notFirst

end Keyed

/-! ## What is written below an instruction can be kept -/

namespace Json

theorem Keepable.keepWithin {json : Json} (keepable : json.Keepable) {levels : Nat}
    (fits : json.depth ≤ levels) : keepWithin levels json = .ok json.kept := by
  rw [keepWithin_eq levels json keepable, ifFits, if_pos fits]

theorem keepable_list {items : List Json} (each : ∀ item ∈ items, item.Keepable) :
    (Json.list items).Keepable := by
  have mapped : (Json.list (items.map id)).Keepable := spellable_list_map.mpr each
  rwa [List.map_id] at mapped

end Json

/-- All nodes that write a field can be kept. -/
def FieldForm.Keepable (form : FieldForm) : Prop :=
  ∀ json, form.writes json → json.Keepable

theorem Keyed.keepable {forms : List FieldForm} {members : List (String × Json)}
    (keyed : Keyed Json.Keepable forms members) (each : ∀ form ∈ forms, form.Keepable) :
    ∀ member ∈ members, member.2.Keepable := by
  intro member present
  rcases keyed.writes_or_harmless present with ⟨form, listed, -, writes⟩ | ⟨-, harmless⟩
  · exact each form listed _ writes
  · exact harmless

theorem Listed.keepable {forms : List FieldForm} {items : List Json}
    (listed : Listed forms items) (each : ∀ form ∈ forms, form.Keepable) :
    ∀ item ∈ items, item.Keepable := by
  induction listed with
  | done => exact List.forall_mem_nil _
  | next writes _ ih =>
      obtain ⟨first, later⟩ := List.forall_mem_cons.mp each
      exact List.forall_mem_cons.mpr ⟨first _ writes, ih later⟩

theorem LaidOut.keepable {forms : List FieldForm} {json : Json}
    (laidOut : LaidOut Json.Keepable forms json) (each : ∀ form ∈ forms, form.Keepable) :
    json.Keepable := by
  cases laidOut with
  | keyed keyed => exact Json.spellable_record.mpr (keyed.keepable each)
  | listed listed => exact Json.keepable_list (listed.keepable each)

namespace FieldForm

theorem keepable_text (name content : String) : (text name content).Keepable := by
  rintro json rfl
  exact Json.spellable_ofText

theorem keepable_optionalText (name : String) (content : Option String) :
    (optionalText name content).Keepable := by
  rintro json rfl
  cases content with
  | none => trivial
  | some content => exact Json.spellable_ofText

theorem keepable_list {Item : Type} {writes : Item → Json → Prop}
    (each : ∀ item json, writes item json → json.Keepable) (name : String)
    (items : List Item) : (list name writes items).Keepable := by
  rintro json ⟨nodes, rfl, written⟩
  refine Json.keepable_list ?_
  induction written with
  | nil => exact List.forall_mem_nil _
  | cons first _ ih => exact List.forall_mem_cons.mpr ⟨each _ _ first, ih⟩

end FieldForm

theorem Literal.keepable_valueJson (literal : Literal) : literal.valueJson.Keepable := by
  cases literal with
  | int number => exact Json.admitsWords_inRange.spellable_ofInt number
  | str text => exact Json.spellable_ofText
  | bytes content =>
      refine Json.spellable_list_map.mpr fun byte _ => ?_
      exact Json.admitsWords_inRange.spellable_ofNat (Nat.lt_trans byte.toNat_lt (by decide))
  | nil => trivial

theorem Literal.WrittenAs.keepable {literal : Literal} {json : Json}
    (written : literal.WrittenAs json) : json.Keepable := by
  cases written with
  | keyed keyed =>
      refine Json.spellable_record.mpr (keyed.keepable ?_)
      refine List.forall_mem_cons.mpr
        ⟨FieldForm.keepable_text _ _, List.forall_mem_singleton.mpr ?_⟩
      rintro json rfl
      exact literal.keepable_valueJson
  | listed =>
      exact Json.keepable_list (List.forall_mem_cons.mpr
        ⟨Json.spellable_ofText, List.forall_mem_singleton.mpr literal.keepable_valueJson⟩)

theorem Argument.WrittenAs.keepable {argument : Argument} {json : Json}
    (written : argument.WrittenAs json) : json.Keepable := by
  induction argument generalizing json with
  | constant value =>
      refine LaidOut.keepable written (List.forall_mem_cons.mpr
        ⟨FieldForm.keepable_text _ _, List.forall_mem_singleton.mpr ?_⟩)
      exact fun _ => Literal.WrittenAs.keepable
  | wrapped inner ih =>
      refine LaidOut.keepable written (List.forall_mem_cons.mpr
        ⟨FieldForm.keepable_text _ _, List.forall_mem_singleton.mpr ?_⟩)
      exact fun _ => ih
  | callResult callee =>
      exact LaidOut.keepable written (List.forall_mem_cons.mpr
        ⟨FieldForm.keepable_text _ _,
          List.forall_mem_singleton.mpr (FieldForm.keepable_text _ _)⟩)
  | unresolved origin =>
      exact LaidOut.keepable written (List.forall_mem_cons.mpr
        ⟨FieldForm.keepable_text _ _,
          List.forall_mem_singleton.mpr (FieldForm.keepable_optionalText _ _)⟩)

theorem Position.WrittenAs.keepable {position : Position} {json : Json}
    (written : position.WrittenAs json) : json.Keepable := by
  refine LaidOut.keepable written (List.forall_mem_cons.mpr
    ⟨FieldForm.keepable_text _ _, List.forall_mem_cons.mpr ⟨?_,
      List.forall_mem_singleton.mpr ?_⟩⟩)
  · rintro json rfl
    exact Json.admitsWords_inRange.spellable_ofNat position.line.toNat_lt
  · rintro json rfl
    exact Json.admitsWords_inRange.spellable_ofNat position.column.toNat_lt

theorem Call.keepable_forms (call : Call) : ∀ form ∈ call.forms, form.Keepable := by
  refine List.forall_mem_cons.mpr ⟨FieldForm.keepable_text _ _, List.forall_mem_cons.mpr
    ⟨FieldForm.keepable_list (fun _ _ => Argument.WrittenAs.keepable) _ _,
      List.forall_mem_cons.mpr ⟨fun _ => Position.WrittenAs.keepable,
        List.forall_mem_singleton.mpr (FieldForm.keepable_optionalText _ _)⟩⟩⟩

end RsaAudit
