import RsaAudit.Proofs.Document.Provenance

/-!
# What a program is read from

Each part of a program, however deep, is drawn from one node of the document: each of its
fields comes from one member or one item of that node, or has its default because there
is none.  What a number or a tag is read from is described by its reader, since it may be
spelled in more than one way.
-/

namespace RsaAudit

/-! ## Texts and lists -/

namespace Json

theorem eq_ofText_of_textOf {json : Json} {content : String}
    (read : json.textOf = .ok content) : json = .ofText content := by
  unfold textOf at read
  split at read
  · cases read
    rfl
  · cases read

theorem eq_ofText?_of_optionalText {json : Json} {content : Option String}
    (read : Readable.optionalText json = .ok content) : json = .ofText? content := by
  cases json with
  | null =>
      cases read
      rfl
  | _ =>
      obtain ⟨text, isText, rfl⟩ := map_eq_ok_iff.mp read
      exact eq_ofText_of_textOf isText

theorem exists_list {Item : Type} {run : Json → Except Reason Item}
    {writes : Item → Json → Prop} {json : Json} {items : List Item}
    (read : Readable.list run json = .ok items)
    (each : ∀ item node, run node = .ok item → writes item node) :
    ∃ nodes, json = .list nodes ∧ List.Forall₂ writes items nodes := by
  cases json with
  | list nodes => exact ⟨nodes, rfl, forall₂_of_mapM read fun item node _ => each item node⟩
  | _ => cases read

namespace Keepable

variable {json : Json} (keepable : json.Keepable)

include keepable

theorem eq_ofText {content : String}
    (read : Readable.text json.kept = .ok content) : json = .ofText content := by
  cases json with
  | text content =>
      obtain ⟨text, rfl⟩ := Option.isSome_iff_exists.mp keepable
      cases read
      rfl
  | number numeral =>
      obtain ⟨number, found⟩ := Option.isSome_iff_exists.mp keepable
      rw [kept, Numeral.kept, found] at read
      cases number <;> cases read
  | _ => cases read

theorem eq_ofText? {content : Option String}
    (read : Readable.optionalText json.kept = .ok content) : json = .ofText? content := by
  cases json with
  | null =>
      cases read
      rfl
  | text content =>
      obtain ⟨text, rfl⟩ := Option.isSome_iff_exists.mp keepable
      cases read
      rfl
  | number numeral =>
      obtain ⟨number, found⟩ := Option.isSome_iff_exists.mp keepable
      rw [kept, Numeral.kept, found] at read
      cases number <;> cases read
  | broken => exact keepable.elim
  | _ => cases read

theorem exists_list {Item : Type} {run : Value → Except Reason Item}
    {writes : Item → Json → Prop} {items : List Item}
    (read : Readable.list run json.kept = .ok items)
    (each : ∀ item node, node.Keepable → run node.kept = .ok item → writes item node) :
    ∃ nodes, json = .list nodes ∧ List.Forall₂ writes items nodes := by
  cases json with
  | list nodes =>
      rw [kept, keptItems_eq_map] at read
      change (nodes.map kept).mapM run = _ at read
      rw [List.mapM_map] at read
      refine ⟨nodes, rfl, forall₂_of_mapM read fun item node listed => ?_⟩
      exact each item node (keepable.forall_mem node listed)
  | number numeral =>
      obtain ⟨number, found⟩ := Option.isSome_iff_exists.mp keepable
      rw [kept, Numeral.kept, found] at read
      cases number <;> cases read
  | _ => cases read

end Keepable

end Json

/-! ## Literals -/

namespace Literal

/-- The nodes that give the type and the value of a literal by keys. -/
def sourceForms (literal : Literal) : List FieldForm := [
  .required "type" fun json => Kind.ofMember json.kept = .ok literal.kind,
  ⟨"value", literal = .nil, fun json => literal.kind.interpret json.kept = .ok literal⟩]

/-- The nodes that a literal can be read from.  By keys its type may be the one key of a
map, in a list it may be given by its place. -/
inductive DrawnFrom (literal : Literal) : Json → Prop
  | keyed {members : List (String × Json)}
      (keyed : Keyed (fun _ => True) literal.sourceForms members) :
      DrawnFrom literal (.record members)
  | listed {type value : Json} (typed : Kind.variants.NamedBy literal.kind type)
      (valued : literal.kind.interpret value.kept = .ok literal) :
      DrawnFrom literal (.list [type, value])

theorem Kind.eq_of_interpret {kind : Kind} {value : Value} {literal : Literal}
    (read : kind.interpret value = .ok literal) : literal.kind = kind := by
  cases kind with
  | int | str | bytes =>
      obtain ⟨content, -, rfl⟩ := map_eq_ok_iff.mp read
      rfl
  | nil =>
      cases value with
      | null =>
          cases read
          rfl
      | _ => cases read

namespace Draft

/-- What is known of a literal after some members. -/
structure Reached (before : List (String × Json)) (draft : Draft) : Prop where
  kind : Slot "type" (fun json kind => Kind.ofMember json.kept = .ok kind) before draft.kind
  value : Slot "value" (fun json value => json.kept = value) before draft.value
  literal : ∀ kind ∈ draft.kind, draft.value.mapM kind.interpret = .ok draft.literal

theorem reached_start : Reached [] start where
  kind := .start
  value := .start
  literal := by simp [start]

section

variable {before : List (String × Json)} {draft next : Draft} (reached : Reached before draft)
  {member : String × Json}

include reached

theorem Reached.setKind (isType : member.1 = "type")
    (read : draft.setKind member.2.kept = .ok next) : Reached (before ++ [member]) next := by
  have notValue : member.1 ≠ "value" := by
    rw [isType]
    decide
  unfold Draft.setKind at read
  split at read
  case isTrue => cases read
  case isFalse untyped =>
    rw [Bool.not_eq_true, Option.isSome_eq_false_iff, Option.isNone_iff_eq_none] at untyped
    obtain ⟨kind, typed, read⟩ := bind_eq_ok_iff.mp read
    obtain ⟨literal, interpreted, read⟩ := bind_eq_ok_iff.mp read
    cases read
    refine ⟨(untyped ▸ reached.kind).fill isType typed, reached.value.skip notValue, ?_⟩
    rintro _ ⟨⟩
    exact interpreted

theorem Reached.setValue (isValue : member.1 = "value")
    (read : draft.setValue member.2.kept = .ok next) : Reached (before ++ [member]) next := by
  have notType : member.1 ≠ "type" := by
    rw [isValue]
    decide
  unfold Draft.setValue at read
  split at read
  case isTrue => cases read
  case isFalse unvalued =>
    rw [Bool.not_eq_true, Option.isSome_eq_false_iff, Option.isNone_iff_eq_none] at unvalued
    obtain ⟨literal, interpreted, read⟩ := bind_eq_ok_iff.mp read
    cases read
    refine ⟨reached.kind.skip notType, (unvalued ▸ reached.value).fill isValue rfl, ?_⟩
    intro kind typed
    rw [Option.mem_def.mp typed] at interpreted
    exact interpreted

theorem Reached.readMember (read : draft.readMember (.text member.1, member.2.kept) = .ok next) :
    Reached (before ++ [member]) next := by
  rw [Draft.readMember, Json.views_kept.key, ok_bind] at read
  by_cases isType : member.1 = "type"
  · rw [isType] at read
    exact reached.setKind isType read
  · by_cases isValue : member.1 = "value"
    · rw [isValue] at read
      exact reached.setValue isValue read
    · have absent : (FieldKey.name member.1).find? ["type", "value"] = none := by
        simp [FieldKey.find?, List.findIdx?_cons, Ne.symm isType, Ne.symm isValue]
      rw [absent] at read
      cases read
      exact ⟨reached.kind.skip isType, reached.value.skip isValue, reached.literal⟩

-- A value is missing only if the literal is nil.
theorem Reached.exists_of_finish {literal : Literal} (finished : draft.finish = .ok literal) :
    draft.kind = some literal.kind ∧
      (literal = .nil ∧ draft.value = none ∨
        ∃ value, draft.value = some value ∧ literal.kind.interpret value = .ok literal) := by
  unfold Draft.finish at finished
  split at finished
  case h_1 => cases finished
  case h_2 kind found typed interpreted =>
    cases finished
    have meaning := reached.literal kind typed
    rw [interpreted] at meaning
    obtain ⟨value, isValue, meaning⟩ := exists_of_optionMapM_eq_ok meaning
    obtain rfl := Kind.eq_of_interpret meaning
    exact ⟨typed, .inr ⟨value, isValue, meaning⟩⟩
  case h_3 typed uninterpreted =>
    cases finished
    have meaning := reached.literal .nil typed
    rw [uninterpreted] at meaning
    refine ⟨typed, .inl ⟨rfl, ?_⟩⟩
    cases isValue : draft.value with
    | none => rfl
    | some value =>
        rw [isValue] at meaning
        obtain ⟨found, -, same⟩ := map_eq_ok_iff.mp meaning
        cases same
  case h_4 => cases finished

theorem Reached.keyed {literal : Literal} (finished : draft.finish = .ok literal) :
    Keyed (fun _ => True) literal.sourceForms before := by
  obtain ⟨typed, valued⟩ := reached.exists_of_finish finished
  refine ⟨?_, ?_, ?_, fun _ _ _ => trivial⟩
  · exact List.forall_mem_cons.mpr
      ⟨reached.kind.once, List.forall_mem_singleton.mpr reached.value.once⟩
  · refine List.forall_mem_cons.mpr
      ⟨.inr (reached.kind.present _ typed), List.forall_mem_singleton.mpr ?_⟩
    rcases valued with ⟨isNil, -⟩ | ⟨value, isValue, -⟩
    · exact .inl isNil
    · exact .inr (reached.value.present value isValue)
  · refine List.forall_mem_cons.mpr ⟨fun json present => ?_,
      List.forall_mem_singleton.mpr fun json present => ?_⟩
    · obtain ⟨kind, found, read⟩ := reached.kind.reads json present
      cases typed.symm.trans found
      exact read
    · obtain ⟨kept, found, rfl⟩ := reached.value.reads json present
      rcases valued with ⟨-, missing⟩ | ⟨value, isValue, meaning⟩
      · cases missing.symm.trans found
      · cases isValue.symm.trans found
        exact meaning

end

end Draft

theorem drawnFrom_of_ofValue {literal : Literal} {json : Json} (keepable : json.Keepable)
    (read : ofValue json.kept = .ok literal) : literal.DrawnFrom json := by
  obtain ⟨layout, laid⟩ : ∃ layout, json.kept.layout = .ok layout := by
    cases same : json.kept with
    | map entries => exact ⟨_, rfl⟩
    | list items => exact ⟨_, rfl⟩
    | _ =>
        rw [same] at read
        cases read
  rcases keepable.layout_kept laid with ⟨members, rfl, -, -⟩ | ⟨items, rfl, ofItems, -⟩
  · rw [Json.kept_record, ofValue, List.foldlM_map] at read
    obtain ⟨draft, run, finished⟩ := bind_eq_ok_iff.mp read
    have reached : draft.Reached members :=
      foldlM_invariant_before Draft.Reached Draft.reached_start run
        fun _ _ _ _ _ reached step => reached.readMember step
    exact .keyed (reached.keyed finished)
  · rw [Json.kept, Json.keptItems_eq_map] at read
    cases items with
    | nil => cases read
    | cons type rest =>
        obtain ⟨kind, typed, read⟩ := bind_eq_ok_iff.mp read
        obtain ⟨ofType, -⟩ := List.forall_mem_cons.mp ofItems
        cases rest with
        | nil => cases read
        | cons value later =>
            obtain ⟨found, meaning, read⟩ := bind_eq_ok_iff.mp read
            cases later with
            | nil =>
                cases read
                obtain rfl := Kind.eq_of_interpret meaning
                exact .listed (Variants.namedBy_of_ofValue ofType typed) meaning
            | cons => cases read

end Literal

/-! ## Arguments -/

namespace Argument

def kind : Argument → Kind
  | .constant _ => .constant
  | .wrapped _ => .wrapped
  | .callResult _ => .callResult
  | .unresolved _ => .unresolved

/-- The nodes that an argument can be read from. -/
def DrawnFrom : Argument → Json → Prop
  | .constant value =>
      LaidOut (fun _ => True) [Kind.variants.tagForm .constant, .required "value" value.DrawnFrom]
  | .wrapped inner =>
      LaidOut (fun _ => True) [Kind.variants.tagForm .wrapped, .required "inner" inner.DrawnFrom]
  | .callResult callee =>
      LaidOut (fun _ => True) [Kind.variants.tagForm .callResult, .text "callee" callee]
  | .unresolved origin =>
      LaidOut (fun _ => True) [Kind.variants.tagForm .unresolved, .optionalText "origin" origin]

theorem Kind.slot_of_ofMembers {kind : Kind} {members : List (String × Json)}
    (keepable : ∀ member ∈ members, member.2.Keepable)
    (read : Kind.ofMembers (members.map fun member => (.text member.1, member.2.kept)) =
      .ok kind) :
    Slot Tagged.tag (fun json kind => variants.NamedBy kind json) members (some kind) := by
  rw [ofMembers, List.foldlM_map] at read
  obtain ⟨found, run, read⟩ := bind_eq_ok_iff.mp read
  have slot := foldlM_invariant_before
    (Slot Tagged.tag fun json kind => variants.NamedBy kind json) .start run ?_
  · cases found with
    | none => cases read
    | some found =>
        cases read
        exact slot
  · intro before member present kind next slot step
    unfold readMember at step
    split at step
    case isTrue isTag =>
      cases kind with
      | some earlier => cases step
      | none =>
          obtain ⟨found, named, rfl⟩ := map_eq_ok_iff.mp step
          exact slot.fill (Tagged.isTag_text.mp isTag)
            (Variants.namedBy_of_ofValue (keepable member present) named)
    case isFalse noTag =>
      cases step
      exact slot.skip fun isTag => noTag (Tagged.isTag_text.mpr isTag)

theorem kind_of_readLayout {kind : Kind} {layout : Layout Value} {argument : Argument}
    (read : kind.shape.readLayout layout = .ok argument) : argument.kind = kind := by
  refine Shape.invariant_of_readLayout (fun argument : Argument => argument.kind = kind)
    ?_ read ?_
  · cases kind <;> rfl
  · intro field listed node _ before after _ stored
    cases kind with
    | constant | wrapped | callResult | unresolved =>
        obtain rfl := List.mem_singleton.mp listed
        obtain ⟨content, -, rfl⟩ := map_eq_ok_iff.mp stored
        rfl

/-- An argument has a tag and one more field, which gives the argument. -/
theorem laidOut_of_ofValue {json : Json} {argument : Argument} (keepable : json.Keepable)
    (read : ofValue json.kept = .ok argument) {field : Field (Except Reason) Value Argument}
    (only : argument.kind.shape.fields = [field]) (apart : field.name ≠ Tagged.tag) :
    LaidOut (fun _ => True) [Kind.variants.tagForm argument.kind,
      Shape.wholeForm Json.kept Json.Keepable field argument.kind.shape.blank argument] json := by
  obtain ⟨layout, laid⟩ : ∃ layout, json.kept.layout = .ok layout := by
    cases same : json.kept with
    | map entries => exact ⟨_, rfl⟩
    | list items => exact ⟨_, rfl⟩
    | _ =>
        rw [same] at read
        cases read
  rcases keepable.layout_kept laid with ⟨members, rfl, ofMembers, -⟩ | ⟨items, rfl, ofItems, -⟩
  · rw [Json.kept_record, ofValue_map] at read
    obtain ⟨kind, named, read⟩ := bind_eq_ok_iff.mp read
    change kind.shape.readLayout (.keyed _) = _ at read
    obtain rfl := kind_of_readLayout read
    rw [untagged_kept] at read
    have tells : argument.kind.shape.Tells Json.kept Json.Keepable _ := Shape.tells_single only
    refine .keyed ((Kind.slot_of_ofMembers ofMembers named).keyed_cons
      (tells.keyed Json.views_kept.key ?_ read) (List.forall_mem_singleton.mpr apart))
    exact fun member present => ofMembers member (List.mem_filter.mp present).1
  · rw [Json.kept, Json.keptItems_eq_map] at read
    cases items with
    | nil => cases read
    | cons first rest =>
        obtain ⟨ofFirst, ofRest⟩ := List.forall_mem_cons.mp ofItems
        rw [List.map_cons, ofValue_list] at read
        obtain ⟨kind, named, read⟩ := bind_eq_ok_iff.mp read
        change kind.shape.readLayout (.positional _) = _ at read
        obtain rfl := kind_of_readLayout read
        exact .listed (.next (Variants.namedBy_of_ofValue ofFirst named)
          ((Shape.tells_single only).listed ofRest read))

theorem drawnFrom_of_ofValue {json : Json} {argument : Argument} (keepable : json.Keepable)
    (read : ofValue json.kept = .ok argument) : argument.DrawnFrom json := by
  induction argument generalizing json with
  | constant value =>
      refine (laidOut_of_ofValue keepable read rfl (by decide)).mono_second ⟨rfl, nofun, ?_⟩
      rintro part ⟨ofPart, before, stored⟩
      obtain ⟨found, ofFound, same⟩ := map_eq_ok_iff.mp stored
      cases same
      exact Literal.drawnFrom_of_ofValue ofPart ofFound
  | wrapped inner ih =>
      refine (laidOut_of_ofValue keepable read rfl (by decide)).mono_second ⟨rfl, nofun, ?_⟩
      rintro part ⟨ofPart, before, stored⟩
      obtain ⟨found, ofFound, same⟩ := map_eq_ok_iff.mp stored
      cases same
      exact ih ofPart ofFound
  | callResult callee =>
      refine (laidOut_of_ofValue keepable read rfl (by decide)).mono_second ⟨rfl, nofun, ?_⟩
      rintro part ⟨ofPart, before, stored⟩
      obtain ⟨found, ofFound, same⟩ := map_eq_ok_iff.mp stored
      cases same
      exact ofPart.eq_ofText ofFound
  | unresolved origin =>
      refine (laidOut_of_ofValue keepable read rfl (by decide)).mono_second ⟨rfl, ?_, ?_⟩
      · rintro ⟨-, same⟩
        cases same
        rfl
      · rintro part ⟨ofPart, before, stored⟩
        obtain ⟨found, ofFound, same⟩ := map_eq_ok_iff.mp stored
        cases same
        exact ofPart.eq_ofText? ofFound

end Argument

/-! ## Instructions -/

namespace Position

def sourceForms (position : Position) : List FieldForm := [
  .text "file" position.file,
  .required "line" fun json => json.kept.toUnsigned = .ok position.line,
  .required "column" fun json => json.kept.toUnsigned = .ok position.column]

def DrawnFrom (position : Position) : Json → Prop :=
  LaidOut (fun _ => True) position.sourceForms

theorem tells : Position.shape.Tells Json.kept Json.Keepable sourceForms where
  names _ := rfl
  distinct := by decide
  blank := by simp [shape]
  store index field listed position json after keepable stored := by
    rcases index with _ | _ | _ | index
    · obtain rfl := Option.some.inj listed
      obtain ⟨file, read, rfl⟩ := map_eq_ok_iff.mp stored
      exact ⟨.text "file" file, keepable.eq_ofText read, rfl⟩
    · obtain rfl := Option.some.inj listed
      obtain ⟨line, read, rfl⟩ := map_eq_ok_iff.mp stored
      exact ⟨.required "line" fun json => json.kept.toUnsigned = .ok line, read, rfl⟩
    · obtain rfl := Option.some.inj listed
      obtain ⟨column, read, rfl⟩ := map_eq_ok_iff.mp stored
      exact ⟨.required "column" fun json => json.kept.toUnsigned = .ok column, read, rfl⟩
    · cases listed

end Position

namespace Call

def sourceForms (call : Call) : List FieldForm := [
  .text "callee" call.callee,
  .list "args" Argument.DrawnFrom call.args,
  .required "position" call.position.DrawnFrom,
  .optionalText "result" call.result]

theorem tells : Call.shape.Tells Json.kept Json.Keepable sourceForms where
  names _ := rfl
  distinct := by decide
  blank := by simp [shape, sourceForms]
  store index field listed call json after keepable stored := by
    rcases index with _ | _ | _ | _ | index
    · obtain rfl := Option.some.inj listed
      obtain ⟨callee, read, rfl⟩ := map_eq_ok_iff.mp stored
      exact ⟨.text "callee" callee, keepable.eq_ofText read, rfl⟩
    · obtain rfl := Option.some.inj listed
      obtain ⟨args, read, rfl⟩ := map_eq_ok_iff.mp stored
      refine ⟨.list "args" Argument.DrawnFrom args, ?_, rfl⟩
      exact keepable.exists_list read fun _ _ => Argument.drawnFrom_of_ofValue
    · obtain rfl := Option.some.inj listed
      obtain ⟨position, read, rfl⟩ := map_eq_ok_iff.mp stored
      refine ⟨.required "position" position.DrawnFrom, ?_, rfl⟩
      exact Position.tells.laidOut_kept keepable read
    · obtain rfl := Option.some.inj listed
      obtain ⟨result, read, rfl⟩ := map_eq_ok_iff.mp stored
      exact ⟨.optionalText "result" result, keepable.eq_ofText? read, rfl⟩
    · cases listed

end Call

namespace Instruction

def kind : Instruction → Kind
  | .call _ => .call
  | .other _ => .other

/-- The nodes of the fields of an instruction, its tag first. -/
def sourceForms : Instruction → List FieldForm
  | .call made => Kind.variants.tagForm .call :: made.sourceForms
  | .other opcode => [Kind.variants.tagForm .other, .optionalText "opcode" opcode]

def DrawnFrom (instruction : Instruction) : Json → Prop :=
  LaidOut (fun _ => True) instruction.sourceForms

theorem kind_of_ofLayout {kind : Kind} {layout : Layout Value} {instruction : Instruction}
    (read : ofLayout kind layout = .ok instruction) : instruction.kind = kind := by
  cases kind with
  | call =>
      obtain ⟨made, -, rfl⟩ := map_eq_ok_iff.mp read
      rfl
  | other =>
      refine Shape.invariant_of_readLayout
        (fun instruction : Instruction => instruction.kind = .other) rfl read ?_
      intro field listed node _ before after _ stored
      obtain rfl := List.mem_singleton.mp listed
      obtain ⟨opcode, -, rfl⟩ := map_eq_ok_iff.mp stored
      rfl

theorem drawnFrom_of_read {json : Json} {instruction : Instruction}
    (read : read json = .ok instruction) : instruction.DrawnFrom json := by
  obtain ⟨kind, layout, tagged, meaning⟩ := exists_of_read read
  obtain rfl := kind_of_ofLayout meaning
  cases instruction with
  | call made =>
      obtain ⟨found, ofLayout, same⟩ := map_eq_ok_iff.mp meaning
      cases same
      exact Call.tells.laidOut_tagged (by decide) tagged ofLayout
  | other opcode =>
      have tells : otherShape.Tells Json.kept Json.Keepable _ := Shape.tells_single rfl
      refine (tells.laidOut_tagged (by decide) tagged meaning).mono_second ⟨rfl, ?_, ?_⟩
      · rintro ⟨-, same⟩
        cases same
        rfl
      · rintro part ⟨ofPart, before, stored⟩
        obtain ⟨found, ofFound, same⟩ := map_eq_ok_iff.mp stored
        cases same
        exact ofPart.eq_ofText? ofFound

end Instruction

/-! ## Programs -/

def Block.DrawnFrom (block : Block) : Json → Prop :=
  LaidOut (fun _ => True) [.list "instructions" Instruction.DrawnFrom block.instructions]

theorem Block.tells : Block.shape.Tells id (fun _ => True) fun block =>
    [.list "instructions" Instruction.DrawnFrom block.instructions] where
  names _ := rfl
  distinct := by decide
  blank := by simp [shape]
  store index field listed block json after _ stored := by
    rcases index with _ | index
    · obtain rfl := Option.some.inj listed
      obtain ⟨instructions, read, rfl⟩ := map_eq_ok_iff.mp stored
      refine ⟨.list "instructions" Instruction.DrawnFrom instructions, ?_, rfl⟩
      exact Json.exists_list read fun _ _ => Instruction.drawnFrom_of_read
    · cases listed

namespace Function

def sourceForms (function : Function) : List FieldForm :=
  [.text "name" function.name, .list "blocks" Block.DrawnFrom function.blocks]

def DrawnFrom (function : Function) : Json → Prop :=
  LaidOut (fun _ => True) function.sourceForms

theorem tells : Function.shape.Tells id (fun _ => True) sourceForms where
  names _ := rfl
  distinct := by decide
  blank := by simp [shape, sourceForms]
  store index field listed function json after _ stored := by
    rcases index with _ | _ | index
    · obtain rfl := Option.some.inj listed
      obtain ⟨name, read, rfl⟩ := map_eq_ok_iff.mp stored
      exact ⟨.text "name" name, Json.eq_ofText_of_textOf read, rfl⟩
    · obtain rfl := Option.some.inj listed
      obtain ⟨blocks, read, rfl⟩ := map_eq_ok_iff.mp stored
      refine ⟨.list "blocks" Block.DrawnFrom blocks, ?_, rfl⟩
      exact Json.exists_list read fun _ _ => Block.tells.laidOut
    · cases listed

end Function

namespace Program

def sourceForms (program : Program) : List FieldForm := [
  .optionalText "source" program.source,
  .list "functions" Function.DrawnFrom program.functions]

def DrawnFrom (program : Program) : Json → Prop :=
  LaidOut (fun _ => True) program.sourceForms

theorem tells : Program.shape.Tells id (fun _ => True) sourceForms where
  names _ := rfl
  distinct := by decide
  blank := by simp [shape, sourceForms]
  store index field listed program json after _ stored := by
    rcases index with _ | _ | index
    · obtain rfl := Option.some.inj listed
      obtain ⟨source, read, rfl⟩ := map_eq_ok_iff.mp stored
      exact ⟨.optionalText "source" source, Json.eq_ofText?_of_optionalText read, rfl⟩
    · obtain rfl := Option.some.inj listed
      obtain ⟨functions, read, rfl⟩ := map_eq_ok_iff.mp stored
      refine ⟨.list "functions" Function.DrawnFrom functions, ?_, rfl⟩
      exact Json.exists_list read fun _ _ => Function.tells.laidOut
    · cases listed

end Program

end RsaAudit
