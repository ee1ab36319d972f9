import RsaAudit.Proofs.Document.Instruction
import RsaAudit.Proofs.Document.Reading

/-!
# Reading instructions that have been written in any way

The parts of an instruction are kept before anything is read from them, so literals,
arguments and positions are read from kept values.  An instruction is read if its parts
fit into the levels that are left to them; in particular a printed one is read back.
-/

namespace RsaAudit

/-! ## Tags -/

namespace Tagged

theorem isTag_text {name : String} : isTag (.text name) = true ↔ name = tag :=
  beq_iff_eq

section

variable {harmless : Json → Prop} {name : String} {forms : List FieldForm}
  {members before after : List (String × Json)} {member : String × Json}
  (keyed : Keyed harmless (.text tag name :: forms) members)

include keyed

theorem tag_mem_names : tag ∈ (members.map Prod.fst).reverse :=
  List.mem_reverse.mpr ((keyed.given _ List.mem_cons_self).resolve_left id)

variable (split : members = before ++ member :: after)

include split

theorem tag_notMem_before (isTag : member.1 = tag) : tag ∉ (before.map Prod.fst).reverse := by
  rw [List.mem_reverse]
  exact keyed.fresh List.mem_cons_self split isTag

theorem eq_ofText_of_tag (isTag : member.1 = tag) : member.2 = .ofText name := by
  refine keyed.writes _ List.mem_cons_self member.2 ?_
  rw [split]
  exact List.mem_append_right before (isTag ▸ List.mem_cons_self)

end

end Tagged

/-! ## Literals -/

namespace Literal

def kind : Literal → Kind
  | .int _ => .int
  | .str _ => .str
  | .bytes _ => .bytes
  | .nil => .nil

theorem Kind.interpret_int (number : Int64) :
    Kind.int.interpret (Json.ofInt number.toInt).kept = .ok (.int number) := by
  change (do return Literal.int (← (Json.ofInt number.toInt).kept.toSigned)) = _
  rw [Json.toSigned_kept_ofInt]
  rfl

theorem Kind.interpret_bytes (content : List UInt8) :
    Kind.bytes.interpret (Json.list (content.map fun byte => .ofNat byte.toNat)).kept =
      .ok (.bytes content) := by
  have bytes : (Json.keptItems (content.map fun byte => .ofNat byte.toNat)).mapM
      Value.toByte = .ok content := by
    rw [Json.keptItems_eq_map, List.map_map, List.mapM_map]
    refine (mapM_of_ok fun byte _ => Json.toByte_kept_ofNat byte).trans ?_
    rw [List.map_id']
  change (do return Literal.bytes (← (Json.keptItems _).mapM Value.toByte)) = _
  rw [bytes]
  rfl

theorem ofName_typeName (literal : Literal) :
    Kind.variants.ofName literal.typeName = .ok literal.kind := by
  cases literal <;> rfl

theorem interpret_valueJson (literal : Literal) :
    literal.kind.interpret literal.valueJson.kept = .ok literal := by
  cases literal with
  | int number => exact Kind.interpret_int number
  | str text => rfl
  | bytes content => exact Kind.interpret_bytes content
  | nil => rfl

/-- The draft of a literal of which some members have been seen.  It is complete as soon
as both the type and the value are there. -/
def draftOf (literal : Literal) (seen : List String) : Draft where
  kind := whenSeen seen "type" (some literal.kind) none
  value := whenSeen seen "value" (some literal.valueJson.kept) none
  literal := whenSeen seen "type" (whenSeen seen "value" (some literal) none) none

theorem setKind_draftOf (literal : Literal) {seen : List String} (fresh : "type" ∉ seen) :
    (literal.draftOf seen).setKind (.text literal.typeName) =
      .ok (literal.draftOf ("type" :: seen)) := by
  have isType : Kind.ofMember (.text literal.typeName) = .ok literal.kind :=
    literal.ofName_typeName
  unfold Draft.setKind
  -- A value that has come before the type is interpreted now.
  by_cases valued : "value" ∈ seen
  · simp [draftOf, whenSeen, fresh, valued, isType, ok_bind, literal.interpret_valueJson]
  · simp [draftOf, whenSeen, fresh, valued, isType]

theorem setValue_draftOf (literal : Literal) {seen : List String} (fresh : "value" ∉ seen) :
    (literal.draftOf seen).setValue literal.valueJson.kept =
      .ok (literal.draftOf ("value" :: seen)) := by
  unfold Draft.setValue
  by_cases typed : "type" ∈ seen
  · simp [draftOf, whenSeen, fresh, typed, literal.interpret_valueJson]
  · have before : literal.draftOf seen = ⟨none, none, none⟩ := by
      simp [draftOf, whenSeen, fresh, typed]
    have after : literal.draftOf ("value" :: seen) =
        ⟨none, some literal.valueJson.kept, none⟩ := by
      simp [draftOf, whenSeen, typed]
    rw [before, after]
    rfl

theorem readMember_draftOf {literal : Literal} {members before after : List (String × Json)}
    {member : String × Json} (keyed : Keyed Json.Keepable literal.forms members)
    (split : members = before ++ member :: after) :
    (literal.draftOf (before.map Prod.fst).reverse).readMember
        (.text member.1, member.2.kept) =
      .ok (literal.draftOf ((before ++ [member]).map Prod.fst).reverse) := by
  have present : member ∈ members := split ▸ List.mem_append_right before List.mem_cons_self
  have seen : ((before ++ [member]).map Prod.fst).reverse =
      member.1 :: (before.map Prod.fst).reverse := by simp
  rw [seen]
  rcases keyed.writes_or_harmless present with ⟨form, listed, named, writes⟩ | ⟨unknown, -⟩
  · have fresh := keyed.fresh listed split named
    rw [← named, ← List.mem_reverse] at fresh
    obtain ⟨key, json⟩ := member
    simp only [forms, List.mem_cons, List.not_mem_nil, or_false] at listed
    rcases listed with rfl | rfl
    · obtain rfl : key = "type" := named
      obtain rfl : json = .ofText literal.typeName := writes
      exact literal.setKind_draftOf fresh
    · obtain rfl : key = "value" := named
      obtain rfl : json = literal.valueJson := writes
      exact literal.setValue_draftOf fresh
  · obtain ⟨notType, notValue⟩ : member.1 ≠ "type" ∧ member.1 ≠ "value" := by
      simpa [forms] using unknown
    have absent : (FieldKey.name member.1).find? ["type", "value"] = none := by
      simp [FieldKey.find?, List.findIdx?_cons, notType.symm, notValue.symm]
    have same : literal.draftOf (member.1 :: (before.map Prod.fst).reverse) =
        literal.draftOf (before.map Prod.fst).reverse := by
      simp [draftOf, notType.symm, notValue.symm]
    rw [Draft.readMember, Json.views_kept.key, ok_bind, absent, same]
    rfl

theorem finish_draftOf {literal : Literal} {seen : List String} (typed : "type" ∈ seen)
    (complete : literal = .nil ∨ "value" ∈ seen) :
    (literal.draftOf seen).finish = .ok literal := by
  by_cases valued : "value" ∈ seen
  · simp [draftOf, whenSeen, typed, valued, Draft.finish]
  · obtain rfl := complete.resolve_right valued
    simp [draftOf, whenSeen, typed, valued, Draft.finish, kind]

theorem ofValue_of_writtenAs {literal : Literal} {json : Json}
    (written : literal.WrittenAs json) : ofValue json.kept = .ok literal := by
  cases written with
  | @keyed members keyed =>
      have run : members.foldlM
          (fun draft member => draft.readMember (.text member.1, member.2.kept))
          (literal.draftOf []) = .ok (literal.draftOf (members.map Prod.fst).reverse) :=
        foldlM_of_ok (fun before => literal.draftOf (before.map Prod.fst).reverse)
          fun before member after split => readMember_draftOf keyed split
      have typed := (keyed.given _ List.mem_cons_self).resolve_left id
      have valued := keyed.given _ (List.mem_cons_of_mem _ List.mem_cons_self)
      rw [Json.kept_record, ofValue, List.foldlM_map]
      refine (congrArg (· >>= Draft.finish) run).trans ?_
      exact finish_draftOf (List.mem_reverse.mpr typed) (valued.imp_right List.mem_reverse.mpr)
  | listed =>
      have isType : Kind.variants.ofValue (Json.ofText literal.typeName).kept =
          .ok literal.kind := literal.ofName_typeName
      rw [Json.kept, Json.keptItems, Json.keptItems, Json.keptItems, ofValue, isType, ok_bind]
      dsimp only
      rw [literal.interpret_valueJson]
      rfl

end Literal

/-! ## Arguments -/

namespace Argument

def wrappedShape : Shape (Except Reason) Value Argument where
  fields := [⟨"inner", true, fun _ node => .wrapped <$> ofValue node⟩]
  blank := .wrapped (.unresolved none)

/-- The fields of an argument, its kind aside. -/
def Kind.shape : Kind → Shape (Except Reason) Value Argument
  | .constant => constantShape
  | .wrapped => wrappedShape
  | .callResult => callResultShape
  | .unresolved => unresolvedShape

/-- The draft of a wrapped argument of which the inner one has been found or not. -/
def wrappedDraft : Option Argument → RecordDraft Argument
  | none => ⟨wrappedShape.blank, []⟩
  | some inner => ⟨.wrapped inner, [0]⟩

theorem eq_zero_of_find? {selected : FieldKey} {name : String} {index : Nat}
    (found : selected.find? [name] = some index) : index = 0 := by
  cases selected with
  | name text =>
      have inRange := (List.findIdx?_eq_some_iff_getElem.mp found).1
      exact Nat.lt_one_iff.mp inRange
  | place position =>
      rw [FieldKey.find?, Option.ite_none_right_eq_some] at found
      obtain ⟨inRange, ⟨⟩⟩ := found
      exact Nat.lt_one_iff.mp inRange

theorem foldlM_wrappedShape (members : List (Value × Value)) (found : Option Argument) :
    (untagged members).foldlM wrappedShape.readMember (wrappedDraft found) =
      wrappedDraft <$> innerOfMembers members found := by
  -- Both go through the same members; the draft holds the argument found so far.
  induction members generalizing found with
  | nil => rfl
  | cons member rest ih =>
      obtain ⟨key, node⟩ := member
      rw [innerOfMembers]
      split
      case isTrue isTag =>
        rw [← ih, untagged, List.filter_cons_of_neg (by simp [isTag])]
        rfl
      case isFalse noTag =>
        rw [untagged, List.filter_cons_of_pos (by simp [noTag]), List.foldlM_cons,
          Shape.readMember]
        change _ >>= (untagged rest).foldlM wrappedShape.readMember = _
        have names : wrappedShape.names = ["inner"] := rfl
        rw [names]
        cases Readable.key key with
        | error reason => rfl
        | ok selected =>
            rw [ok_bind, ok_bind]
            dsimp only
            cases isInner : selected.find? ["inner"] with
            | none => exact ih found
            | some index =>
                obtain rfl := eq_zero_of_find? isInner
                cases found with
                | some inner => rfl
                | none =>
                    change (wrapped <$> ofValue node >>= _) >>= _ =
                      wrappedDraft <$> (ofValue node >>= _)
                    cases ofValue node with
                    | error reason => rfl
                    | ok inner => exact ih (some inner)

theorem ofValue_map (members : List (Value × Value)) :
    ofValue (.map members) =
      Kind.ofMembers members >>= fun kind => kind.shape.readMembers (untagged members) := by
  rw [ofValue]
  congr 1
  funext kind
  -- The other kinds are read by their shapes from the start.
  cases kind with
  | wrapped =>
      dsimp only [Kind.shape]
      rw [Shape.readMembers]
      change _ = (untagged members).foldlM wrappedShape.readMember (wrappedDraft none) >>= _
      rw [foldlM_wrappedShape]
      rcases innerOfMembers members none with reason | found
      · rfl
      · cases found <;> rfl
  | _ => rfl

theorem ofValue_list (first : Value) (rest : List Value) :
    ofValue (.list (first :: rest)) =
      Kind.variants.ofValue first >>= fun kind =>
        Shape.readItems kind.shape.blank kind.shape.fields rest := by
  rw [ofValue]
  congr 1
  funext kind
  cases kind with
  | wrapped =>
      dsimp only [Kind.shape, wrappedShape]
      cases rest with
      | nil => rfl
      | cons node later =>
          rw [innerOfItems, Shape.readItems]
          change _ = wrapped <$> ofValue node >>= _
          cases ofValue node with
          | error reason => rfl
          | ok inner => cases later <;> rfl
  | _ => rfl

section

variable {name : String} (kind : Kind) {forms : List FieldForm}
  (named : Kind.variants.ofName name = .ok kind)

include named

theorem Kind.ofMembers_of_keyed {harmless : Json → Prop} {members : List (String × Json)}
    (keyed : Keyed harmless (.text Tagged.tag name :: forms) members) :
    Kind.ofMembers (members.map fun member => (.text member.1, member.2.kept)) =
      .ok kind := by
  have run : members.foldlM
      (fun kind member => Kind.readMember kind (.text member.1, member.2.kept)) none =
      .ok (whenSeen (members.map Prod.fst).reverse Tagged.tag (some kind) none) := by
    refine foldlM_of_ok (fun before =>
      whenSeen (before.map Prod.fst).reverse Tagged.tag (some kind) none) ?_
    intro before member after split
    rw [List.map_append, List.reverse_append]
    change _ = Except.ok (whenSeen (member.1 :: (before.map Prod.fst).reverse) _ _ _)
    rw [Kind.readMember]
    by_cases isTag : member.1 = Tagged.tag
    · rw [if_pos (Tagged.isTag_text.mpr isTag), whenSeen,
        if_neg (Tagged.tag_notMem_before keyed split isTag),
        Tagged.eq_ofText_of_tag keyed split isTag, isTag, whenSeen_cons_self]
      change some <$> Kind.variants.ofName name = _
      rw [named]
      rfl
    · rw [if_neg (fun tagged => isTag (Tagged.isTag_text.mp tagged)),
        whenSeen_cons_of_ne (Ne.symm isTag)]
  rw [Kind.ofMembers, List.foldlM_map, run,
    whenSeen_of_complete (.inr (Tagged.tag_mem_names keyed))]
  rfl

omit named in
theorem untagged_kept (members : List (String × Json)) :
    untagged (members.map fun member => (.text member.1, member.2.kept)) =
      (members.filter (·.1 ≠ Tagged.tag)).map fun member => (.text member.1, member.2.kept) := by
  rw [untagged, List.filter_map]
  congr 1
  refine List.filter_congr fun member _ => ?_
  rw [Bool.eq_iff_iff]
  simp [Tagged.isTag]

theorem ofValue_of_laidOut {progress : List String → Argument} {argument : Argument}
    (fits : kind.shape.Fits Json.kept (fun _ => True) forms progress argument)
    (apart : ∀ form ∈ forms, form.name ≠ Tagged.tag) {json : Json}
    (laidOut : LaidOut Json.Keepable (.text Tagged.tag name :: forms) json) :
    ofValue json.kept = .ok argument := by
  cases laidOut with
  | keyed keyed =>
      rw [Json.kept_record, ofValue_map, Kind.ofMembers_of_keyed kind named keyed, ok_bind,
        untagged_kept]
      exact fits.readMembers Json.views_kept (keyed.tail apart) fun _ _ => trivial
  | @listed items listed =>
      cases listed with
      | done omissible => exact (omissible _ List.mem_cons_self).elim
      | @next _ _ first rest isTag later =>
          obtain rfl : first = .ofText name := isTag
          rw [Json.kept, Json.keptItems, ofValue_list]
          change (Kind.variants.ofName name >>= _) = _
          rw [named, ok_bind, Json.keptItems_eq_map]
          exact fits.readItems later fun _ _ => trivial

end

theorem ofValue_of_writtenAs {argument : Argument} {json : Json}
    (written : argument.WrittenAs json) : ofValue json.kept = .ok argument := by
  induction argument generalizing json with
  | constant value =>
      refine ofValue_of_laidOut .constant rfl (Shape.fits_single rfl rfl False.elim ?_)
        (by simp [Tagged.tag]) written
      intro record part _ writes
      change constant <$> Literal.ofValue part.kept = _
      rw [Literal.ofValue_of_writtenAs writes]
      rfl
  | wrapped inner ih =>
      refine ofValue_of_laidOut .wrapped rfl (Shape.fits_single rfl rfl False.elim ?_)
        (by simp [Tagged.tag]) written
      intro record part _ writes
      change wrapped <$> ofValue part.kept = _
      rw [ih writes]
      rfl
  | callResult callee =>
      refine ofValue_of_laidOut .callResult rfl (Shape.fits_single rfl rfl False.elim ?_)
        (by simp [Tagged.tag]) written
      rintro record part - rfl
      rfl
  | unresolved origin =>
      refine ofValue_of_laidOut .unresolved rfl (Shape.fits_single rfl rfl ?_ ?_)
        (by simp [Tagged.tag]) written
      · rintro rfl
        exact ⟨rfl, rfl⟩
      · rintro record part - rfl
        cases origin <;> rfl

end Argument

/-! ## Instructions -/

namespace Tagged

/-- The members that are kept among those that have been seen. -/
def keptAfter (members : List (String × Json)) : List (Value × Value) :=
  ((members.filter (·.1 ≠ tag)).map fun member => (.text member.1, member.2.kept)).reverse

/-- The draft of a tagged record of which some members have been seen. -/
def draftAfter {Variant : Type} (variant : Variant) (members : List (String × Json)) :
    Draft Variant :=
  ⟨whenSeen (members.map Prod.fst).reverse tag (some variant) none, keptAfter members⟩

variable {Variant : Type} {variants : Variants Variant} {name : String} {variant : Variant}
  {forms : List FieldForm} (named : variants.ofName name = .ok variant)

include named

theorem read_of_keyed {members : List (String × Json)}
    (keyed : Keyed Json.Keepable (.text tag name :: forms) members)
    (keepable : ∀ member ∈ members, member.2.Keepable)
    (fits : ∀ member ∈ members, member.2.depth ≤ Json.partLevels) :
    read variants (Json.record members) =
      .ok (variant, .keyed ((members.filter (·.1 ≠ tag)).map
        fun member => (.text member.1, member.2.kept))) := by
  have run : members.foldlM (fun draft member =>
      readMember variants draft (Json.text (some member.1), member.2)) ⟨none, []⟩ =
      .ok (draftAfter variant members) := by
    refine foldlM_of_ok (draftAfter variant) fun before member after split => ?_
    have present : member ∈ members :=
      split ▸ List.mem_append_right before List.mem_cons_self
    by_cases isTag : member.1 = tag
    · have unseen : draftAfter variant before = ⟨none, keptAfter before⟩ := by
        rw [draftAfter, whenSeen, if_neg (tag_notMem_before keyed split isTag)]
      have next : draftAfter variant (before ++ [member]) = ⟨some variant, keptAfter before⟩ := by
        simp [draftAfter, keptAfter, isTag]
      rw [unseen, next, eq_ofText_of_tag keyed split isTag, isTag]
      exact readMember_tag named (keptAfter before)
    · have next : draftAfter variant (before ++ [member]) =
          { draftAfter variant before with
            kept := (.text member.1, member.2.kept) :: keptAfter before } := by
        simp [draftAfter, keptAfter, isTag, Ne.symm isTag]
      rw [readMember_other _ isTag (keepable member present), Json.ifFits,
        if_pos (fits member present), next]
      rfl
  unfold read
  change (Json.layout _ >>= _) = _
  rw [Json.layout_record, ok_bind]
  dsimp only
  rw [List.foldlM_map, run, ok_bind, draftAfter,
    whenSeen_of_complete (.inr (tag_mem_names keyed)), keptAfter, List.reverse_reverse]
  rfl

theorem read_of_listed {items : List Json} (keepable : ∀ item ∈ items, item.Keepable)
    (fits : ∀ item ∈ items, item.depth ≤ Json.partLevels) :
    read variants (Json.list (.ofText name :: items)) =
      .ok (variant, .positional (items.map Json.kept)) := by
  have kept : items.mapM (Json.keepWithin Json.partLevels) = .ok (items.map Json.kept) :=
    mapM_of_ok fun item member => (keepable item member).keepWithin (fits item member)
  unfold read
  change (readVariant variants (Json.ofText name) >>= fun variant =>
    items.mapM (Json.keepWithin Json.partLevels) >>= fun kept =>
      pure (variant, Layout.positional kept)) = _
  rw [readVariant_ofText named, ok_bind, kept]
  rfl

/-- The variant of a tagged record is found and its other fields are kept, however it
is written. -/
theorem read_of_laidOut {Record : Type} {shape : Shape (Except Reason) Value Record}
    {progress : List String → Record} {goal : Record}
    (fits : shape.Fits Json.kept (fun _ => True) forms progress goal)
    (apart : ∀ form ∈ forms, form.name ≠ tag) (keepable : ∀ form ∈ forms, form.Keepable)
    {json : Json} (laidOut : LaidOut Json.Keepable (.text tag name :: forms) json)
    (shallow : json.depth ≤ Json.partLevels + 1) :
    ∃ layout, read variants json = .ok (variant, layout) ∧
      shape.readLayout layout = .ok goal := by
  cases laidOut with
  | keyed keyed =>
      have members := keyed.keepable (List.forall_mem_cons.mpr
        ⟨FieldForm.keepable_text tag name, keepable⟩)
      refine ⟨_, read_of_keyed named keyed members (Json.depth_record_le_iff.mp shallow), ?_⟩
      exact fits.readMembers Json.views_kept (keyed.tail apart) fun _ _ => trivial
  | @listed items listed =>
      cases listed with
      | done omissible => exact (omissible _ List.mem_cons_self).elim
      | @next _ _ first rest isTag later =>
          obtain rfl : first = .ofText name := isTag
          refine ⟨_, read_of_listed named (later.keepable keepable) fun item member =>
            Json.depth_le_of_mem_parts shallow (List.mem_cons_of_mem _ member), ?_⟩
          exact fits.readItems later fun _ _ => trivial

end Tagged

/-- A position of which some fields have been seen. -/
def Position.seenOf (position : Position) (seen : List String) : Position where
  file := whenSeen seen "file" position.file ""
  line := whenSeen seen "line" position.line 0
  column := whenSeen seen "column" position.column 0

theorem Position.fits (position : Position) :
    Position.shape.Fits Json.kept (fun _ => True) position.forms position.seenOf
      position where
  fields := by
    refine .cons ?_ (.cons ?_ (.cons ?_ .nil))
    · refine .of_read (fun position file => { position with file }) Readable.text
        position.file rfl False.elim (fun _ _ => rfl) (by simp [seenOf]) ?_
      rintro json - rfl
      rfl
    · refine .of_read (fun position line => { position with line }) Readable.unsigned
        position.line rfl False.elim (fun _ _ => rfl) (by simp [seenOf]) ?_
      rintro json - rfl
      rw [Json.kept_ofNat_toNat]
      rfl
    · refine .of_read (fun position column => { position with column }) Readable.unsigned
        position.column rfl False.elim (fun _ _ => rfl) (by simp [seenOf]) ?_
      rintro json - rfl
      rw [Json.kept_ofNat_toNat]
      rfl
  distinct := by decide
  blank := rfl
  complete seen complete := by
    obtain ⟨file, line, column⟩ : "file" ∈ seen ∧ "line" ∈ seen ∧ "column" ∈ seen := by
      simpa [forms] using complete
    rw [seenOf, whenSeen_of_complete (.inr file), whenSeen_of_complete (.inr line),
      whenSeen_of_complete (.inr column)]

def Call.seenOf (call : Call) (seen : List String) : Call where
  callee := whenSeen seen "callee" call.callee ""
  args := whenSeen seen "args" call.args []
  position := whenSeen seen "position" call.position ⟨"", 0, 0⟩
  result := whenSeen seen "result" call.result none

theorem Call.fits (call : Call) :
    Call.shape.Fits Json.kept (fun _ => True) call.forms call.seenOf call where
  fields := by
    refine .cons ?_ (.cons ?_ (.cons ?_ (.cons ?_ .nil)))
    · refine .of_read (fun call callee => { call with callee }) Readable.text
        call.callee rfl False.elim (fun _ _ => rfl) (by simp [seenOf]) ?_
      rintro json - rfl
      rfl
    · refine .of_read (fun call args => { call with args }) (Readable.list Argument.ofValue)
        call.args rfl (fun _ => rfl) (fun _ _ => rfl) (by simp [seenOf]) ?_
      rintro json - ⟨nodes, rfl, written⟩
      rw [Json.kept, Json.keptItems_eq_map]
      change (nodes.map Json.kept).mapM Argument.ofValue = _
      rw [List.mapM_map]
      exact mapM_of_forall₂ written fun _ _ _ => Argument.ofValue_of_writtenAs
    · refine .of_read (fun call position => { call with position }) Position.read
        call.position rfl False.elim (fun _ _ => rfl) (by simp [seenOf]) ?_
      intro json _ written
      exact call.position.fits.read Json.views_kept written fun _ _ => trivial
    · refine .of_read (fun call result => { call with result }) Readable.optionalText
        call.result rfl (fun _ => rfl) (fun _ _ => rfl) (by simp [seenOf]) ?_
      rintro json - rfl
      cases call.result <;> rfl
  distinct := by decide
  blank := rfl
  complete seen complete := by
    obtain ⟨callee, args, position, result⟩ : "callee" ∈ seen ∧
        (call.args = [] ∨ "args" ∈ seen) ∧ "position" ∈ seen ∧
          (call.result = none ∨ "result" ∈ seen) := by
      simpa [forms] using complete
    rw [seenOf, whenSeen_of_complete (.inr callee), whenSeen_of_complete args,
      whenSeen_of_complete (.inr position), whenSeen_of_complete result]

theorem Instruction.read_of_writtenAs {instruction : Instruction} {json : Json}
    (written : instruction.WrittenAs json) (shallow : json.depth ≤ Json.partLevels + 1) :
    read json = .ok instruction := by
  unfold read
  cases instruction with
  | call made =>
      obtain ⟨layout, tagged, meaning⟩ : ∃ layout,
          Tagged.read Kind.variants json = .ok (.call, layout) ∧
            Call.shape.readLayout layout = .ok made :=
        Tagged.read_of_laidOut rfl made.fits (by simp [Call.forms, Tagged.tag])
          made.keepable_forms written shallow
      rw [tagged, ok_bind]
      change MonadExcept.ofExcept (call <$> Call.shape.readLayout layout) = _
      rw [meaning]
      rfl
  | other opcode =>
      obtain ⟨layout, tagged, meaning⟩ : ∃ layout,
          Tagged.read Kind.variants json = .ok (.other, layout) ∧
            otherShape.readLayout layout = .ok (other opcode) := by
        refine Tagged.read_of_laidOut rfl (Shape.fits_single rfl rfl ?_ ?_)
          (by simp [Tagged.tag])
          (List.forall_mem_singleton.mpr (FieldForm.keepable_optionalText _ _))
          written shallow
        · rintro rfl
          exact ⟨rfl, rfl⟩
        · rintro record part - rfl
          cases opcode <;> rfl
      rw [tagged, ok_bind]
      change MonadExcept.ofExcept (otherShape.readLayout layout) = _
      rw [meaning]
      rfl

/-- A written instruction is read back if its parts fit. -/
theorem Instruction.read_toJson (instruction : Instruction) :
    read instruction.toJson =
      Json.ifFits instruction.toJson.depth (Json.partLevels + 1) instruction := by
  cases instruction with
  | call made =>
      have others : ∀ member ∈ made.members, member.1 ≠ Tagged.tag := by
        simp [Call.members, Json.optionalMember, Tagged.tag]
      refine read_record rfl others (made.spellable_members Json.admitsWords_inRange) ?_
      change call <$> Call.shape.readMembers _ = _
      rw [made.fits.readMembers Json.views_kept made.keyed_members fun _ _ => trivial]
      rfl
  | other opcode =>
      refine read_record rfl ?_ ?_ ?_
      · simp [Tagged.tag]
      · cases opcode <;> simp [Json.ofText?, Json.Spellable]
      · cases opcode <;> rfl

end RsaAudit
