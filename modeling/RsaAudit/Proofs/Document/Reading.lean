import RsaAudit.Proofs.Document.Record
import RsaAudit.Proofs.Document.Rendering

/-!
# Reading what has been written in any way

A record is read the same whatever the order of its members is.  The state of the
reading after some members is given by the names of the fields among them, so each
member only has to be shown to take the state one step further.
-/

namespace RsaAudit

/-- JSON values are read through other nodes, which have the same records.  `harmless`
tells which values can be passed over. -/
structure Json.Views {Node : Type} [Readable (Except Reason) Node] (view : Json → Node)
    (keyOf : String → Node) (harmless : Json → Prop) : Prop where
  key : ∀ name, Readable.key (keyOf name) = .ok (.name name)
  ignore : ∀ json, harmless json → Readable.ignore (view json) = .ok ()
  record : ∀ members, Readable.record (view (.record members)) =
    .ok (.keyed (members.map fun member => (keyOf member.1, view member.2)))
  list : ∀ items, Readable.record (view (.list items)) = .ok (.positional (items.map view))

theorem Json.views_id :
    Views id (fun name => .text (some name)) (fun json => json.intact = true) where
  key _ := rfl
  ignore _ intact := if_pos intact
  record := layout_record
  list items := by
    rw [List.map_id]
    rfl

theorem Json.views_kept : Views kept Value.text Keepable where
  key _ := rfl
  ignore _ _ := rfl
  record members := by
    rw [kept_record]
    rfl
  list items := by
    rw [kept, keptItems_eq_map]
    rfl

/-- The items of a list are read one by one. -/
theorem mapM_of_forall₂ {Node Item Fault : Type} {run : Node → Except Fault Item}
    {writes : Item → Node → Prop} {items : List Item} {nodes : List Node}
    (written : List.Forall₂ writes items nodes)
    (each : ∀ item, ∀ node ∈ nodes, writes item node → run node = .ok item) :
    nodes.mapM run = .ok items := by
  induction written with
  | nil => rfl
  | cons first _ ih =>
      have later := ih fun item node member => each item node (List.mem_cons_of_mem _ member)
      rw [List.mapM_cons, each _ _ List.mem_cons_self first, ok_bind, later]
      rfl

def Json.parts : Json → List Json
  | .list items => items
  | .object members => members.map Prod.snd
  | _ => []

theorem Json.depth_le_of_mem_parts {json part : Json} {levels : Nat}
    (shallow : json.depth ≤ levels + 1) (member : part ∈ json.parts) :
    part.depth ≤ levels := by
  cases json with
  | list items => exact itemsDepth_le_iff.mp (Nat.le_of_succ_le_succ shallow) part member
  | object members =>
      obtain ⟨entry, listed, rfl⟩ := List.mem_map.mp member
      exact membersDepth_le_iff.mp (Nat.le_of_succ_le_succ shallow) entry listed
  | _ => cases member

/-- What a field holds that has been seen or not. -/
def whenSeen {Content : Type} (seen : List String) (name : String) (content blank : Content) :
    Content :=
  if name ∈ seen then content else blank

section

variable {Content : Type} {seen : List String} {name other : String} {content blank : Content}

@[simp]
theorem whenSeen_cons_self : whenSeen (name :: seen) name content blank = content :=
  if_pos List.mem_cons_self

@[simp]
theorem whenSeen_cons_of_ne (apart : name ≠ other) :
    whenSeen (other :: seen) name content blank = whenSeen seen name content blank := by
  simp [whenSeen, apart]

theorem whenSeen_of_complete (complete : content = blank ∨ name ∈ seen) :
    whenSeen seen name content blank = content := by
  unfold whenSeen
  split
  case isTrue => rfl
  case isFalse unseen => exact (complete.resolve_right unseen).symm

end

namespace Shape

variable {Node Record : Type} {view : Json → Node} {readable : Json → Prop}
  {progress : List String → Record}

/-- Storing any node that writes a field leads to the record in which that field has
been seen too. -/
structure FieldFits (view : Json → Node) (readable : Json → Prop)
    (progress : List String → Record) (field : Field (Except Reason) Node Record)
    (form : FieldForm) : Prop where
  name : field.name = form.name
  optional : form.omissible → field.required = false
  store : ∀ seen json, readable json → form.writes json →
    field.store (progress seen) (view json) = .ok (progress (form.name :: seen))

theorem FieldFits.of_read {Content : Type} (enter : Record → Content → Record)
    (read : Node → Except Reason Content) (content : Content)
    {field : Field (Except Reason) Node Record} {form : FieldForm}
    (name : field.name = form.name) (optional : form.omissible → field.required = false)
    (store : ∀ record node, field.store record node = enter record <$> read node)
    (next : ∀ seen, progress (form.name :: seen) = enter (progress seen) content)
    (reads : ∀ json, readable json → form.writes json → read (view json) = .ok content) :
    FieldFits view readable progress field form where
  name := name
  optional := optional
  store seen json isReadable writes := by
    rw [store, reads json isReadable writes, next]
    rfl

section

variable {fields : List (Field (Except Reason) Node Record)} {forms : List FieldForm}
  (aligned : List.Forall₂ (FieldFits view readable progress) fields forms)

include aligned

theorem names_of_aligned : fields.map Field.name = forms.map FieldForm.name := by
  induction aligned with
  | nil => rfl
  | cons first _ ih => rw [List.map_cons, List.map_cons, first.name, ih]

theorem exists_field_of_aligned {form : FieldForm} (listed : form ∈ forms) :
    ∃ before field after, fields = before ++ field :: after ∧
      FieldFits view readable progress field form := by
  induction aligned with
  | nil => cases listed
  | @cons field first fields forms fits _ ih =>
      rcases List.mem_cons.mp listed with rfl | later
      · exact ⟨[], field, fields, rfl, fits⟩
      · obtain ⟨before, found, after, rfl, fits⟩ := ih later
        exact ⟨field :: before, found, after, rfl, fits⟩

theorem exists_form_of_aligned {field : Field (Except Reason) Node Record}
    (listed : field ∈ fields) :
    ∃ form ∈ forms, FieldFits view readable progress field form := by
  induction aligned with
  | nil => cases listed
  | @cons first form fields forms fits _ ih =>
      rcases List.mem_cons.mp listed with rfl | later
      · exact ⟨form, List.mem_cons_self, fits⟩
      · obtain ⟨found, inForms, fits⟩ := ih later
        exact ⟨found, List.mem_cons_of_mem form inForms, fits⟩

theorem readItems_of_aligned [Readable (Except Reason) Node] {items : List Json}
    (listed : Listed forms items) (readableItems : ∀ item ∈ items, readable item)
    (seen : List String) :
    ∃ all, readItems (progress seen) fields (items.map view) = .ok (progress all) ∧
      seen ⊆ all ∧ ∀ form ∈ forms, form.omissible ∨ form.name ∈ all := by
  -- The induction is on the fields: once the items are used up, the rest is left out.
  induction aligned generalizing items seen with
  | nil =>
      cases listed
      exact ⟨seen, rfl, List.Subset.refl seen, List.forall_mem_nil _⟩
  | @cons field form fields forms fits _ ih =>
      cases listed with
      | done omissible =>
          obtain ⟨formOmissible, laterOmissible⟩ := List.forall_mem_cons.mp omissible
          obtain ⟨all, read, includes, complete⟩ :=
            ih (.done laterOmissible) (List.forall_mem_nil _) seen
          refine ⟨all, ?_, includes,
            List.forall_mem_cons.mpr ⟨.inl formOmissible, complete⟩⟩
          rw [List.map_nil, readItems, fits.optional formOmissible]
          exact read
      | @next _ _ json items writes later =>
          obtain ⟨readableFirst, readableLater⟩ := List.forall_mem_cons.mp readableItems
          obtain ⟨all, read, includes, complete⟩ := ih later readableLater (form.name :: seen)
          obtain ⟨nameSeen, earlierSeen⟩ := List.cons_subset.mp includes
          refine ⟨all, ?_, earlierSeen, List.forall_mem_cons.mpr ⟨.inr nameSeen, complete⟩⟩
          rw [List.map_cons, readItems, fits.store seen json readableFirst writes, ok_bind]
          exact read

end

section

variable (shape : Shape (Except Reason) Node Record)

/-- The fields among some members, the last one first. -/
def seenNames (members : List (String × Json)) : List String :=
  ((members.map Prod.fst).filter (· ∈ shape.names)).reverse

/-- The state of the reading after some members. -/
def draftAfter (progress : List String → Record) (members : List (String × Json)) :
    RecordDraft Record :=
  ⟨progress (shape.seenNames members), (shape.seenNames members).map shape.names.idxOf⟩

variable {shape}

theorem seenNames_append_of_mem {members : List (String × Json)} {member : String × Json}
    (listed : member.1 ∈ shape.names) :
    shape.seenNames (members ++ [member]) = member.1 :: shape.seenNames members := by
  simp [seenNames, listed]

theorem seenNames_append_of_notMem {members : List (String × Json)}
    {member : String × Json} (unlisted : member.1 ∉ shape.names) :
    shape.seenNames (members ++ [member]) = shape.seenNames members := by
  simp [seenNames, unlisted]

theorem idxOf_names (distinct : shape.names.Nodup)
    {field : Field (Except Reason) Node Record} {index : Nat}
    (listed : shape.fields[index]? = some field) :
    shape.names.idxOf field.name = index := by
  have named : shape.names[index]? = some field.name := by
    rw [names, List.getElem?_map, listed]
    rfl
  obtain ⟨inNames, isName⟩ := List.getElem?_eq_some_iff.mp named
  rw [← isName, distinct.idxOf_getElem index inNames]

theorem readMember_of_other [Readable (Except Reason) Node] {key : Node} {name : String}
    (named : Readable.key key = .ok (.name name)) (unlisted : name ∉ shape.names)
    (draft : RecordDraft Record) (node : Node) :
    shape.readMember draft (key, node) =
      (fun _ => draft) <$> (Readable.ignore node : Except Reason Unit) := by
  have absent : (FieldKey.name name).find? shape.names = none := by
    refine List.findIdx?_eq_none_iff.mpr fun other listed => ?_
    exact beq_eq_false_iff_ne.mpr fun same => unlisted (same ▸ listed)
  unfold readMember
  rw [named]
  dsimp only [bind, Except.bind]
  rw [absent]
  rfl

end

/-- A record shape reads fields that are written in the given forms.  What it has read
after some fields is given by their names. -/
structure Fits (shape : Shape (Except Reason) Node Record) (view : Json → Node)
    (readable : Json → Prop) (forms : List FieldForm) (progress : List String → Record)
    (goal : Record) : Prop where
  fields : List.Forall₂ (FieldFits view readable progress) shape.fields forms
  distinct : shape.names.Nodup
  blank : progress [] = shape.blank
  complete : ∀ seen, (∀ form ∈ forms, form.omissible ∨ form.name ∈ seen) →
    progress seen = goal

namespace Fits

variable {shape : Shape (Except Reason) Node Record} {forms : List FieldForm} {goal : Record}
  (fits : shape.Fits view readable forms progress goal) [Readable (Except Reason) Node]
  {keyOf : String → Node} {harmless : Json → Prop}

include fits

theorem readItems {items : List Json} (listed : Listed forms items)
    (readableItems : ∀ item ∈ items, readable item) :
    Shape.readItems shape.blank shape.fields (items.map view) = .ok goal := by
  obtain ⟨all, read, -, complete⟩ := readItems_of_aligned fits.fields listed readableItems []
  rw [← fits.blank, read, fits.complete all complete]

omit [Readable (Except Reason) Node] in
theorem names_eq : shape.names = forms.map FieldForm.name :=
  names_of_aligned fits.fields

omit [Readable (Except Reason) Node] in
theorem notMem_names {name : String} (unknown : ∀ form ∈ forms, name ≠ form.name) :
    name ∉ shape.names := by
  rw [fits.names_eq]
  intro listed
  obtain ⟨form, inForms, named⟩ := List.mem_map.mp listed
  exact unknown form inForms named.symm

theorem readMember (views : Json.Views view keyOf harmless)
    {members before after : List (String × Json)} {member : String × Json}
    (keyed : Keyed harmless forms members) (split : members = before ++ member :: after)
    (readableMember : readable member.2) :
    shape.readMember (shape.draftAfter progress before) (keyOf member.1, view member.2) =
      .ok (shape.draftAfter progress (before ++ [member])) := by
  have present : member ∈ members := split ▸ List.mem_append_right before List.mem_cons_self
  rcases keyed.writes_or_harmless present with
    ⟨form, listed, isField, writes⟩ | ⟨unknown, harmless⟩
  · obtain ⟨earlier, field, later, all, fieldFits⟩ :=
      exists_field_of_aligned fits.fields listed
    have isNamed : Readable.key (keyOf member.1) = .ok (.name field.name) := by
      rw [views.key, isField, fieldFits.name]
    have place : shape.names.idxOf field.name = earlier.length := by
      refine idxOf_names fits.distinct ?_
      rw [all, List.getElem?_append_right (Nat.le_refl _), Nat.sub_self]
      rfl
    have isName : member.1 ∈ shape.names := by
      rw [fits.names_eq, isField]
      exact List.mem_map_of_mem listed
    -- Places belong to names, and a name that comes now has not come before.
    have fresh : earlier.length ∉ (shape.draftAfter progress before).seen := by
      intro placeSeen
      obtain ⟨name, nameSeen, samePlace⟩ := List.mem_map.mp placeSeen
      obtain ⟨inBefore, inNames⟩ := List.mem_filter.mp (List.mem_reverse.mp nameSeen)
      rw [← place] at samePlace
      have same := (List.idxOf_inj (of_decide_eq_true inNames)).mp samePlace
      rw [fieldFits.name] at same
      exact keyed.fresh listed split isField (same ▸ inBefore)
    rw [readMember_of_listed fits.distinct all _ isNamed fresh, draftAfter,
      fieldFits.store _ _ readableMember writes, draftAfter, seenNames_append_of_mem isName,
      isField, ← place, fieldFits.name]
    rfl
  · have isOther := fits.notMem_names unknown
    rw [readMember_of_other (views.key member.1) isOther, views.ignore _ harmless, draftAfter,
      draftAfter, seenNames_append_of_notMem isOther]
    rfl

omit [Readable (Except Reason) Node] in
theorem mem_seenNames {members : List (String × Json)} (keyed : Keyed harmless forms members) :
    ∀ form ∈ forms, form.omissible ∨ form.name ∈ shape.seenNames members := by
  intro form listed
  refine (keyed.given form listed).imp_right fun present => ?_
  refine List.mem_reverse.mpr (List.mem_filter.mpr ⟨present, decide_eq_true ?_⟩)
  rw [fits.names_eq]
  exact List.mem_map_of_mem listed

omit [Readable (Except Reason) Node] in
theorem missing?_eq_none {members : List (String × Json)}
    (allSeen : ∀ form ∈ forms, form.omissible ∨ form.name ∈ shape.seenNames members) :
    missing? (shape.draftAfter progress members).seen shape.fields 0 = none := by
  rw [missing?_eq_none_iff]
  intro index field listed isRequired
  obtain ⟨form, inForms, fieldFits⟩ :=
    exists_form_of_aligned fits.fields (List.mem_of_getElem? listed)
  have isSeen : form.name ∈ shape.seenNames members := by
    refine (allSeen form inForms).resolve_left fun omissible => ?_
    rw [fieldFits.optional omissible] at isRequired
    cases isRequired
  have place := idxOf_names fits.distinct listed
  rw [fieldFits.name] at place
  rw [Nat.zero_add]
  exact List.mem_map.mpr ⟨form.name, isSeen, place⟩

theorem readMembers (views : Json.Views view keyOf harmless)
    {members : List (String × Json)} (keyed : Keyed harmless forms members)
    (readableMembers : ∀ member ∈ members, readable member.2) :
    shape.readMembers (members.map fun member => (keyOf member.1, view member.2)) =
      .ok goal := by
  have run : members.foldlM (fun draft member =>
      shape.readMember draft (keyOf member.1, view member.2)) ⟨shape.blank, []⟩ =
      .ok (shape.draftAfter progress members) := by
    rw [← fits.blank]
    refine foldlM_of_ok (shape.draftAfter progress) fun before member after split => ?_
    exact fits.readMember views keyed split
      (readableMembers member (split ▸ List.mem_append_right before List.mem_cons_self))
  have allSeen := fits.mem_seenNames keyed
  rw [Shape.readMembers, List.foldlM_map, run, ok_bind, fits.missing?_eq_none allSeen]
  exact congrArg Except.ok (fits.complete _ allSeen)

/-- However a record is written, it is read as the same one. -/
theorem read (views : Json.Views view keyOf harmless) {json : Json}
    (laidOut : LaidOut harmless forms json) (readableParts : ∀ part ∈ json.parts, readable part) :
    shape.read (view json) = .ok goal := by
  cases laidOut with
  | keyed keyed =>
      rw [Shape.read, views.record, ok_bind]
      refine fits.readMembers views keyed fun member present => readableParts member.2 ?_
      rw [Json.record, Json.parts, List.map_map]
      exact List.mem_map_of_mem present
  | listed listed =>
      rw [Shape.read, views.list, ok_bind]
      exact fits.readItems listed readableParts

end Fits

/-- A record with one field is complete as soon as the field is there. -/
theorem fits_single {shape : Shape (Except Reason) Node Record}
    {field : Field (Except Reason) Node Record} {form : FieldForm} {goal : Record}
    (only : shape.fields = [field]) (name : field.name = form.name)
    (optional : form.omissible → field.required = false ∧ shape.blank = goal)
    (store : ∀ record json, readable json → form.writes json →
      field.store record (view json) = .ok goal) :
    shape.Fits view readable [form] (whenSeen · form.name goal shape.blank) goal where
  fields := by
    rw [only]
    refine .cons ⟨name, fun omissible => (optional omissible).1, ?_⟩ .nil
    intro seen json isReadable writes
    rw [store _ json isReadable writes, whenSeen_cons_self]
  distinct := by
    rw [names, only]
    exact List.nodup_singleton field.name
  blank := rfl
  complete seen complete := by
    refine whenSeen_of_complete ((complete form List.mem_cons_self).imp_left ?_)
    intro omissible
    exact (optional omissible).2.symm

end Shape

end RsaAudit
