import RsaAudit.Proofs.Document.InstructionReading

/-!
# Where the fields of a record come from

Whatever is read as a record has been written by the node it is read from: every field
comes from the one member with its name, or from the item at its place, and a field
without either has its default.  No member for a field comes twice.

A field is described by the form of its content.  While a record is read, the forms follow
it: `Shape.Tells` says that storing a node changes one form, to one that the node writes.
-/

namespace RsaAudit

theorem Listed.omissible {forms : List FieldForm} (listed : Listed forms []) :
    ∀ form ∈ forms, form.omissible := by
  cases listed with
  | done omissible => exact omissible

namespace Shape

variable {Node Record : Type} {shape : Shape (Except Reason) Node Record}

/-- The forms of the fields follow the record.  A field in which a node is stored gets a
form that the node writes, and the forms of the other fields stay. -/
structure Tells (shape : Shape (Except Reason) Node Record) (view : Json → Node)
    (readable : Json → Prop) (forms : Record → List FieldForm) : Prop where
  names : ∀ record, (forms record).map FieldForm.name = shape.names
  distinct : shape.names.Nodup
  blank : ∀ field ∈ shape.fields, field.required = false →
    ∀ form ∈ forms shape.blank, form.name = field.name → form.omissible
  store : ∀ (index : Nat) (field : Field (Except Reason) Node Record),
    shape.fields[index]? = some field → ∀ record json after, readable json →
      field.store record (view json) = .ok after →
        ∃ form, form.writes json ∧ forms after = (forms record).set index form

theorem readMember_cases [Readable (Except Reason) Node] {key node : Node} {name : String}
    (named : Readable.key key = .ok (.name name)) {draft next : RecordDraft Record}
    (read : shape.readMember draft (key, node) = .ok next) :
    (name ∉ shape.names ∧ next = draft) ∨
      ∃ index field record, shape.fields[index]? = some field ∧ field.name = name ∧
        index ∉ draft.seen ∧ field.store draft.record node = .ok record ∧
        next = ⟨record, index :: draft.seen⟩ := by
  unfold readMember at read
  rw [named, ok_bind] at read
  split at read
  case h_1 absent =>
    obtain ⟨-, -, read⟩ := bind_eq_ok_iff.mp read
    cases read
    refine .inl ⟨fun listed => ?_, rfl⟩
    have different := List.findIdx?_eq_none_iff.mp absent name listed
    simp at different
  case h_2 index found =>
    obtain ⟨inNames, isName, -⟩ := List.findIdx?_eq_some_iff_getElem.mp found
    have inFields : index < shape.fields.length := by simpa [names] using inNames
    have listed : shape.fields[index]? = some shape.fields[index] :=
      List.getElem?_eq_getElem inFields
    rw [listed] at read
    dsimp only at read
    split at read
    · cases read
    · rename_i unseen
      obtain ⟨record, stored, read⟩ := bind_eq_ok_iff.mp read
      cases read
      refine .inr ⟨index, _, record, listed, ?_, by simpa using unseen, stored, rfl⟩
      simpa [names] using isName

namespace Tells

variable {view : Json → Node} {readable : Json → Prop} {forms : Record → List FieldForm}

/-- What is known of a record after some members. -/
structure Reached (shape : Shape (Except Reason) Node Record)
    (forms : Record → List FieldForm) (before : List (String × Json))
    (draft : RecordDraft Record) : Prop where
  seen : ∀ (index : Nat) (field : Field (Except Reason) Node Record),
    shape.fields[index]? = some field → (index ∈ draft.seen ↔ field.name ∈ before.map Prod.fst)
  once : ∀ name ∈ shape.names, (before.map Prod.fst).count name ≤ 1
  writes : ∀ form ∈ forms draft.record, ∀ json, (form.name, json) ∈ before → form.writes json
  unseen : ∀ form ∈ forms draft.record, form.name ∉ before.map Prod.fst →
    form ∈ forms shape.blank

theorem reached_start (shape : Shape (Except Reason) Node Record)
    (forms : Record → List FieldForm) : Reached shape forms [] ⟨shape.blank, []⟩ where
  seen := by simp
  once := by simp
  writes := by simp
  unseen form listed _ := listed

variable (tells : shape.Tells view readable forms)

include tells

theorem mem_names {record : Record} {form : FieldForm} (listed : form ∈ forms record) :
    form.name ∈ shape.names := by
  rw [← tells.names record]
  exact List.mem_map_of_mem listed

theorem eq_of_name_eq {record : Record} {form other : FieldForm} (listed : form ∈ forms record)
    (otherListed : other ∈ forms record) (same : form.name = other.name) : form = other := by
  have distinct := tells.distinct
  rw [← tells.names record] at distinct
  exact List.inj_on_of_nodup_map distinct listed otherListed same

theorem length_forms (record : Record) : (forms record).length = shape.fields.length := by
  have same := congrArg List.length (tells.names record)
  rwa [List.length_map, Shape.names, List.length_map] at same

theorem name_of_getElem? {record : Record} {index : Nat}
    {field : Field (Except Reason) Node Record} {form : FieldForm}
    (listed : shape.fields[index]? = some field) (isForm : (forms record)[index]? = some form) :
    form.name = field.name := by
  have name : ((forms record).map FieldForm.name)[index]? = some form.name := by
    rw [List.getElem?_map, isForm]
    rfl
  rw [tells.names record, Shape.names, List.getElem?_map, listed] at name
  exact (Option.some.inj name).symm

/-- After a node has been stored, it writes the form of its field. -/
theorem exists_stored {index : Nat} {field : Field (Except Reason) Node Record}
    (listed : shape.fields[index]? = some field) {record after : Record} {json : Json}
    (isReadable : readable json) (stored : field.store record (view json) = .ok after) :
    ∃ form ∈ forms after, form.name = field.name ∧ form.writes json ∧
      ∀ other ∈ forms after, other.name ≠ field.name → other ∈ forms record := by
  obtain ⟨form, writes, changed⟩ := tells.store index field listed _ _ _ isReadable stored
  have inForms : index < (forms record).length := by
    rw [tells.length_forms]
    exact (List.getElem?_eq_some_iff.mp listed).1
  have member : form ∈ forms after := changed ▸ List.mem_set inForms form
  have isForm : (forms after)[index]? = some form := by
    rw [changed, List.getElem?_set_self inForms]
  have named := tells.name_of_getElem? listed isForm
  refine ⟨form, member, named, writes, fun other otherListed apart => ?_⟩
  rw [changed] at otherListed
  refine (List.mem_or_eq_of_mem_set otherListed).resolve_right ?_
  rintro rfl
  exact apart named

omit tells in
theorem mem_names_concat {before : List (String × Json)} {name other : String} {json : Json} :
    other ∈ (before ++ [(name, json)]).map Prod.fst ↔
      other ∈ before.map Prod.fst ∨ other = name := by
  simp

section

variable {before : List (String × Json)} {draft : RecordDraft Record}
  (reached : Reached shape forms before draft)

include reached

theorem reached_other {name : String} {json : Json} (unlisted : name ∉ shape.names) :
    Reached shape forms (before ++ [(name, json)]) draft := by
  have other {field : String} (isField : field ∈ shape.names) : field ≠ name :=
    fun same => unlisted (same ▸ isField)
  refine ⟨?_, ?_, ?_, ?_⟩
  · intro index field listed
    have isField : field.name ∈ shape.names := List.mem_map_of_mem (List.mem_of_getElem? listed)
    rw [reached.seen index field listed, mem_names_concat]
    simp [other isField]
  · intro field isField
    simpa [List.count_append, (other isField).symm] using reached.once field isField
  · intro form isForm part present
    have apart := other (tells.mem_names isForm)
    exact reached.writes form isForm part (by simpa [apart] using present)
  · intro form isForm absent
    rw [mem_names_concat] at absent
    exact reached.unseen form isForm fun earlier => absent (.inl earlier)

theorem reached_field {index : Nat} {field : Field (Except Reason) Node Record}
    (listed : shape.fields[index]? = some field) (unseen : index ∉ draft.seen) {json : Json}
    (isReadable : readable json) {record : Record}
    (stored : field.store draft.record (view json) = .ok record) :
    Reached shape forms (before ++ [(field.name, json)]) ⟨record, index :: draft.seen⟩ := by
  have fresh : field.name ∉ before.map Prod.fst :=
    fun earlier => unseen ((reached.seen index field listed).mpr earlier)
  obtain ⟨form, isForm, isNamed, writes, others⟩ := tells.exists_stored listed isReadable stored
  refine ⟨?_, ?_, ?_, ?_⟩
  · intro place other otherListed
    have same : place = index ↔ other.name = field.name := by
      rw [← idxOf_names tells.distinct listed, ← idxOf_names tells.distinct otherListed]
      exact List.idxOf_inj (List.mem_map_of_mem (List.mem_of_getElem? otherListed))
    rw [List.mem_cons, reached.seen place other otherListed, same, mem_names_concat]
    exact or_comm
  · intro other isField
    have count := reached.once other isField
    rw [List.map_append, List.count_append]
    by_cases same : other = field.name
    · subst same
      simp [List.count_eq_zero_of_not_mem fresh]
    · simpa [Ne.symm same] using count
  · intro other otherListed part present
    by_cases same : other.name = field.name
    · obtain rfl := tells.eq_of_name_eq otherListed isForm (same.trans isNamed.symm)
      have isPart : part = json := by
        rcases List.mem_append.mp present with earlier | now
        · exact absurd (List.mem_map.mpr ⟨_, earlier, same⟩) fresh
        · simpa using (congrArg Prod.snd (List.mem_singleton.mp now))
      exact isPart ▸ writes
    · exact reached.writes other (others other otherListed same) part
        (by simpa [same] using present)
  · intro other otherListed absent
    rw [mem_names_concat] at absent
    have apart : other.name ≠ field.name := fun same => absent (.inr same)
    exact reached.unseen other (others other otherListed apart) fun earlier =>
      absent (.inl earlier)

theorem reached_step [Readable (Except Reason) Node] {keyOf : String → Node}
    (named : ∀ name, Readable.key (keyOf name) = .ok (.name name)) {member : String × Json}
    (isReadable : readable member.2) {next : RecordDraft Record}
    (read : shape.readMember draft (keyOf member.1, view member.2) = .ok next) :
    Reached shape forms (before ++ [member]) next := by
  obtain ⟨name, json⟩ := member
  rcases readMember_cases (named name) read with
    ⟨unlisted, rfl⟩ | ⟨index, field, record, listed, rfl, unseen, stored, rfl⟩
  · exact tells.reached_other reached unlisted
  · exact tells.reached_field reached listed unseen isReadable stored

end

theorem keyed [Readable (Except Reason) Node] {keyOf : String → Node}
    (named : ∀ name, Readable.key (keyOf name) = .ok (.name name))
    {members : List (String × Json)} {record : Record}
    (areReadable : ∀ member ∈ members, readable member.2)
    (read : shape.readMembers (members.map fun member => (keyOf member.1, view member.2)) =
      .ok record) :
    Keyed (fun _ => True) (forms record) members := by
  rw [readMembers, List.foldlM_map] at read
  obtain ⟨draft, run, read⟩ := bind_eq_ok_iff.mp read
  have reached : Reached shape forms members draft :=
    foldlM_invariant_before (Reached shape forms) (reached_start shape forms) run
      fun before member present _ _ reached step =>
        tells.reached_step reached named (areReadable member present) step
  split at read
  case h_1 => cases read
  case h_2 complete =>
    cases read
    refine ⟨?_, ?_, reached.writes, fun _ _ _ => trivial⟩
    · intro form listed
      exact reached.once form.name (tells.mem_names listed)
    · intro form listed
      by_cases present : form.name ∈ members.map Prod.fst
      · exact .inr present
      · obtain ⟨field, inFields, same⟩ := List.mem_map.mp (tells.mem_names listed)
        obtain ⟨index, isField⟩ := List.mem_iff_getElem?.mp inFields
        refine .inl (tells.blank field inFields ?_ form (reached.unseen form listed present)
          same.symm)
        -- A required field has been seen, so its name is among the members.
        rw [Bool.eq_false_iff]
        intro required
        have placed := missing?_eq_none_iff.mp complete index field isField required
        rw [Nat.zero_add, reached.seen index field isField, same] at placed
        exact present placed

-- The fields before those that are left have their final forms, and the ones that are
-- left still have the forms of the blank record.
theorem listed_drop [Readable (Except Reason) Node]
    {before left : List (Field (Except Reason) Node Record)}
    (all : shape.fields = before ++ left) {start record : Record} {items : List Json}
    (areReadable : ∀ item ∈ items, readable item)
    (blank : ∀ index, before.length ≤ index → (forms start)[index]? = (forms shape.blank)[index]?)
    (read : readItems start left (items.map view) = .ok record) :
    (∀ index < before.length, (forms record)[index]? = (forms start)[index]?) ∧
      Listed ((forms record).drop before.length) items := by
  induction left generalizing before start items with
  | nil =>
      cases items with
      | nil =>
          cases read
          refine ⟨fun _ _ => rfl, ?_⟩
          rw [List.append_nil] at all
          rw [List.drop_of_length_le (by rw [tells.length_forms, all])]
          exact .done (List.forall_mem_nil _)
      | cons json rest => cases read
  | cons field rest ih =>
      have later : shape.fields = (before ++ [field]) ++ rest := by
        rw [all, List.append_cons]
      have longer : (before ++ [field]).length = before.length + 1 := List.length_append
      have listed : shape.fields[before.length]? = some field := by
        rw [all, List.getElem?_append_right (Nat.le_refl _), Nat.sub_self]
        rfl
      have inside := (List.getElem?_eq_some_iff.mp listed).1
      obtain ⟨form, isForm⟩ : ∃ form, (forms record)[before.length]? = some form :=
        ⟨_, List.getElem?_eq_getElem (tells.length_forms record ▸ inside)⟩
      have opened : (forms record).drop before.length =
          form :: (forms record).drop (before.length + 1) := by
        obtain ⟨inside, rfl⟩ := List.getElem?_eq_some_iff.mp isForm
        exact List.drop_eq_getElem_cons inside
      rw [opened]
      cases items with
      | nil =>
          rw [List.map_nil, readItems] at read
          split at read
          case isTrue => cases read
          case isFalse optional =>
            obtain ⟨same, omitted⟩ := ih later (List.forall_mem_nil _)
              (fun index past => blank index (by omega)) read
            rw [longer] at same omitted
            have isBlank : (forms shape.blank)[before.length]? = some form := by
              rw [← blank _ (Nat.le_refl _), ← same _ (Nat.lt_succ_self _), isForm]
            have mayMiss : form.omissible :=
              tells.blank field (List.mem_of_getElem? listed) (Bool.eq_false_iff.mpr optional)
                form (List.mem_of_getElem? isBlank) (tells.name_of_getElem? listed isBlank)
            refine ⟨fun index early => same index (by omega), .done ?_⟩
            exact List.forall_mem_cons.mpr ⟨mayMiss, omitted.omissible⟩
      | cons json items =>
          obtain ⟨readableFirst, readableLater⟩ := List.forall_mem_cons.mp areReadable
          rw [List.map_cons, readItems] at read
          obtain ⟨next, stored, read⟩ := bind_eq_ok_iff.mp read
          obtain ⟨stored, writes, changed⟩ :=
            tells.store before.length field listed _ _ _ readableFirst stored
          have elsewhere (index : Nat) (apart : before.length ≠ index) :
              (forms next)[index]? = (forms start)[index]? := by
            rw [changed, List.getElem?_set_ne apart]
          obtain ⟨same, listedLater⟩ := ih later readableLater
            (fun index past => (elsewhere index (by omega)).trans (blank index (by omega))) read
          rw [longer] at same listedLater
          have isStored : form = stored := by
            have now := same before.length (Nat.lt_succ_self _)
            rw [isForm, changed, List.getElem?_set_self (tells.length_forms start ▸ inside)] at now
            exact Option.some.inj now
          refine ⟨fun index early => ?_, .next (isStored ▸ writes) listedLater⟩
          rw [same index (by omega), elsewhere index (by omega)]

theorem listed [Readable (Except Reason) Node] {items : List Json} {record : Record}
    (areReadable : ∀ item ∈ items, readable item)
    (read : readItems shape.blank shape.fields (items.map view) = .ok record) :
    Listed (forms record) items :=
  (tells.listed_drop (List.nil_append shape.fields).symm areReadable (fun _ _ => rfl) read).2

end Tells

/-- The form of the only field of a record: any node that gives the record when it is
stored in the field. -/
def wholeForm (view : Json → Node) (readable : Json → Prop)
    (field : Field (Except Reason) Node Record) (blank record : Record) : FieldForm where
  name := field.name
  omissible := field.required = false ∧ record = blank
  writes json := readable json ∧ ∃ before, field.store before (view json) = .ok record

theorem tells_single {view : Json → Node} {readable : Json → Prop}
    {field : Field (Except Reason) Node Record} (only : shape.fields = [field]) :
    shape.Tells view readable fun record =>
      [wholeForm view readable field shape.blank record] where
  names record := by simp [names, only, wholeForm]
  distinct := by simp [names, only]
  blank := by simp [only, wholeForm]
  store index other listed record json after isReadable stored := by
    obtain ⟨rfl, rfl⟩ : index = 0 ∧ other = field := by
      have inFields := List.mem_of_getElem? listed
      have place := (List.getElem?_eq_some_iff.mp listed).1
      rw [only] at inFields place
      exact ⟨Nat.lt_one_iff.mp place, List.mem_singleton.mp inFields⟩
    exact ⟨wholeForm view readable other shape.blank after, ⟨isReadable, record, stored⟩, rfl⟩

end Shape

/-! ## Records that are read as they come -/

theorem Json.exists_record {members : List (Option String × Json)}
    (named : ∀ member ∈ members, member.1.isSome = true) :
    ∃ written, Json.object members = .record written := by
  induction members with
  | nil => exact ⟨[], rfl⟩
  | cons member rest ih =>
      obtain ⟨key, value⟩ := member
      obtain ⟨first, later⟩ := List.forall_mem_cons.mp named
      obtain ⟨name, rfl⟩ := Option.isSome_iff_exists.mp first
      obtain ⟨written, same⟩ := ih later
      refine ⟨(name, value) :: written, ?_⟩
      rw [Json.object.inj same]
      rfl

/-- All keys of an object have been read if no key without content could be. -/
theorem Json.exists_record_of_foldlM {State : Type}
    {step : State → Json × Json → Except Reason State} {start finish : State}
    {members : List (Option String × Json)}
    (run : (members.map fun member => (Json.text member.1, member.2)).foldlM step start =
      .ok finish)
    (refuses : ∀ before value after, step before (.text none, value) ≠ .ok after) :
    ∃ written, Json.object members = .record written := by
  refine exists_record ?_
  rintro ⟨key, value⟩ present
  obtain ⟨before, after, stepped⟩ := exists_of_foldlM_eq_ok run (List.mem_map_of_mem present)
  cases key with
  | none => exact absurd stepped (refuses before value after)
  | some name => rfl

namespace Shape.Tells

variable {Record : Type} {forms : Record → List FieldForm} {record : Record}

theorem laidOut {shape : Shape (Except Reason) Json Record}
    (tells : shape.Tells id (fun _ => True) forms) {json : Json}
    (read : shape.read json = .ok record) : LaidOut (fun _ => True) (forms record) json := by
  obtain ⟨layout, laid, read⟩ := bind_eq_ok_iff.mp read
  change json.layout = .ok layout at laid
  cases json with
  | object members =>
      obtain ⟨written, same⟩ : ∃ written, Json.object members = .record written := by
        cases laid
        obtain ⟨draft, run, -⟩ := bind_eq_ok_iff.mp read
        exact Json.exists_record_of_foldlM run nofun
      rw [same, Json.layout_record] at laid
      cases laid
      rw [same]
      exact .keyed (tells.keyed Json.views_id.key (fun _ _ => trivial) read)
  | list items =>
      cases laid
      refine .listed (tells.listed (fun _ _ => trivial) ?_)
      rw [List.map_id]
      exact read
  | _ => cases laid

end Shape.Tells

/-! ## Records among kept values -/

namespace Json

theorem Keepable.exists_record {members : List (Option String × Json)}
    (keepable : (Json.object members).Keepable) :
    ∃ written : List (String × Json), Json.object members = .record written ∧
      ∀ member ∈ written, member.2.Keepable := by
  have named : ∀ member ∈ members, member.1.isSome = true := by
    replace keepable : SpellableMembers Numeral.InRange members := keepable
    induction members with
    | nil => exact List.forall_mem_nil _
    | cons member rest ih => exact List.forall_mem_cons.mpr ⟨keepable.1, ih keepable.2.2⟩
  obtain ⟨written, same⟩ := Json.exists_record named
  exact ⟨written, same, spellable_record.mp (same ▸ keepable)⟩

theorem Keepable.forall_mem {items : List Json} (keepable : (Json.list items).Keepable) :
    ∀ item ∈ items, item.Keepable := by
  rw [← List.map_id items] at keepable
  exact spellable_list_map.mp keepable

/-- A value that is kept as a record is an object or a list. -/
theorem Keepable.layout_kept {json : Json} (keepable : json.Keepable) {layout : Layout Value}
    (laid : json.kept.layout = .ok layout) :
    (∃ members : List (String × Json), json = .record members ∧
        (∀ member ∈ members, member.2.Keepable) ∧
        layout = .keyed (members.map fun member => (.text member.1, member.2.kept))) ∨
      ∃ items, json = .list items ∧ (∀ item ∈ items, item.Keepable) ∧
        layout = .positional (items.map kept) := by
  cases json with
  | object members =>
      obtain ⟨written, same, ofMembers⟩ := keepable.exists_record
      rw [same, kept_record] at laid
      cases laid
      exact .inl ⟨written, same, ofMembers, rfl⟩
  | list items =>
      rw [kept, keptItems_eq_map] at laid
      cases laid
      exact .inr ⟨items, rfl, keepable.forall_mem, rfl⟩
  | number numeral =>
      obtain ⟨number, found⟩ := Option.isSome_iff_exists.mp keepable
      rw [kept, Numeral.kept, found] at laid
      cases number <;> cases laid
  | broken => exact keepable.elim
  | _ => cases laid

end Json

/-- The items of a list have been read one by one. -/
theorem forall₂_of_mapM {Node Item Fault : Type} {run : Node → Except Fault Item}
    {writes : Item → Node → Prop} {nodes : List Node} {items : List Item}
    (read : nodes.mapM run = .ok items)
    (each : ∀ item, ∀ node ∈ nodes, run node = .ok item → writes item node) :
    List.Forall₂ writes items nodes := by
  induction nodes generalizing items with
  | nil =>
      cases read
      exact .nil
  | cons node rest ih =>
      rw [List.mapM_cons] at read
      obtain ⟨first, ofNode, read⟩ := bind_eq_ok_iff.mp read
      obtain ⟨later, ofRest, read⟩ := bind_eq_ok_iff.mp read
      cases read
      refine .cons (each first node List.mem_cons_self ofNode) (ih ofRest ?_)
      exact fun item node member => each item node (List.mem_cons_of_mem _ member)

theorem exists_of_forall₂ {Node Item : Type} {writes : Item → Node → Prop} {items : List Item}
    {nodes : List Node} (written : List.Forall₂ writes items nodes) {node : Node}
    (listed : node ∈ nodes) : ∃ item ∈ items, writes item node := by
  induction written with
  | nil => cases listed
  | cons first _ ih =>
      rcases List.mem_cons.mp listed with rfl | later
      · exact ⟨_, List.mem_cons_self, first⟩
      · obtain ⟨item, inItems, writes⟩ := ih later
        exact ⟨item, List.mem_cons_of_mem _ inItems, writes⟩

theorem Json.keepable_of_mapM {levels : Nat} {items : List Json} {values : List Value}
    (read : items.mapM (keepWithin levels) = .ok values) :
    (∀ item ∈ items, item.Keepable) ∧ values = items.map kept := by
  have each : List.Forall₂ (fun value item => item.Keepable ∧ value = kept item) values items :=
    forall₂_of_mapM read fun _ _ _ kept =>
      ⟨spellable_of_keepWithin kept, eq_kept_of_keepWithin kept⟩
  clear read
  induction each with
  | nil => exact ⟨List.forall_mem_nil _, rfl⟩
  | cons first _ ih =>
      refine ⟨List.forall_mem_cons.mpr ⟨first.1, ih.1⟩, ?_⟩
      rw [first.2, ih.2, List.map_cons]

theorem Shape.Tells.laidOut_kept {Record : Type} {forms : Record → List FieldForm}
    {shape : Shape (Except Reason) Value Record}
    (tells : shape.Tells Json.kept Json.Keepable forms) {json : Json} (keepable : json.Keepable)
    {record : Record} (read : shape.read json.kept = .ok record) :
    LaidOut (fun _ => True) (forms record) json := by
  obtain ⟨layout, laid, read⟩ := bind_eq_ok_iff.mp read
  rcases keepable.layout_kept laid with ⟨members, rfl, ofMembers, rfl⟩ | ⟨items, rfl, ofItems, rfl⟩
  · exact .keyed (tells.keyed Json.views_kept.key ofMembers read)
  · exact .listed (tells.listed ofItems read)

/-! ## Tags -/

/-- What has been read from the members with a given name.  At most one has come, and it
gives the content. -/
structure Slot {Content : Type} (name : String) (reads : Json → Content → Prop)
    (before : List (String × Json)) (content? : Option Content) : Prop where
  once : (before.map Prod.fst).count name ≤ 1
  present : ∀ content ∈ content?, name ∈ before.map Prod.fst
  reads : ∀ json, (name, json) ∈ before → ∃ content ∈ content?, reads json content

namespace Slot

variable {Content : Type} {name : String} {reads : Json → Content → Prop}
  {before : List (String × Json)} {content? : Option Content} {member : String × Json}

theorem start : Slot name reads [] none where
  once := Nat.zero_le 1
  present := nofun
  reads := nofun

theorem notMem (slot : Slot name reads before none) : name ∉ before.map Prod.fst := by
  intro earlier
  obtain ⟨⟨_, json⟩, listed, rfl⟩ := List.mem_map.mp earlier
  obtain ⟨content, none, -⟩ := slot.reads json listed
  cases none

theorem skip (slot : Slot name reads before content?) (other : member.1 ≠ name) :
    Slot name reads (before ++ [member]) content? where
  once := by simpa [List.count_append, other] using slot.once
  present content found := by
    rw [List.map_append]
    exact List.mem_append_left _ (slot.present content found)
  reads json listed := by
    rcases List.mem_append.mp listed with earlier | now
    · exact slot.reads json earlier
    · exact absurd (congrArg Prod.fst (List.mem_singleton.mp now)).symm other

theorem fill (slot : Slot name reads before none) (named : member.1 = name) {content : Content}
    (read : reads member.2 content) : Slot name reads (before ++ [member]) (some content) where
  once := by
    rw [List.map_append, List.count_append, List.count_eq_zero_of_not_mem slot.notMem]
    simp [named]
  present _ _ := by simp [named]
  reads json listed := by
    rcases List.mem_append.mp listed with earlier | now
    · exact absurd (List.mem_map_of_mem earlier) slot.notMem
    · have same : json = member.2 := congrArg Prod.snd (List.mem_singleton.mp now)
      exact ⟨content, rfl, same ▸ read⟩

theorem keyed_cons {harmless : Json → Prop} {forms : List FieldForm} {content : Content}
    (slot : Slot name reads before (some content))
    (keyed : Keyed harmless forms (before.filter (·.1 ≠ name)))
    (apart : ∀ form ∈ forms, form.name ≠ name) :
    Keyed harmless (.required name (reads · content) :: forms) before where
  once := by
    refine List.forall_mem_cons.mpr ⟨slot.once, fun form listed => ?_⟩
    have filtered : (before.filter (·.1 ≠ name)).map Prod.fst =
        (before.map Prod.fst).filter (· ≠ name) := by
      rw [List.filter_map]
      rfl
    have same : ((before.map Prod.fst).filter (· ≠ name)).count form.name =
        (before.map Prod.fst).count form.name :=
      List.count_filter (decide_eq_true (apart form listed))
    have once := keyed.once form listed
    rwa [filtered, same] at once
  given := by
    refine List.forall_mem_cons.mpr ⟨.inr (slot.present content rfl), fun form listed => ?_⟩
    refine (keyed.given form listed).imp_right fun present => ?_
    exact (List.filter_sublist.map Prod.fst).subset present
  writes := by
    refine List.forall_mem_cons.mpr ⟨fun json listed => ?_, fun form listed json present => ?_⟩
    · obtain ⟨found, ⟨⟩, read⟩ := slot.reads json listed
      exact read
    · refine keyed.writes form listed json (List.mem_filter.mpr ⟨present, ?_⟩)
      simpa using apart form listed
  others member present unknown := by
    obtain ⟨notFirst, unknown⟩ := List.forall_mem_cons.mp unknown
    exact keyed.others member (List.mem_filter.mpr ⟨present, decide_eq_true notFirst⟩) unknown

end Slot

namespace Variants

variable {Variant : Type} {variants : Variants Variant} {variant other : Variant} {json : Json}

/-- The nodes that name a variant, by its name or by its place. -/
inductive NamedBy (variants : Variants Variant) (variant : Variant) : Json → Prop
  | name {name : String} (listed : variants.lookup name = some variant) :
      NamedBy variants variant (.ofText name)
  | place {numeral : Json.Numeral} {index : UInt64} {name : String}
      (number : numeral.number? = some (.unsigned index))
      (listed : variants[index.toNat]? = some (name, variant)) :
      NamedBy variants variant (.number numeral)

def tagForm (variants : Variants Variant) (variant : Variant) : FieldForm :=
  .required Tagged.tag (variants.NamedBy variant)

theorem NamedBy.unique (first : variants.NamedBy variant json)
    (second : variants.NamedBy other json) : variant = other := by
  cases first with
  | name listed =>
      cases second with
      | name otherListed => exact Option.some.inj (listed.symm.trans otherListed)
  | place number listed =>
      cases second with
      | place otherNumber otherListed =>
          cases number.symm.trans otherNumber
          cases listed.symm.trans otherListed
          rfl

theorem lookup_of_ofName {name : String} (read : variants.ofName name = .ok variant) :
    variants.lookup name = some variant := by
  unfold ofName at read
  split at read
  case h_1 listed =>
    cases read
    exact listed
  case h_2 => cases read

theorem namedBy_of_ofValue (keepable : json.Keepable)
    (read : variants.ofValue json.kept = .ok variant) : variants.NamedBy variant json := by
  cases json with
  | text content =>
      obtain ⟨name, rfl⟩ := Option.isSome_iff_exists.mp keepable
      exact .name (lookup_of_ofName read)
  | number numeral =>
      obtain ⟨number, found⟩ := Option.isSome_iff_exists.mp keepable
      rw [Json.kept, Json.Numeral.kept, found] at read
      cases number with
      | unsigned index =>
          change ofValue variants (.unsigned index) = _ at read
          rw [ofValue] at read
          split at read
          case h_1 listed =>
            cases read
            exact .place found listed
          case h_2 => cases read
      | signed number | floating => cases read
  | broken => exact keepable.elim
  | _ => cases read

end Variants

namespace Tagged

variable {Variant : Type} {variants : Variants Variant} {variant : Variant} {json : Json}

theorem namedBy_of_readVariant (read : readVariant variants json = .ok variant) :
    variants.NamedBy variant json := by
  obtain ⟨name, isName, read⟩ := bind_eq_ok_iff.mp read
  cases json with
  | text content =>
      cases content with
      | none => cases isName
      | some text =>
          obtain rfl := Except.ok.inj isName
          cases found : variants.ofName text with
          | error reason =>
              rw [found] at read
              cases read
          | ok variant =>
              rw [found] at read
              cases read
              exact .name (Variants.lookup_of_ofName found)
  | _ => cases isName

theorem readMember_cases {draft next : Draft Variant} {key : Option String}
    (read : readMember variants draft (Json.text key, json) = .ok next) :
    (key = some tag ∧ draft.variant = none ∧
        ∃ variant, variants.NamedBy variant json ∧ next = ⟨some variant, draft.kept⟩) ∨
      ∃ name, key = some name ∧ name ≠ tag ∧ json.Keepable ∧
        next = ⟨draft.variant, (.text name, json.kept) :: draft.kept⟩ := by
  obtain ⟨keptKey, isKey, read⟩ := bind_eq_ok_iff.mp read
  cases key with
  | none => cases isKey
  | some name =>
      cases isKey
      split at read
      case isTrue isTag =>
        rw [isTag_text] at isTag
        split at read
        case isTrue => cases read
        case isFalse unseen =>
          obtain ⟨variant, named, read⟩ := bind_eq_ok_iff.mp read
          cases read
          refine .inl ⟨congrArg some isTag, ?_, variant, namedBy_of_readVariant named, rfl⟩
          simpa using unseen
      case isFalse noTag =>
        obtain ⟨value, kept, read⟩ := bind_eq_ok_iff.mp read
        cases read
        rw [Json.eq_kept_of_keepWithin kept]
        exact .inr ⟨name, rfl, fun isTag => noTag (isTag_text.mpr isTag),
          Json.spellable_of_keepWithin kept, rfl⟩

/-- What is known of a tagged record after some members. -/
structure Reached (variants : Variants Variant) (before : List (String × Json))
    (draft : Draft Variant) : Prop where
  slot : Slot tag (fun json variant => variants.NamedBy variant json) before draft.variant
  kept : draft.kept = keptAfter before
  keepable : ∀ member ∈ before, member.1 ≠ tag → member.2.Keepable

theorem reached_step {before : List (String × Json)} {draft next : Draft Variant}
    (reached : Reached variants before draft) {member : String × Json}
    (read : readMember variants draft (Json.text (some member.1), member.2) = .ok next) :
    Reached variants (before ++ [member]) next := by
  rcases readMember_cases read with
    ⟨isTag, unseen, variant, named, rfl⟩ | ⟨name, isName, noTag, keepable, rfl⟩
  · replace isTag : member.1 = tag := Option.some.inj isTag
    refine ⟨?_, ?_, ?_⟩
    · exact (unseen ▸ reached.slot).fill isTag named
    · rw [reached.kept]
      simp [keptAfter, isTag]
    · refine List.forall_mem_append.mpr ⟨reached.keepable, List.forall_mem_singleton.mpr ?_⟩
      exact fun noTag => absurd isTag noTag
  · obtain rfl : member.1 = name := Option.some.inj isName
    refine ⟨reached.slot.skip noTag, ?_, ?_⟩
    · rw [reached.kept]
      simp [keptAfter, noTag]
    · exact List.forall_mem_append.mpr ⟨reached.keepable,
        List.forall_mem_singleton.mpr fun _ => keepable⟩

/-- A tagged record is an object or a list, whose parts are kept but for the tag. -/
theorem read_cases {layout : Layout Value} (read : read variants json = .ok (variant, layout)) :
    (∃ members, json = .record members ∧
        Slot tag (fun json variant => variants.NamedBy variant json) members (some variant) ∧
        (∀ member ∈ members, member.1 ≠ tag → member.2.Keepable) ∧
        layout = .keyed ((members.filter (·.1 ≠ tag)).map
          fun member => (.text member.1, member.2.kept))) ∨
      ∃ first rest, json = .list (first :: rest) ∧ variants.NamedBy variant first ∧
        (∀ item ∈ rest, item.Keepable) ∧ layout = .positional (rest.map Json.kept) := by
  obtain ⟨written, laid, read⟩ := bind_eq_ok_iff.mp read
  change json.layout = .ok written at laid
  cases json with
  | object members =>
      obtain ⟨members, same⟩ : ∃ written, Json.object members = .record written := by
        cases laid
        obtain ⟨draft, run, -⟩ := bind_eq_ok_iff.mp read
        exact Json.exists_record_of_foldlM run nofun
      rw [same, Json.layout_record] at laid
      cases laid
      obtain ⟨draft, run, read⟩ := bind_eq_ok_iff.mp read
      rw [List.foldlM_map] at run
      have reached : Reached variants members draft :=
        foldlM_invariant_before (Reached variants)
          ⟨.start, rfl, List.forall_mem_nil _⟩ run
          fun _ _ _ _ _ reached step => reached_step reached step
      split at read
      case h_1 found =>
        cases read
        refine .inl ⟨members, same, found ▸ reached.slot, reached.keepable, ?_⟩
        rw [reached.kept, keptAfter, List.reverse_reverse]
      case h_2 => cases read
  | list items =>
      cases laid
      cases items with
      | nil => cases read
      | cons first rest =>
          obtain ⟨found, named, read⟩ := bind_eq_ok_iff.mp read
          obtain ⟨values, kept, read⟩ := bind_eq_ok_iff.mp read
          cases read
          obtain ⟨keepable, rfl⟩ := Json.keepable_of_mapM kept
          exact .inr ⟨first, rest, rfl, namedBy_of_readVariant named, keepable, rfl⟩
  | _ => cases laid

end Tagged

theorem Shape.Tells.laidOut_tagged {Record Variant : Type} {forms : Record → List FieldForm}
    {shape : Shape (Except Reason) Value Record}
    (tells : shape.Tells Json.kept Json.Keepable forms) (apart : Tagged.tag ∉ shape.names)
    {variants : Variants Variant} {variant : Variant} {json : Json} {layout : Layout Value}
    (tagged : Tagged.read variants json = .ok (variant, layout)) {record : Record}
    (read : shape.readLayout layout = .ok record) :
    LaidOut (fun _ => True) (variants.tagForm variant :: forms record) json := by
  rcases Tagged.read_cases tagged with
    ⟨members, rfl, slot, keepable, rfl⟩ | ⟨first, rest, rfl, named, keepable, rfl⟩
  · refine .keyed (slot.keyed_cons (tells.keyed Json.views_kept.key ?_ read) ?_)
    · intro member present
      obtain ⟨listed, noTag⟩ := List.mem_filter.mp present
      exact keepable member listed (of_decide_eq_true noTag)
    · exact fun form listed isTag => apart (isTag ▸ tells.mem_names listed)
  · exact .listed (.next named (tells.listed keepable read))

/-! ## Other forms of the same fields -/

/-- Whatever is written in one form is also written in the other. -/
structure FieldForm.Implies (form other : FieldForm) : Prop where
  name : form.name = other.name
  omissible : form.omissible → other.omissible
  writes : ∀ json, form.writes json → other.writes json

theorem FieldForm.Implies.refl (form : FieldForm) : form.Implies form :=
  ⟨rfl, id, fun _ => id⟩

section

variable {forms others : List FieldForm}

theorem FieldForm.Implies.map_name (implies : List.Forall₂ FieldForm.Implies forms others) :
    forms.map FieldForm.name = others.map FieldForm.name := by
  induction implies with
  | nil => rfl
  | cons first _ ih => rw [List.map_cons, List.map_cons, first.name, ih]

theorem Keyed.mono {harmless : Json → Prop} {members : List (String × Json)}
    (keyed : Keyed harmless forms members)
    (implies : List.Forall₂ FieldForm.Implies forms others) : Keyed harmless others members where
  once other listed := by
    obtain ⟨form, inForms, implied⟩ := exists_of_forall₂ implies listed
    exact implied.name ▸ keyed.once form inForms
  given other listed := by
    obtain ⟨form, inForms, implied⟩ := exists_of_forall₂ implies listed
    exact (keyed.given form inForms).imp implied.omissible fun present => implied.name ▸ present
  writes other listed json present := by
    obtain ⟨form, inForms, implied⟩ := exists_of_forall₂ implies listed
    exact implied.writes json (keyed.writes form inForms json (implied.name ▸ present))
  others member present unknown := by
    refine keyed.others member present fun form listed same => ?_
    have named : member.1 ∈ others.map FieldForm.name := by
      rw [← FieldForm.Implies.map_name implies, same]
      exact List.mem_map_of_mem listed
    obtain ⟨other, inOthers, isName⟩ := List.mem_map.mp named
    exact unknown other inOthers isName.symm

theorem Listed.mono {items : List Json} (listed : Listed forms items)
    (implies : List.Forall₂ FieldForm.Implies forms others) : Listed others items := by
  induction listed generalizing others with
  | done omissible =>
      refine .done fun other inOthers => ?_
      obtain ⟨form, inForms, implied⟩ := exists_of_forall₂ implies inOthers
      exact implied.omissible (omissible form inForms)
  | next writes _ ih =>
      cases implies with
      | cons first later => exact .next (first.writes _ writes) (ih later)

theorem LaidOut.mono {harmless : Json → Prop} {json : Json}
    (laidOut : LaidOut harmless forms json)
    (implies : List.Forall₂ FieldForm.Implies forms others) : LaidOut harmless others json := by
  cases laidOut with
  | keyed keyed => exact .keyed (keyed.mono implies)
  | listed listed => exact .listed (listed.mono implies)

end

/-- A tagged record with one more field. -/
theorem LaidOut.mono_second {harmless : Json → Prop} {tag form other : FieldForm} {json : Json}
    (laidOut : LaidOut harmless [tag, form] json) (implies : form.Implies other) :
    LaidOut harmless [tag, other] json :=
  laidOut.mono (.cons (.refl tag) (.cons implies .nil))

end RsaAudit
