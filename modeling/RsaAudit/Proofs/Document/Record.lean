import RsaAudit.Document.Record
import RsaAudit.Proofs.FirstFault

/-!
# What reading a record does

A record that is written by keys in the order of its fields is read by storing its
fields in turn.  In the other direction, whatever is read comes from the blank
record by storing nodes of the document in fields, and no required field is left
out.
-/

namespace RsaAudit

namespace Shape

variable {Node Record : Type} {shape : Shape (Except Reason) Node Record}

theorem missing?_eq_none_iff {seen : List Nat}
    {fields : List (Field (Except Reason) Node Record)} {place : Nat} :
    missing? seen fields place = none ↔
      ∀ index field, fields[index]? = some field → field.required = true →
        place + index ∈ seen := by
  induction fields generalizing place with
  | nil => simp [missing?]
  | cons first rest ih =>
      rw [missing?]
      split
      case isTrue missing =>
        simp only [Bool.and_eq_true, Bool.not_eq_true', List.contains_eq_mem,
          decide_eq_false_iff_not] at missing
        refine ⟨nofun, fun complete => ?_⟩
        exact absurd (complete 0 first rfl missing.1) missing.2
      case isFalse present =>
        simp only [Bool.and_eq_true, Bool.not_eq_true', List.contains_eq_mem,
          decide_eq_false_iff_not, not_and, Decidable.not_not] at present
        rw [ih]
        constructor
        · intro later index field listed required
          cases index with
          | zero =>
              cases listed
              exact present required
          | succ index =>
              rw [Nat.add_succ, ← Nat.succ_add]
              exact later index field listed required
        · intro complete index field listed required
          rw [Nat.succ_add, ← Nat.add_succ]
          exact complete (index + 1) field listed required

/-! ## Records written in order -/

/-- The members of fields in order; a field without a node is left out. -/
def written (keyOf : String → Node) :
    List (Field (Except Reason) Node Record) → List (Option Node) → List (Node × Node)
  | field :: fields, some node :: nodes =>
      (keyOf field.name, node) :: written keyOf fields nodes
  | _ :: fields, none :: nodes => written keyOf fields nodes
  | _, _ => []

/-- The record after nodes have been stored in fields in order. -/
def storeAll (record : Record) :
    List (Field (Except Reason) Node Record) → List (Option Node) → Except Reason Record
  | field :: fields, some node :: nodes => do
      let record ← field.store record node
      storeAll record fields nodes
  | _ :: fields, none :: nodes => storeAll record fields nodes
  | _, _ => .ok record

/-- The places of the nodes that are there, added to those seen before. -/
def placesFrom (place : Nat) : List (Option Node) → List Nat → List Nat
  | some _ :: nodes, seen => placesFrom (place + 1) nodes (place :: seen)
  | none :: nodes, seen => placesFrom (place + 1) nodes seen
  | [], seen => seen

theorem mem_placesFrom_of_mem {place seenPlace : Nat} {nodes : List (Option Node)}
    {seen : List Nat} (member : seenPlace ∈ seen) :
    seenPlace ∈ placesFrom place nodes seen := by
  induction nodes generalizing place seen with
  | nil => exact member
  | cons node rest ih =>
      cases node with
      | none => exact ih member
      | some node => exact ih (List.mem_cons_of_mem place member)

theorem mem_placesFrom {place index : Nat} {nodes : List (Option Node)}
    {seen : List Nat} {node : Node} (present : nodes[index]? = some (some node)) :
    place + index ∈ placesFrom place nodes seen := by
  induction nodes generalizing place index seen with
  | nil => cases present
  | cons first rest ih =>
      cases index with
      | zero =>
          cases present
          change place ∈ placesFrom (place + 1) rest (place :: seen)
          exact mem_placesFrom_of_mem List.mem_cons_self
      | succ index =>
          rw [Nat.add_succ, ← Nat.succ_add]
          cases first with
          | none => exact ih present
          | some first => exact ih present

variable [Readable (Except Reason) Node]

theorem readMember_of_listed (distinct : shape.names.Nodup)
    {before after : List (Field (Except Reason) Node Record)}
    {field : Field (Except Reason) Node Record}
    (all : shape.fields = before ++ field :: after) (draft : RecordDraft Record)
    {key : Node} (named : Readable.key key = .ok (.name field.name))
    (fresh : before.length ∉ draft.seen) (node : Node) :
    shape.readMember draft (key, node) =
      (fun record => ⟨record, before.length :: draft.seen⟩) <$>
        field.store draft.record node := by
  have listed : shape.fields[before.length]? = some field := by
    rw [all, List.getElem?_append_right (Nat.le_refl _), Nat.sub_self]
    rfl
  have found : (FieldKey.name field.name).find? shape.names = some before.length := by
    rw [names, all, List.map_append, List.map_cons] at distinct
    have elsewhere : ∀ name ∈ before.map Field.name, (name == field.name) = false := by
      intro name member
      rw [beq_eq_false_iff_ne]
      exact (List.nodup_append.mp distinct).2.2 name member field.name
        List.mem_cons_self
    rw [FieldKey.find?, names, all, List.map_append, List.map_cons, List.findIdx?_append,
      List.findIdx?_eq_none_iff.mpr elsewhere, List.findIdx?_cons, beq_self_eq_true]
    simp
  have unseen : ¬ draft.seen.contains before.length = true := by
    simpa using fresh
  unfold readMember
  rw [named]
  dsimp only [bind, Except.bind]
  rw [found]
  dsimp only
  rw [listed]
  dsimp only
  rw [if_neg unseen]
  rfl

-- The induction is on the fields that are left; those before them give the place.
theorem foldlM_written (distinct : shape.names.Nodup) {keyOf : String → Node}
    (named : ∀ name, Readable.key (keyOf name) = .ok (.name name))
    {before rest : List (Field (Except Reason) Node Record)}
    (all : shape.fields = before ++ rest) {nodes : List (Option Node)}
    (aligned : nodes.length = rest.length) (record : Record) {seen : List Nat}
    (earlier : ∀ place ∈ seen, place < before.length) :
    (written keyOf rest nodes).foldlM shape.readMember ⟨record, seen⟩ =
      (fun record => ⟨record, placesFrom before.length nodes seen⟩) <$>
        storeAll record rest nodes := by
  induction rest generalizing before nodes record seen with
  | nil =>
      obtain rfl := List.eq_nil_of_length_eq_zero aligned
      rfl
  | cons field rest ih =>
      have later : shape.fields = (before ++ [field]) ++ rest := by
        rw [all, List.append_cons]
      have longer : (before ++ [field]).length = before.length + 1 := List.length_append
      cases nodes with
      | nil => cases aligned
      | cons node nodes =>
          have alignedRest : nodes.length = rest.length := Nat.succ.inj aligned
          cases node with
          | none =>
              have shorter : ∀ place ∈ seen, place < (before ++ [field]).length := by
                intro place member
                rw [longer]
                exact Nat.lt_succ_of_lt (earlier place member)
              rw [written, storeAll, placesFrom, ← longer]
              exact ih later alignedRest record shorter
          | some node =>
              have fresh : before.length ∉ seen := fun member =>
                Nat.lt_irrefl _ (earlier _ member)
              have shorter : ∀ place ∈ before.length :: seen,
                  place < (before ++ [field]).length := by
                rw [longer]
                refine List.forall_mem_cons.mpr ⟨Nat.lt_succ_self _, ?_⟩
                intro place member
                exact Nat.lt_succ_of_lt (earlier place member)
              rw [written, List.foldlM_cons,
                readMember_of_listed distinct all ⟨record, seen⟩ (named field.name) fresh,
                storeAll, placesFrom, ← longer]
              cases field.store record node with
              | error reason => rfl
              | ok record => exact ih later alignedRest record shorter

/-- A record that is written in the order of its fields is read by storing them in
turn. -/
theorem readMembers_written (keyOf : String → Node) (nodes : List (Option Node))
    (named : ∀ name, Readable.key (keyOf name) = .ok (.name name))
    (distinct : shape.names.Nodup) (aligned : nodes.length = shape.fields.length)
    (complete : (shape.fields.zip nodes).all
      (fun pair => !pair.1.required || pair.2.isSome) = true) :
    shape.readMembers (written keyOf shape.fields nodes) =
      storeAll shape.blank shape.fields nodes := by
  have nothingMissing : missing? (placesFrom 0 nodes []) shape.fields 0 = none := by
    rw [missing?_eq_none_iff]
    intro index field listed required
    obtain ⟨inFields, -⟩ := List.getElem?_eq_some_iff.mp listed
    have inNodes : index < nodes.length := by omega
    have paired : (shape.fields.zip nodes)[index]? = some (field, nodes[index]) :=
      List.getElem?_zip_eq_some.mpr ⟨listed, List.getElem?_eq_getElem inNodes⟩
    have present : (!field.required || nodes[index].isSome) = true :=
      List.all_eq_true.mp complete _ (List.mem_of_getElem? paired)
    rw [required, Bool.not_true, Bool.false_or] at present
    obtain ⟨node, isNode⟩ := Option.isSome_iff_exists.mp present
    exact mem_placesFrom ((List.getElem?_eq_getElem inNodes).trans (congrArg some isNode))
  have run := foldlM_written distinct named (List.nil_append shape.fields).symm aligned
    shape.blank (List.forall_mem_nil _)
  rw [readMembers, run]
  cases storeAll shape.blank shape.fields nodes with
  | error reason => rfl
  | ok record =>
      dsimp only [Functor.map, Except.map, bind, Except.bind, List.length_nil]
      rw [nothingMissing]
      rfl

/-! ## Records that have been read -/

/-- A record that comes from the blank one by storing nodes in fields.  The fields
are listed, the last one first. -/
inductive Stored (shape : Shape (Except Reason) Node Record) (nodes : List Node) :
    List (Field (Except Reason) Node Record) → Record → Prop
  | blank : Stored shape nodes [] shape.blank
  | store {fields : List (Field (Except Reason) Node Record)} {record after : Record}
      {field : Field (Except Reason) Node Record} {node : Node}
      (earlier : Stored shape nodes fields record) (listed : field ∈ shape.fields)
      (present : node ∈ nodes) (stored : field.store record node = .ok after) :
      Stored shape nodes (field :: fields) after

theorem readMember_eq_ok {draft after : RecordDraft Record} {member : Node × Node}
    (read : shape.readMember draft member = .ok after) :
    after = draft ∨ ∃ index field record, shape.fields[index]? = some field ∧
      field.store draft.record member.2 = .ok record ∧
      after = ⟨record, index :: draft.seen⟩ := by
  unfold readMember at read
  obtain ⟨key, -, read⟩ := bind_eq_ok_iff.mp read
  split at read
  · obtain ⟨-, -, read⟩ := bind_eq_ok_iff.mp read
    cases read
    exact .inl rfl
  · split at read
    · cases read
      exact .inl rfl
    · rename_i index _ _ field listed
      split at read
      · cases read
      · obtain ⟨record, stored, read⟩ := bind_eq_ok_iff.mp read
        cases read
        exact .inr ⟨index, field, record, listed, stored, rfl⟩

theorem exists_stored_of_readMembers {members : List (Node × Node)} {record : Record}
    (read : shape.readMembers members = .ok record) :
    ∃ fields, shape.Stored (members.map Prod.snd) fields record ∧
      ∀ field ∈ shape.fields, field.required = true → field ∈ fields := by
  rw [readMembers] at read
  obtain ⟨draft, run, read⟩ := bind_eq_ok_iff.mp read
  -- Every place that has been seen is that of a field that has been stored.
  obtain ⟨fields, stored, seen⟩ := foldlM_invariant
    (fun draft => ∃ fields, shape.Stored (members.map Prod.snd) fields draft.record ∧
      ∀ place ∈ draft.seen, ∀ field, shape.fields[place]? = some field → field ∈ fields)
    ⟨[], .blank, nofun⟩ run (by
      rintro member inMembers before after ⟨fields, stored, seen⟩ step
      rcases readMember_eq_ok step with rfl | ⟨index, field, next, listed, entered, rfl⟩
      · exact ⟨fields, stored, seen⟩
      · refine ⟨field :: fields, stored.store (List.mem_of_getElem? listed)
          (List.mem_map_of_mem inMembers) entered, ?_⟩
        intro place placeSeen other otherListed
        rcases List.mem_cons.mp placeSeen with rfl | earlier
        · rw [listed] at otherListed
          cases otherListed
          exact List.mem_cons_self
        · exact List.mem_cons_of_mem field (seen place earlier other otherListed))
  split at read
  · cases read
  · rename_i nothingMissing
    cases read
    refine ⟨fields, stored, ?_⟩
    intro field member required
    obtain ⟨index, listed⟩ := List.mem_iff_getElem?.mp member
    have placed := missing?_eq_none_iff.mp nothingMissing index field listed required
    rw [Nat.zero_add] at placed
    exact seen index placed field listed

theorem exists_stored_of_readItems {nodes : List Node} {before record : Record}
    {fields left : List (Field (Except Reason) Node Record)} {items : List Node}
    (earlier : shape.Stored nodes fields before) (listed : left ⊆ shape.fields)
    (present : items ⊆ nodes) (read : readItems before left items = .ok record) :
    ∃ all, shape.Stored nodes all record ∧ fields ⊆ all ∧
      ∀ field ∈ left, field.required = true → field ∈ all := by
  induction left generalizing before fields items with
  | nil =>
      cases items with
      | nil =>
          cases read
          exact ⟨fields, earlier, List.Subset.refl fields, List.forall_mem_nil _⟩
      | cons node rest => cases read
  | cons field rest ih =>
      obtain ⟨fieldListed, restListed⟩ := List.cons_subset.mp listed
      cases items with
      | nil =>
          rw [readItems] at read
          split at read
          · cases read
          · rename_i optional
            obtain ⟨all, stored, includes, complete⟩ :=
              ih earlier restListed present read
            refine ⟨all, stored, includes, List.forall_mem_cons.mpr ⟨?_, complete⟩⟩
            intro required
            exact absurd required optional
      | cons node later =>
          obtain ⟨nodePresent, laterPresent⟩ := List.cons_subset.mp present
          rw [readItems] at read
          obtain ⟨next, entered, read⟩ := bind_eq_ok_iff.mp read
          obtain ⟨all, stored, includes, complete⟩ :=
            ih (earlier.store fieldListed nodePresent entered) restListed laterPresent read
          obtain ⟨fieldIncluded, fieldsIncluded⟩ := List.cons_subset.mp includes
          exact ⟨all, stored, fieldsIncluded,
            List.forall_mem_cons.mpr ⟨fun _ => fieldIncluded, complete⟩⟩

end Shape

/-- The nodes that the fields of a record are read from. -/
def Layout.nodes {Node : Type} : Layout Node → List Node
  | .keyed members => members.map Prod.snd
  | .positional items => items

namespace Shape

variable {Node Record : Type} [Readable (Except Reason) Node]
  {shape : Shape (Except Reason) Node Record} {layout : Layout Node} {record : Record}

/-- Whatever is read comes from the blank record by storing nodes in fields, among
them all required fields. -/
theorem exists_stored_of_readLayout (read : shape.readLayout layout = .ok record) :
    ∃ fields, shape.Stored layout.nodes fields record ∧
      ∀ field ∈ shape.fields, field.required = true → field ∈ fields := by
  cases layout with
  | keyed members => exact exists_stored_of_readMembers read
  | positional items =>
      obtain ⟨fields, stored, -, complete⟩ := exists_stored_of_readItems .blank
        (List.Subset.refl _) (List.Subset.refl _) read
      exact ⟨fields, stored, complete⟩

/-- What the blank record has and every field keeps, a record has that is read. -/
theorem invariant_of_readLayout (invariant : Record → Prop)
    (blank : invariant shape.blank) (read : shape.readLayout layout = .ok record)
    (kept : ∀ field ∈ shape.fields, ∀ node ∈ layout.nodes, ∀ before after,
      invariant before → field.store before node = .ok after → invariant after) :
    invariant record := by
  obtain ⟨fields, stored, -⟩ := exists_stored_of_readLayout read
  clear read
  induction stored with
  | blank => exact blank
  | store earlier listed present stored ih =>
      exact kept _ listed _ present _ _ ih stored

theorem invariant_of_read {node : Node} (invariant : Record → Prop)
    (blank : invariant shape.blank) (read : shape.read node = .ok record)
    (kept : ∀ field ∈ shape.fields, ∀ part before after,
      invariant before → field.store before part = .ok after → invariant after) :
    invariant record := by
  obtain ⟨layout, -, read⟩ := bind_eq_ok_iff.mp read
  exact invariant_of_readLayout invariant blank read
    fun field listed part _ => kept field listed part

end Shape

end RsaAudit
