import RsaAudit.Document.Program
import RsaAudit.Proofs.Document.Argument

/-!
# Instructions in a JSON document

The parts of an instruction are kept before they are read, if they fit into the levels
that are left to them.  What is read as an instruction is written with no more levels.
-/

namespace RsaAudit

/-! ## Written values are spellable -/

section

variable {admits : Json.Numeral → Prop}

theorem Json.spellable_optionalMember {key : String} {content : Option String} :
    ∀ member ∈ optionalMember key content, member.2.Spellable admits := by
  rw [optionalMember, List.forall_mem_map]
  exact fun text _ => spellable_ofText

variable (words : Json.AdmitsWords admits)

include words

theorem Literal.spellable_toJson (literal : Literal) : literal.toJson.Spellable admits := by
  cases literal with
  | int number => simp [toJson, words.spellable_ofInt number]
  | str text => simp [toJson]
  | bytes content =>
      have spellable (byte : UInt8) : (Json.ofNat byte.toNat).Spellable admits :=
        words.spellable_ofNat (Nat.lt_trans byte.toNat_lt (by decide))
      simp [toJson, spellable]
  | nil => simp [toJson]

theorem Argument.spellable_toJson (argument : Argument) :
    argument.toJson.Spellable admits := by
  induction argument with
  | constant literal => simp [toJson, literal.spellable_toJson words]
  | wrapped inner ih => simp [toJson, ih]
  | callResult callee => simp [toJson]
  | unresolved origin =>
      rw [toJson, Json.spellable_record]
      exact List.forall_mem_cons.mpr ⟨Json.spellable_ofText, Json.spellable_optionalMember⟩

theorem Position.spellable_toJson (position : Position) :
    position.toJson.Spellable admits := by
  simp [toJson, words.spellable_ofNat position.line.toNat_lt,
    words.spellable_ofNat position.column.toNat_lt]

theorem Call.spellable_members (call : Call) :
    ∀ member ∈ call.members, member.2.Spellable admits := by
  refine List.forall_mem_append.mpr ⟨?_, Json.spellable_optionalMember⟩
  simp [call.position.spellable_toJson words, Argument.spellable_toJson words]

theorem Instruction.spellable_toJson (instruction : Instruction) :
    instruction.toJson.Spellable admits := by
  cases instruction with
  | call made =>
      rw [toJson, Json.spellable_record]
      exact List.forall_mem_cons.mpr ⟨Json.spellable_ofText, made.spellable_members words⟩
  | other opcode => cases opcode <;> simp [toJson, Json.ofText?, Json.Spellable]

end

/-! ## Records that are read as they come -/

/-- A record that is written in the order of its fields is read by storing them in
turn. -/
theorem Shape.read_record {Record : Type} {shape : Shape (Except Reason) Json Record}
    (nodes : List (Option Json)) {members : List (String × Json)}
    (inOrder : (members.map fun member => (Json.text (some member.1), member.2)) =
      written (fun name => .text (some name)) shape.fields nodes)
    (distinct : shape.names.Nodup) (aligned : nodes.length = shape.fields.length)
    (complete : (shape.fields.zip nodes).all
      (fun pair => !pair.1.required || pair.2.isSome) = true) :
    shape.read (Json.record members) = storeAll shape.blank shape.fields nodes := by
  unfold read
  change (Json.layout _ >>= _) = _
  rw [Json.layout_record, ok_bind]
  change shape.readMembers _ = _
  rw [inOrder, readMembers_written _ nodes (fun _ => rfl) distinct aligned complete]

/-! ## Parts that are kept -/

/-- The levels that are left to the parts of an instruction. -/
def Json.partLevels : Nat := maxLevels - instructionLevel

namespace Tagged

variable {Variant : Type} {variants : Variants Variant}

theorem readMember_other (draft : Draft Variant) {member : String × Json}
    (other : member.1 ≠ tag) (spellable : member.2.Spellable Json.Numeral.InRange) :
    readMember variants draft (Json.text (some member.1), member.2) =
      Json.ifFits member.2.depth Json.partLevels
        { draft with kept := (.text member.1, member.2.kept) :: draft.kept } := by
  have noTag : ¬ isTag (.text member.1) = true := by
    simpa [isTag] using other
  change (if isTag (.text member.1) = true then _ else
    Json.keepWithin Json.partLevels member.2 >>= _) = _
  rw [if_neg noTag, Json.keepWithin_eq _ _ spellable]
  exact Json.ifFits_bind_ok _ _ rfl

theorem foldlM_readMember_others (draft : Draft Variant) {members : List (String × Json)}
    (others : ∀ member ∈ members, member.1 ≠ tag)
    (spellable : ∀ member ∈ members, member.2.Spellable Json.Numeral.InRange) :
    (members.map fun member => (Json.text (some member.1), member.2)).foldlM
        (readMember variants) draft =
      Json.ifFits (Json.membersDepth (members.map fun (key, value) => (some key, value)))
        Json.partLevels
        { draft with kept :=
            (members.map fun member => (.text member.1, member.2.kept)).reverse ++
              draft.kept } := by
  induction members generalizing draft with
  | nil => rfl
  | cons member rest ih =>
      obtain ⟨other, others⟩ := List.forall_mem_cons.mp others
      obtain ⟨ofMember, ofRest⟩ := List.forall_mem_cons.mp spellable
      rw [List.map_cons, List.foldlM_cons, readMember_other draft other ofMember]
      apply Json.ifFits_bind
      rw [ih _ others ofRest, List.map_cons, List.reverse_cons, List.append_assoc]
      rfl

theorem readVariant_ofText {name : String} {variant : Variant}
    (named : variants.ofName name = .ok variant) :
    readVariant variants (Json.ofText name) = .ok variant := by
  rw [readVariant]
  change MonadExcept.ofExcept (variants.ofName name) = _
  rw [named]
  rfl

theorem readMember_tag {name : String} {variant : Variant}
    (named : variants.ofName name = .ok variant) (kept : List (Value × Value)) :
    readMember variants ⟨none, kept⟩ (Json.text (some tag), Json.ofText name) =
      .ok ⟨some variant, kept⟩ := by
  change (readVariant variants (Json.ofText name) >>= _) = _
  rw [readVariant_ofText named]
  rfl

/-- The variant and the kept parts of a record that is written with its tag first. -/
theorem read_record {name : String} {variant : Variant}
    (named : variants.ofName name = .ok variant) {members : List (String × Json)}
    (others : ∀ member ∈ members, member.1 ≠ tag)
    (spellable : ∀ member ∈ members, member.2.Spellable Json.Numeral.InRange) :
    read variants (Json.record ((tag, .ofText name) :: members)) =
      Json.ifFits (Json.record ((tag, .ofText name) :: members)).depth
        (Json.partLevels + 1)
        (variant, .keyed (members.map fun member => (.text member.1, member.2.kept))) := by
  have depth : (Json.record ((tag, .ofText name) :: members)).depth =
      Json.membersDepth (members.map fun (key, value) => (some key, value)) + 1 := by
    simp [Json.record, Json.depth, Json.membersDepth, Json.ofText]
  rw [depth, Json.ifFits_succ]
  unfold read
  change (Json.layout _ >>= _) = _
  rw [Json.layout_record, ok_bind]
  dsimp only
  rw [List.map_cons, List.foldlM_cons, readMember_tag named, ok_bind,
    foldlM_readMember_others _ others spellable]
  apply Json.ifFits_bind_ok
  dsimp only
  rw [List.append_nil, List.reverse_reverse]
  rfl

end Tagged

theorem Instruction.read_record {name : String} {kind : Kind}
    {members : List (String × Json)} {instruction : Instruction}
    (named : Kind.variants.ofName name = .ok kind)
    (others : ∀ member ∈ members, member.1 ≠ Tagged.tag)
    (spellable : ∀ member ∈ members, member.2.Spellable Json.Numeral.InRange)
    (meaning : ofLayout kind
      (.keyed (members.map fun member => (.text member.1, member.2.kept))) =
        .ok instruction) :
    read (Json.record ((Tagged.tag, .ofText name) :: members)) =
      Json.ifFits (Json.record ((Tagged.tag, .ofText name) :: members)).depth
        (Json.partLevels + 1) instruction := by
  unfold read
  rw [Tagged.read_record named others spellable]
  apply Json.ifFits_bind_ok
  dsimp only
  rw [meaning]
  rfl

/-! ## Depth -/

theorem Tagged.depth_le_of_readMember {Variant : Type} {variants : Variants Variant}
    {draft after : Draft Variant} {member : Json × Json}
    (bounded : ∀ entry ∈ draft.kept, entry.2.depth ≤ Json.partLevels)
    (read : readMember variants draft member = .ok after) :
    ∀ entry ∈ after.kept, entry.2.depth ≤ Json.partLevels := by
  unfold readMember at read
  obtain ⟨key, -, read⟩ := bind_eq_ok_iff.mp read
  split at read
  · split at read
    · cases read
    · obtain ⟨variant, -, read⟩ := bind_eq_ok_iff.mp read
      cases read
      exact bounded
  · obtain ⟨value, kept, read⟩ := bind_eq_ok_iff.mp read
    cases read
    exact List.forall_mem_cons.mpr ⟨Json.depth_le_of_keepWithin kept, bounded⟩

/-- The parts that are kept of an instruction are no deeper than the levels left. -/
theorem Tagged.depth_le_of_read {Variant : Type} {variants : Variants Variant}
    {json : Json} {variant : Variant} {layout : Layout Value}
    (read : read variants json = .ok (variant, layout)) :
    ∀ part ∈ layout.nodes, part.depth ≤ Json.partLevels := by
  unfold Tagged.read at read
  obtain ⟨written, -, read⟩ := bind_eq_ok_iff.mp read
  split at read
  · obtain ⟨draft, run, read⟩ := bind_eq_ok_iff.mp read
    have bounded := foldlM_invariant
      (fun draft : Draft Variant => ∀ entry ∈ draft.kept, entry.2.depth ≤ Json.partLevels)
      (List.forall_mem_nil _) run
      fun _ _ _ _ bounded step => depth_le_of_readMember bounded step
    split at read
    · cases read
      intro part member
      obtain ⟨entry, listed, rfl⟩ := List.mem_map.mp member
      exact bounded entry (List.mem_reverse.mp listed)
    · cases read
  · cases read
  · obtain ⟨found, -, read⟩ := bind_eq_ok_iff.mp read
    obtain ⟨values, kept, read⟩ := bind_eq_ok_iff.mp read
    cases read
    intro part member
    obtain ⟨item, -, keptItem⟩ := exists_of_mapM_eq_ok kept member
    exact Json.depth_le_of_keepWithin keptItem

theorem Value.exists_part_of_list {Item : Type} {run : Value → Except Reason Item}
    {node : Value} {items : List Item} (read : Readable.list run node = .ok items)
    {item : Item} (member : item ∈ items) : ∃ part ∈ node.parts, run part = .ok item := by
  cases node with
  | list parts => exact exists_of_mapM_eq_ok read member
  | _ => cases read

theorem Call.depth_args_lt {layout : Layout Value} {call : Call} {levels : Nat}
    (bounded : ∀ part ∈ layout.nodes, part.depth ≤ levels)
    (read : shape.readLayout layout = .ok call) :
    ∀ argument ∈ call.args, argument.toJson.depth < levels := by
  refine Shape.invariant_of_readLayout
    (fun call => ∀ argument ∈ call.args, argument.toJson.depth < levels)
    (List.forall_mem_nil _) read ?_
  intro field listed node present before after holds stored
  simp only [shape, List.mem_cons, List.not_mem_nil, or_false] at listed
  rcases listed with rfl | rfl | rfl | rfl
  · obtain ⟨callee, -, rfl⟩ := map_eq_ok_iff.mp stored
    exact holds
  · obtain ⟨args, ofNode, rfl⟩ := map_eq_ok_iff.mp stored
    intro argument member
    obtain ⟨part, inNode, ofPart⟩ := Value.exists_part_of_list ofNode member
    calc
      argument.toJson.depth ≤ part.depth := Argument.depth_toJson_le ofPart
      _ < node.depth := Value.depth_lt_of_mem_parts inNode
      _ ≤ levels := bounded node present
  · obtain ⟨position, -, rfl⟩ := map_eq_ok_iff.mp stored
    exact holds
  · obtain ⟨result, -, rfl⟩ := map_eq_ok_iff.mp stored
    exact holds

theorem Json.depth_optionalMember {key : String} {content : Option String} :
    ∀ member ∈ optionalMember key content, member.2.depth = 0 := by
  rw [optionalMember, List.forall_mem_map]
  exact fun text _ => rfl

theorem Call.depth_members_le {call : Call} {levels : Nat}
    (args : ∀ argument ∈ call.args, argument.toJson.depth ≤ levels) :
    ∀ member ∈ call.members, member.2.depth ≤ levels + 1 := by
  have callee : (Json.ofText call.callee).depth = 0 := rfl
  have position : call.position.toJson.depth = 1 := rfl
  have list := Json.depth_list_map_le_iff.mpr args
  refine List.forall_mem_append.mpr ⟨?_, ?_⟩
  · simp [callee, position, list]
  · intro member listed
    rw [Json.depth_optionalMember member listed]
    exact Nat.zero_le _

theorem Instruction.depth_toJson_other_le (opcode : Option String) :
    (other opcode).toJson.depth ≤ 1 := by
  cases opcode <;> exact Nat.le_refl 1

theorem Instruction.exists_of_read {json : Json} {instruction : Instruction}
    (read : read json = .ok instruction) :
    ∃ kind layout, Tagged.read Kind.variants json = .ok (kind, layout) ∧
      ofLayout kind layout = .ok instruction := by
  unfold Instruction.read at read
  obtain ⟨⟨kind, layout⟩, tagged, read⟩ := bind_eq_ok_iff.mp read
  refine ⟨kind, layout, tagged, ?_⟩
  dsimp only at read
  cases meaning : ofLayout kind layout with
  | error reason =>
      rw [meaning] at read
      cases read
  | ok found =>
      rw [meaning] at read
      exact read

/-- An instruction that has been read is written with the levels left to it. -/
theorem Instruction.depth_toJson_le {json : Json} {instruction : Instruction}
    (read : read json = .ok instruction) :
    instruction.toJson.depth ≤ Json.partLevels + 1 := by
  obtain ⟨kind, layout, tagged, meaning⟩ := exists_of_read read
  cases kind with
  | call =>
      obtain ⟨made, ofLayout, rfl⟩ := map_eq_ok_iff.mp meaning
      have args := Call.depth_args_lt (Tagged.depth_le_of_read tagged) ofLayout
      have members := Call.depth_members_le fun argument member =>
        Nat.le_of_lt_succ (args argument member)
      rw [toJson, Json.depth_record_le_iff]
      exact List.forall_mem_cons.mpr ⟨Nat.zero_le _, members⟩
  | other =>
      have written := Shape.invariant_of_readLayout
        (fun instruction => ∃ opcode, instruction = other opcode) ⟨none, rfl⟩ meaning (by
          intro field listed node present before after holds stored
          obtain rfl := List.mem_singleton.mp listed
          obtain ⟨opcode, -, rfl⟩ := map_eq_ok_iff.mp stored
          exact ⟨opcode, rfl⟩)
      obtain ⟨opcode, rfl⟩ := written
      exact (depth_toJson_other_le opcode).trans (Nat.le_add_left 1 _)

end RsaAudit
