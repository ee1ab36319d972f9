import RsaAudit.Document.Argument
import RsaAudit.Document.Writing
import RsaAudit.Proofs.Document.Kept
import RsaAudit.Proofs.Document.Record

/-!
# How deep literals and arguments are kept

Whatever is read as a literal or an argument was kept at least as deep as it is
written, so writing never adds to the depth of a document.
-/

namespace RsaAudit

namespace Literal

theorem Kind.depth_toJson_le_of_interpret {kind : Kind} {part : Value}
    {literal : Literal} (read : kind.interpret part = .ok literal) :
    literal.toJson.depth ≤ part.depth + 1 := by
  cases kind with
  | int =>
      obtain ⟨number, -, rfl⟩ := map_eq_ok_iff.mp read
      exact Nat.le_add_left 1 _
  | str =>
      obtain ⟨text, -, rfl⟩ := map_eq_ok_iff.mp read
      exact Nat.le_add_left 1 _
  | bytes =>
      obtain ⟨content, listed, rfl⟩ := map_eq_ok_iff.mp read
      cases part with
      | list items =>
          rw [toJson, Json.depth_record_le_iff, Value.depth]
          refine List.forall_mem_cons.mpr ⟨Nat.zero_le _, List.forall_mem_singleton.mpr ?_⟩
          rw [Json.depth_list_map_le_iff]
          exact fun byte _ => Nat.zero_le _
      | _ => cases listed
  | nil =>
      cases part with
      | null =>
          cases read
          exact Nat.le_refl 1
      | _ => cases read

namespace Draft

/-- What a draft holds comes from the given entries. -/
structure From (entries : List (Value × Value)) (draft : Draft) : Prop where
  value : ∀ value, draft.value = some value → ∃ entry ∈ entries, entry.2 = value
  literal : ∀ literal, draft.literal = some literal →
    ∃ kind : Kind, ∃ entry ∈ entries, kind.interpret entry.2 = .ok literal

variable {entries : List (Value × Value)} {draft after : Draft}

theorem from_start (entries : List (Value × Value)) : start.From entries := by
  constructor
  · intro value found
    cases found
  · intro literal found
    cases found

theorem From.setKind (holds : draft.From entries) {node : Value}
    (read : draft.setKind node = .ok after) : after.From entries := by
  unfold Draft.setKind at read
  split at read
  · cases read
  · obtain ⟨kind, -, read⟩ := bind_eq_ok_iff.mp read
    obtain ⟨literal?, interpreted, read⟩ := bind_eq_ok_iff.mp read
    cases read
    refine ⟨holds.value, ?_⟩
    rintro literal rfl
    obtain ⟨value, waiting, interpreted⟩ := exists_of_optionMapM_eq_ok interpreted
    obtain ⟨entry, member, rfl⟩ := holds.value value waiting
    exact ⟨kind, entry, member, interpreted⟩

theorem from_of_setValue {entry : Value × Value} (member : entry ∈ entries)
    (read : draft.setValue entry.2 = .ok after) : after.From entries := by
  unfold Draft.setValue at read
  split at read
  · cases read
  · obtain ⟨literal?, interpreted, read⟩ := bind_eq_ok_iff.mp read
    cases read
    constructor
    · rintro value ⟨⟩
      exact ⟨entry, member, rfl⟩
    · rintro literal rfl
      obtain ⟨kind, -, interpreted⟩ := exists_of_optionMapM_eq_ok interpreted
      exact ⟨kind, entry, member, interpreted⟩

theorem From.readMember (holds : draft.From entries) {entry : Value × Value}
    (member : entry ∈ entries) (read : draft.readMember entry = .ok after) :
    after.From entries := by
  unfold Draft.readMember at read
  obtain ⟨key, -, read⟩ := bind_eq_ok_iff.mp read
  split at read
  · exact holds.setKind read
  · exact from_of_setValue member read
  · cases read
    exact holds

theorem From.finish (holds : draft.From entries) {literal : Literal}
    (read : draft.finish = .ok literal) :
    literal = .nil ∨
      ∃ kind : Kind, ∃ entry ∈ entries, kind.interpret entry.2 = .ok literal := by
  unfold Draft.finish at read
  split at read
  · cases read
  · rename_i found
    cases read
    exact .inr (holds.literal _ found)
  · cases read
    exact .inl rfl
  · cases read

end Draft

/-- A literal is not written deeper than the value it has been read from. -/
theorem depth_toJson_le {literal : Literal} {value : Value}
    (read : ofValue value = .ok literal) : literal.toJson.depth ≤ value.depth := by
  cases value with
  | map entries =>
      obtain ⟨draft, run, finished⟩ := bind_eq_ok_iff.mp read
      have holds : draft.From entries := foldlM_invariant (Draft.From entries)
        (Draft.from_start entries) run
          fun entry member _ _ holds step => holds.readMember member step
      rw [Value.depth]
      rcases holds.finish finished with rfl | ⟨kind, entry, member, interpreted⟩
      · exact Nat.le_add_left 1 _
      · have partDepth := Value.depth_le_entriesDepth member
        have written := Kind.depth_toJson_le_of_interpret interpreted
        omega
  | list items =>
      cases items with
      | nil => cases read
      | cons type rest =>
          obtain ⟨kind, -, read⟩ := bind_eq_ok_iff.mp read
          cases rest with
          | nil => cases read
          | cons part later =>
              obtain ⟨found, interpreted, read⟩ := bind_eq_ok_iff.mp read
              split at read
              · cases read
                have partDepth : part.depth ≤ Value.itemsDepth (type :: part :: later) :=
                  Value.depth_le_itemsDepth (by simp)
                have written := Kind.depth_toJson_le_of_interpret interpreted
                rw [Value.depth]
                omega
              · cases read
  | _ => cases read

end Literal

namespace Argument

/-- What an argument holds has been read from one of the given parts. -/
def FromParts (parts : List Value) : Argument → Prop
  | .constant literal => ∃ part ∈ parts, Literal.ofValue part = .ok literal
  | .wrapped inner => ∃ part ∈ parts, ofValue part = .ok inner
  | .callResult _ | .unresolved _ => True

theorem FromParts.mono {fewer more : List Value} (included : fewer ⊆ more)
    {argument : Argument} (holds : argument.FromParts fewer) :
    argument.FromParts more := by
  cases argument with
  | constant literal =>
      obtain ⟨part, member, ofPart⟩ := holds
      exact ⟨part, included member, ofPart⟩
  | wrapped inner =>
      obtain ⟨part, member, ofPart⟩ := holds
      exact ⟨part, included member, ofPart⟩
  | callResult callee => trivial
  | unresolved origin => trivial

theorem fromParts_of_constantShape (layout : Layout Value) {argument : Argument}
    (read : constantShape.readLayout layout = .ok argument) :
    argument.FromParts layout.nodes := by
  obtain ⟨fields, stored, complete⟩ := Shape.exists_stored_of_readLayout read
  -- The blank constant is nil, but its value is required and so has been stored.
  cases stored with
  | blank => cases complete _ List.mem_cons_self rfl
  | store earlier listed present stored =>
      obtain rfl := List.mem_singleton.mp listed
      obtain ⟨literal, ofNode, rfl⟩ := map_eq_ok_iff.mp stored
      exact ⟨_, present, ofNode⟩

theorem fromParts_of_callResultShape (layout : Layout Value) {argument : Argument}
    (read : callResultShape.readLayout layout = .ok argument) :
    argument.FromParts layout.nodes := by
  refine Shape.invariant_of_readLayout (FromParts layout.nodes) (by trivial) read ?_
  intro field listed node present before after holds stored
  obtain rfl := List.mem_singleton.mp listed
  obtain ⟨callee, -, rfl⟩ := map_eq_ok_iff.mp stored
  trivial

theorem fromParts_of_unresolvedShape (layout : Layout Value) {argument : Argument}
    (read : unresolvedShape.readLayout layout = .ok argument) :
    argument.FromParts layout.nodes := by
  refine Shape.invariant_of_readLayout (FromParts layout.nodes) (by trivial) read ?_
  intro field listed node present before after holds stored
  obtain rfl := List.mem_singleton.mp listed
  obtain ⟨origin, -, rfl⟩ := map_eq_ok_iff.mp stored
  trivial

theorem exists_of_innerOfItems {items : List Value} {inner : Argument}
    (read : innerOfItems items = .ok (some inner)) :
    ∃ node ∈ items, ofValue node = .ok inner := by
  cases items with
  | nil => cases read
  | cons node rest =>
      rw [innerOfItems] at read
      obtain ⟨found, ofNode, read⟩ := bind_eq_ok_iff.mp read
      split at read
      · cases read
        exact ⟨node, List.mem_cons_self, ofNode⟩
      · cases read

theorem exists_of_innerOfMembers {members : List (Value × Value)}
    {found : Option Argument} {inner : Argument}
    (read : innerOfMembers members found = .ok (some inner)) :
    found = some inner ∨ ∃ node ∈ members.map Prod.snd, ofValue node = .ok inner := by
  induction members generalizing found with
  | nil =>
      rw [innerOfMembers] at read
      exact .inl (Except.ok.inj read)
  | cons member rest ih =>
      obtain ⟨key, node⟩ := member
      have later {found : Option Argument}
          (read : innerOfMembers rest found = .ok (some inner)) :
          found = some inner ∨
            ∃ part ∈ ((key, node) :: rest).map Prod.snd, ofValue part = .ok inner := by
        refine (ih read).imp_right fun ⟨part, member, ofPart⟩ => ?_
        exact ⟨part, List.mem_cons_of_mem _ member, ofPart⟩
      rw [innerOfMembers] at read
      split at read
      · exact later read
      · obtain ⟨field, -, read⟩ := bind_eq_ok_iff.mp read
        split at read
        · exact later read
        · split at read
          · cases read
          · obtain ⟨next, ofNode, read⟩ := bind_eq_ok_iff.mp read
            rcases later read with same | elsewhere
            · cases same
              exact .inr ⟨node, List.mem_cons_self, ofNode⟩
            · exact .inr elsewhere

theorem fromParts_of_ofValue {argument : Argument} {value : Value}
    (read : ofValue value = .ok argument) :
    0 < value.depth ∧ argument.FromParts value.parts := by
  cases value with
  | map members =>
      refine ⟨Nat.succ_pos _, ?_⟩
      have kept : (untagged members).map Prod.snd ⊆ members.map Prod.snd :=
        List.map_subset Prod.snd (List.filter_subset_self _)
      rw [ofValue] at read
      obtain ⟨kind, -, read⟩ := bind_eq_ok_iff.mp read
      cases kind with
      | constant =>
          exact (fromParts_of_constantShape (.keyed (untagged members)) read).mono kept
      | callResult =>
          exact (fromParts_of_callResultShape (.keyed (untagged members)) read).mono kept
      | unresolved =>
          exact (fromParts_of_unresolvedShape (.keyed (untagged members)) read).mono kept
      | wrapped =>
          obtain ⟨found, ofMembers, read⟩ := bind_eq_ok_iff.mp read
          cases found with
          | none => cases read
          | some inner =>
              cases read
              exact (exists_of_innerOfMembers ofMembers).resolve_left nofun
  | list items =>
      refine ⟨Nat.succ_pos _, ?_⟩
      cases items with
      | nil =>
          rw [ofValue] at read
          cases read
      | cons first rest =>
          have later : rest ⊆ first :: rest := List.subset_cons_self first rest
          rw [ofValue] at read
          obtain ⟨kind, -, read⟩ := bind_eq_ok_iff.mp read
          cases kind with
          | constant => exact (fromParts_of_constantShape (.positional rest) read).mono later
          | callResult =>
              exact (fromParts_of_callResultShape (.positional rest) read).mono later
          | unresolved =>
              exact (fromParts_of_unresolvedShape (.positional rest) read).mono later
          | wrapped =>
              obtain ⟨found, ofItems, read⟩ := bind_eq_ok_iff.mp read
              cases found with
              | none => cases read
              | some inner =>
                  cases read
                  obtain ⟨part, present, ofPart⟩ := exists_of_innerOfItems ofItems
                  exact ⟨part, later present, ofPart⟩
  | _ =>
      rw [ofValue] at read
      · cases read
      all_goals simp

/-- An argument is not written deeper than the value it has been read from. -/
theorem depth_toJson_le {argument : Argument} {value : Value}
    (read : ofValue value = .ok argument) : argument.toJson.depth ≤ value.depth := by
  induction argument generalizing value with
  | constant literal =>
      obtain ⟨-, part, member, ofPart⟩ := fromParts_of_ofValue read
      have smaller := Value.depth_lt_of_mem_parts member
      have written := Literal.depth_toJson_le ofPart
      have whole : (constant literal).toJson.depth = literal.toJson.depth + 1 := by
        simp [toJson, Json.record, Json.depth, Json.membersDepth, Json.ofText]
      omega
  | wrapped inner ih =>
      obtain ⟨-, part, member, ofPart⟩ := fromParts_of_ofValue read
      have smaller := Value.depth_lt_of_mem_parts member
      have written := ih ofPart
      have whole : (wrapped inner).toJson.depth = inner.toJson.depth + 1 := by
        simp [toJson, Json.record, Json.depth, Json.membersDepth, Json.ofText]
      omega
  | callResult callee => exact (fromParts_of_ofValue read).1
  | unresolved origin =>
      have whole : (unresolved origin).toJson.depth = 1 := by
        cases origin <;> rfl
      rw [whole]
      exact (fromParts_of_ofValue read).1

end Argument

end RsaAudit
