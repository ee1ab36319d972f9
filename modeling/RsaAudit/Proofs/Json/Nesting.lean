import RsaAudit.Proofs.Json.Grammar

/-!
# Reading back the tree of a written value

The pass with a stack puts a written value together again, whichever text it has been
written as.  How deep the brackets of a text are nested is counted on its tokens alone,
and for a written value the count is the depth of its tree.
-/

namespace RsaAudit.Json

variable {admits : Numeral → Prop}

namespace Building

def AwaitsValue (building : Building) : Prop :=
  building.phase = .value ∨ building.phase = .firstItem

theorem AwaitsValue.step {building : Building} (awaits : building.AwaitsValue)
    {token : Token} (opens : token ≠ .rightBracket) :
    building.step token = building.stepValue token := by
  unfold Building.step
  rcases awaits with phase | phase
  · rw [phase]
  · rw [phase]
    cases token with
    | rightBracket => exact absurd rfl opens
    | _ => rfl

-- The lists and objects around a value do not matter, nor does what stands before
-- it in the innermost one.  The end of a list belongs to the statement about its
-- items, since an empty list ends where a first item may stand.
mutual

theorem run_tokens (building : Building) (awaits : building.AwaitsValue) (json : Json)
    (whole : json.intact = true) :
    json.tokens.foldl Building.step building = building.place json := by
  cases json with
  | null => exact awaits.step (by simp)
  | bool value => exact awaits.step (by simp)
  | number numeral => exact awaits.step (by simp)
  | text content => exact awaits.step (by simp)
  | list items =>
      rw [intact] at whole
      rw [tokens, List.cons_append, List.foldl_cons, awaits.step (by simp)]
      exact run_itemTokens building.frames [] .firstItem items (.inl rfl) whole
  | object members =>
      rw [intact] at whole
      rw [tokens, List.cons_append, List.foldl_cons, awaits.step (by simp)]
      exact run_memberTokens building.frames [] .firstKey members (.inl rfl) whole
  | broken => cases whole

theorem run_itemTokens (outer : List Frame) (before : List Json) (phase : Phase)
    (items : List Json) (expected : phase = .firstItem ∨ phase = .value ∧ items ≠ [])
    (whole : intactItems items = true) :
    (itemTokens items ++ [Token.rightBracket]).foldl Building.step
        ⟨.list before :: outer, phase, none⟩ =
      Building.place ⟨outer, phase, none⟩ (.list (before.reverse ++ items)) := by
  have awaits : AwaitsValue ⟨.list before :: outer, phase, none⟩ :=
    expected.elim .inr fun expected => .inl expected.1
  match items, whole with
  | [], _ =>
      obtain rfl : phase = .firstItem := by simpa using expected
      rw [List.append_nil]
      rfl
  | [item], whole =>
      rw [intactItems, Bool.and_eq_true] at whole
      rw [itemTokens, List.foldl_append, run_tokens _ awaits item whole.1,
        ← List.reverse_cons]
      rfl
  | item :: next :: rest, whole =>
      rw [intactItems, Bool.and_eq_true] at whole
      have later := run_itemTokens outer (item :: before) .value (next :: rest)
        (.inr ⟨rfl, List.cons_ne_nil next rest⟩) whole.2
      have split : itemTokens (item :: next :: rest) ++ [.rightBracket] =
          item.tokens ++ .comma :: (itemTokens (next :: rest) ++ [Token.rightBracket]) := by
        simp [itemTokens]
      rw [split, List.foldl_append, run_tokens _ awaits item whole.1,
        List.foldl_cons]
      rw [List.reverse_cons, List.append_assoc] at later
      exact later

theorem run_memberTokens (outer : List Frame)
    (before : List (Option String × Json)) (phase : Phase)
    (members : List (Option String × Json))
    (expected : phase = .firstKey ∨ phase = .key ∧ members ≠ [])
    (whole : intactMembers members = true) :
    (memberTokens members ++ [Token.rightBrace]).foldl Building.step
        ⟨.object before :: outer, phase, none⟩ =
      Building.place ⟨outer, phase, none⟩ (.object (before.reverse ++ members)) := by
  have keyed (key : Option String) :
      [.text key, .colon].foldl Building.step ⟨.object before :: outer, phase, none⟩ =
        ⟨.member before key :: outer, .value, none⟩ := by
    rcases expected with rfl | ⟨rfl, -⟩ <;> rfl
  have awaits (key : Option String) :
      AwaitsValue ⟨.member before key :: outer, .value, none⟩ := .inl rfl
  match members, whole with
  | [], _ =>
      obtain rfl : phase = .firstKey := by simpa using expected
      rw [List.append_nil]
      rfl
  | [(key, value)], whole =>
      rw [intactMembers, Bool.and_eq_true] at whole
      have split : memberTokens [(key, value)] ++ [.rightBrace] =
          [.text key, .colon] ++ (value.tokens ++ [Token.rightBrace]) := by
        simp [memberTokens]
      rw [split, List.foldl_append, keyed, List.foldl_append,
        run_tokens _ (awaits key) value whole.1, ← List.reverse_cons]
      rfl
  | (key, value) :: next :: rest, whole =>
      rw [intactMembers, Bool.and_eq_true] at whole
      have later := run_memberTokens outer ((key, value) :: before) .key (next :: rest)
        (.inr ⟨rfl, List.cons_ne_nil next rest⟩) whole.2
      have split : memberTokens ((key, value) :: next :: rest) ++ [.rightBrace] =
          [.text key, .colon] ++ (value.tokens ++
            .comma :: (memberTokens (next :: rest) ++ [Token.rightBrace])) := by
        simp [memberTokens]
      rw [split, List.foldl_append, keyed, List.foldl_append,
        run_tokens _ (awaits key) value whole.1, List.foldl_cons]
      rw [List.reverse_cons, List.append_assoc] at later
      exact later

end

end Building

mutual

theorem Spellable.intact {json : Json} (spellable : json.Spellable admits) :
    json.intact = true := by
  cases json with
  | list items =>
      rw [Spellable] at spellable
      exact SpellableItems.intact spellable
  | object members =>
      rw [Spellable] at spellable
      exact SpellableMembers.intact spellable
  | broken =>
      rw [Spellable] at spellable
      exact spellable.elim
  | _ => rfl

theorem SpellableItems.intact {items : List Json} (spellable : SpellableItems admits items) :
    intactItems items = true := by
  match items, spellable with
  | [], _ => rfl
  | item :: rest, spellable =>
      rw [SpellableItems] at spellable
      rw [intactItems, Bool.and_eq_true]
      exact ⟨Spellable.intact spellable.1, SpellableItems.intact spellable.2⟩

theorem SpellableMembers.intact {members : List (Option String × Json)}
    (spellable : SpellableMembers admits members) : intactMembers members = true := by
  match members, spellable with
  | [], _ => rfl
  | (key, value) :: rest, spellable =>
      rw [SpellableMembers] at spellable
      rw [intactMembers, Bool.and_eq_true]
      exact ⟨Spellable.intact spellable.2.1, SpellableMembers.intact spellable.2.2⟩

end

theorem intactItems_iff {items : List Json} :
    intactItems items = true ↔ ∀ item ∈ items, item.intact = true := by
  induction items with
  | nil => simp [intactItems]
  | cons item rest ih => simp [intactItems, ih]

theorem intactMembers_iff {members : List (Option String × Json)} :
    intactMembers members = true ↔ ∀ member ∈ members, member.2.intact = true := by
  induction members with
  | nil => simp [intactMembers]
  | cons member rest ih => simp [intactMembers, ih]

/-- A text of a value: its tokens are written one after the other. -/
def WrittenAs (json : Json) (text : String) : Prop :=
  json.intact = true ∧ SpelledBy json.tokens text.toList

/-- Every text of a value is read as that value. -/
theorem parse_of_writtenAs {json : Json} {text : String} (written : json.WrittenAs text) :
    Document.parse text = ⟨json, true⟩ := by
  obtain ⟨whole, spelled⟩ := written
  have run := Building.run_tokens .start (.inl rfl) json whole
  rw [Document.parse, tokenize_of_spelledBy spelled, Document.ofTokens, run]
  rfl

theorem writtenAs_compact {json : Json} (spellable : json.Spellable Numeral.WritesInteger) :
    json.WrittenAs json.compact := by
  refine ⟨spellable.intact, ?_⟩
  rw [compact, String.toList_ofList]
  exact spelledBy_compactChars spellable

/-- A printed value is read back whole. -/
theorem parse_compact {json : Json}
    (spellable : json.Spellable Numeral.WritesInteger) :
    Document.parse json.compact = ⟨json, true⟩ :=
  parse_of_writtenAs (writtenAs_compact spellable)

/-! ## Nesting -/

mutual

/-- The number of lists and objects around the innermost part of a value. -/
def depth : Json → Nat
  | .list items => itemsDepth items + 1
  | .object members => membersDepth members + 1
  | _ => 0

def itemsDepth : List Json → Nat
  | [] => 0
  | item :: rest => max item.depth (itemsDepth rest)

def membersDepth : List (Option String × Json) → Nat
  | [] => 0
  | (_, value) :: rest => max value.depth (membersDepth rest)

end

theorem itemsDepth_le_iff {items : List Json} {levels : Nat} :
    itemsDepth items ≤ levels ↔ ∀ item ∈ items, item.depth ≤ levels := by
  induction items with
  | nil => simp [itemsDepth]
  | cons item rest ih => simp [itemsDepth, ih]

theorem membersDepth_le_iff {members : List (Option String × Json)} {levels : Nat} :
    membersDepth members ≤ levels ↔ ∀ member ∈ members, member.2.depth ≤ levels := by
  induction members with
  | nil => simp [membersDepth]
  | cons member rest ih => simp [membersDepth, ih]

theorem depth_list_map_le_iff {Item : Type} {write : Item → Json} {items : List Item}
    {levels : Nat} :
    (Json.list (items.map write)).depth ≤ levels + 1 ↔
      ∀ item ∈ items, (write item).depth ≤ levels := by
  rw [depth, Nat.add_le_add_iff_right, itemsDepth_le_iff, List.forall_mem_map]

theorem depth_record_le_iff {members : List (String × Json)} {levels : Nat} :
    (record members).depth ≤ levels + 1 ↔
      ∀ member ∈ members, member.2.depth ≤ levels := by
  rw [record, depth, Nat.add_le_add_iff_right, membersDepth_le_iff, List.forall_mem_map]

/-- The brackets that are open, and the most that have been open at a time. -/
structure Nesting where
  level : Nat
  deepest : Nat
  deriving DecidableEq

namespace Nesting

def step (nesting : Nesting) : Token → Nesting
  | .leftBracket | .leftBrace =>
      ⟨nesting.level + 1, max nesting.deepest (nesting.level + 1)⟩
  | .rightBracket | .rightBrace => ⟨nesting.level - 1, nesting.deepest⟩
  | _ => nesting

-- Each part of a value leaves as many brackets open as it has found.
mutual

theorem run_tokens (level deepest : Nat) (counted : level ≤ deepest) (json : Json) :
    json.tokens.foldl Nesting.step ⟨level, deepest⟩ =
      ⟨level, max deepest (level + json.depth)⟩ := by
  have unchanged : (⟨level, deepest⟩ : Nesting) = ⟨level, max deepest (level + 0)⟩ := by
    rw [Nat.add_zero, Nat.max_eq_left counted]
  cases json with
  | null | bool _ | number _ | text _ | broken => exact unchanged
  | list items =>
      have body := run_itemTokens (level + 1) (max deepest (level + 1))
        (Nat.le_max_right _ _) items
      have deeper : max (max deepest (level + 1)) (level + 1 + itemsDepth items) =
          max deepest (level + (itemsDepth items + 1)) := by
        omega
      rw [tokens, List.cons_append, List.foldl_cons, List.foldl_append, depth, ← deeper]
      exact congrArg (Nesting.step · .rightBracket) body
  | object members =>
      have body := run_memberTokens (level + 1) (max deepest (level + 1))
        (Nat.le_max_right _ _) members
      have deeper : max (max deepest (level + 1)) (level + 1 + membersDepth members) =
          max deepest (level + (membersDepth members + 1)) := by
        omega
      rw [tokens, List.cons_append, List.foldl_cons, List.foldl_append, depth, ← deeper]
      exact congrArg (Nesting.step · .rightBrace) body

theorem run_itemTokens (level deepest : Nat) (counted : level ≤ deepest)
    (items : List Json) :
    (itemTokens items).foldl Nesting.step ⟨level, deepest⟩ =
      ⟨level, max deepest (level + itemsDepth items)⟩ := by
  match items with
  | [] =>
      rw [itemTokens, itemsDepth, Nat.add_zero, Nat.max_eq_left counted]
      rfl
  | [item] =>
      rw [itemTokens, run_tokens level deepest counted item, itemsDepth, itemsDepth,
        Nat.max_zero]
  | item :: next :: rest =>
      have first := run_tokens level deepest counted item
      have later := run_itemTokens level (max deepest (level + item.depth)) (by omega)
        (next :: rest)
      have joined : max (max deepest (level + item.depth))
            (level + itemsDepth (next :: rest)) =
          max deepest (level + max item.depth (itemsDepth (next :: rest))) := by
        omega
      rw [itemTokens, List.foldl_append, first, itemsDepth, ← joined]
      · exact later
      · simp

theorem run_memberTokens (level deepest : Nat) (counted : level ≤ deepest)
    (members : List (Option String × Json)) :
    (memberTokens members).foldl Nesting.step ⟨level, deepest⟩ =
      ⟨level, max deepest (level + membersDepth members)⟩ := by
  match members with
  | [] =>
      rw [memberTokens, membersDepth, Nat.add_zero, Nat.max_eq_left counted]
      rfl
  | [(key, value)] =>
      rw [memberTokens, membersDepth, membersDepth, Nat.max_zero]
      exact run_tokens level deepest counted value
  | (key, value) :: next :: rest =>
      have first := run_tokens level deepest counted value
      have later := run_memberTokens level (max deepest (level + value.depth)) (by omega)
        (next :: rest)
      have joined : max (max deepest (level + value.depth))
            (level + membersDepth (next :: rest)) =
          max deepest (level + max value.depth (membersDepth (next :: rest))) := by
        omega
      rw [memberTokens, List.cons_append, List.cons_append, List.foldl_cons,
        List.foldl_cons, List.foldl_append, membersDepth, ← joined, ← later]
      · exact congrArg
          (fun nesting => (Token.comma :: memberTokens (next :: rest)).foldl step nesting)
          first
      · simp

end

end Nesting

/-- How deep the brackets of a text are nested, those inside strings aside. -/
def bracketDepth (text : String) : Nat :=
  ((tokenize text.toList).foldl Nesting.step ⟨0, 0⟩).deepest

theorem bracketDepth_of_writtenAs {json : Json} {text : String}
    (written : json.WrittenAs text) : bracketDepth text = json.depth := by
  rw [bracketDepth, tokenize_of_spelledBy written.2, Nesting.run_tokens 0 0 (Nat.le_refl 0)]
  simp

theorem bracketDepth_compact {json : Json}
    (spellable : json.Spellable Numeral.WritesInteger) :
    bracketDepth json.compact = json.depth :=
  bracketDepth_of_writtenAs (writtenAs_compact spellable)

end RsaAudit.Json
