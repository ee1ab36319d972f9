/-!
# The first fault of a list of steps

Many passes over a list stop at the first item that has a fault and otherwise
collect a value for every item.  Such a pass is described by two plain functions:
the fault of an item, if it has one, and the value of an item without fault.

In the other direction, a pass that has gone through has had no fault at any of its
steps, so what each of them gives can be taken apart.
-/

namespace RsaAudit

/-- A value, unless there is a fault. -/
def unlessFault {Fault Value : Type} (fault : Option Fault) (value : Value) :
    Except Fault Value :=
  match fault with
  | some fault => .error fault
  | none => .ok value

section

variable {Item Fault Value : Type}

/-- Of a list of items the first fault counts; without one, all values are there. -/
theorem mapM_of_unlessFault {items : List Item} {run : Item → Except Fault Value}
    {fault : Item → Option Fault} {value : Item → Value}
    (steps : ∀ item ∈ items, run item = unlessFault (fault item) (value item)) :
    items.mapM run = unlessFault (items.findSome? fault) (items.map value) := by
  induction items with
  | nil => rfl
  | cons item rest ih =>
      obtain ⟨first, later⟩ := List.forall_mem_cons.mp steps
      rw [List.mapM_cons, first, ih later, List.findSome?_cons]
      cases fault item with
      | some found => rfl
      | none => cases rest.findSome? fault <;> rfl

/-- A pass whose steps all succeed collects their values. -/
theorem mapM_of_ok {items : List Item} {run : Item → Except Fault Value}
    {value : Item → Value}
    (steps : ∀ item ∈ items, run item = .ok (value item)) :
    items.mapM run = .ok (items.map value) := by
  have collected :
      items.mapM run =
        unlessFault (items.findSome? fun _ => none) (items.map value) :=
    mapM_of_unlessFault steps
  rw [collected, List.findSome?_eq_none_iff.mpr fun _ _ => rfl]
  rfl

theorem ok_bind {Found : Type} (found : Found) (next : Found → Except Fault Value) :
    Except.ok found >>= next = next found :=
  rfl

theorem bind_eq_ok_iff {Found : Type} {first : Except Fault Found}
    {next : Found → Except Fault Value} {value : Value} :
    first >>= next = .ok value ↔ ∃ found, first = .ok found ∧ next found = .ok value := by
  cases first with
  | error fault => exact ⟨nofun, nofun⟩
  | ok found =>
      constructor
      · intro passed
        exact ⟨found, rfl, passed⟩
      · rintro ⟨other, same, passed⟩
        rw [Except.ok.inj same]
        exact passed

theorem map_eq_ok_iff {Found : Type} {make : Found → Value} {first : Except Fault Found}
    {value : Value} :
    make <$> first = .ok value ↔ ∃ found, first = .ok found ∧ make found = value := by
  cases first with
  | error fault => exact ⟨nofun, nofun⟩
  | ok found =>
      constructor
      · intro passed
        exact ⟨found, rfl, Except.ok.inj passed⟩
      · rintro ⟨other, same, rfl⟩
        rw [Except.ok.inj same]
        rfl

theorem exists_of_mapM_eq_ok {items : List Item} {run : Item → Except Fault Value}
    {values : List Value} (passed : items.mapM run = .ok values) {value : Value}
    (collected : value ∈ values) : ∃ item ∈ items, run item = .ok value := by
  induction items generalizing values with
  | nil =>
      cases passed
      cases collected
  | cons item rest ih =>
      rw [List.mapM_cons] at passed
      obtain ⟨first, ofItem, passed⟩ := bind_eq_ok_iff.mp passed
      obtain ⟨later, ofRest, passed⟩ := bind_eq_ok_iff.mp passed
      cases passed
      rcases List.mem_cons.mp collected with rfl | inRest
      · exact ⟨item, List.mem_cons_self, ofItem⟩
      · obtain ⟨source, member, ofSource⟩ := ih ofRest inRest
        exact ⟨source, List.mem_cons_of_mem item member, ofSource⟩

theorem exists_of_optionMapM_eq_ok {item? : Option Item}
    {run : Item → Except Fault Value} {value : Value}
    (passed : item?.mapM run = .ok (some value)) :
    ∃ item, item? = some item ∧ run item = .ok value := by
  cases item? with
  | none => cases passed
  | some item =>
      obtain ⟨found, ofItem, same⟩ := map_eq_ok_iff.mp passed
      cases same
      exact ⟨item, rfl, ofItem⟩

/-- A pass whose steps all succeed ends where the last one leads, if it is known what
there is after any number of items. -/
theorem foldlM_of_ok {State : Type} {step : State → Item → Except Fault State}
    {items : List Item} (progress : List Item → State)
    (steps : ∀ before item after, items = before ++ item :: after →
      step (progress before) item = .ok (progress (before ++ [item]))) :
    items.foldlM step (progress []) = .ok (progress items) := by
  have onward (before rest : List Item) (all : items = before ++ rest) :
      rest.foldlM step (progress before) = .ok (progress items) := by
    induction rest generalizing before with
    | nil => rw [all, List.append_nil]; rfl
    | cons item rest ih =>
        rw [List.foldlM_cons, steps before item rest all, ok_bind]
        exact ih (before ++ [item]) (by rw [all, List.append_cons])
  exact onward [] items rfl

/-- What every step keeps, a pass keeps, also if it depends on the items so far. -/
theorem foldlM_invariant_before {State : Type} {step : State → Item → Except Fault State}
    {items : List Item} {start finish : State} (invariant : List Item → State → Prop)
    (initially : invariant [] start) (passed : items.foldlM step start = .ok finish)
    (kept : ∀ before, ∀ item ∈ items, ∀ state next, invariant before state →
      step state item = .ok next → invariant (before ++ [item]) next) :
    invariant items finish := by
  have onward (before rest : List Item) (state : State) (included : rest ⊆ items)
      (holds : invariant before state) (passed : rest.foldlM step state = .ok finish) :
      invariant (before ++ rest) finish := by
    induction rest generalizing before state with
    | nil =>
        cases passed
        rw [List.append_nil]
        exact holds
    | cons item rest ih =>
        obtain ⟨present, included⟩ := List.cons_subset.mp included
        rw [List.foldlM_cons] at passed
        obtain ⟨next, stepped, passed⟩ := bind_eq_ok_iff.mp passed
        rw [List.append_cons]
        exact ih (before ++ [item]) next included (kept before item present state next holds stepped)
          passed
  exact onward [] items start (List.Subset.refl items) initially passed

theorem exists_of_foldlM_eq_ok {State : Type} {step : State → Item → Except Fault State}
    {items : List Item} {start finish : State} (passed : items.foldlM step start = .ok finish)
    {item : Item} (present : item ∈ items) : ∃ before after, step before item = .ok after := by
  induction items generalizing start with
  | nil => cases present
  | cons first rest ih =>
      rw [List.foldlM_cons] at passed
      obtain ⟨next, stepped, passed⟩ := bind_eq_ok_iff.mp passed
      rcases List.mem_cons.mp present with rfl | later
      · exact ⟨start, next, stepped⟩
      · exact ih passed later

/-- What every step keeps, a pass keeps. -/
theorem foldlM_invariant {State : Type} {step : State → Item → Except Fault State}
    {items : List Item} {start finish : State} (invariant : State → Prop)
    (initially : invariant start) (passed : items.foldlM step start = .ok finish)
    (kept : ∀ item ∈ items, ∀ before after, invariant before →
      step before item = .ok after → invariant after) :
    invariant finish :=
  foldlM_invariant_before (fun _ => invariant) initially passed
    fun _ item present state next => kept item present state next

end

end RsaAudit
