import RsaAudit.Proofs.Files.Growth

/-!
# Files that are made

Writing to a path under which there is nothing makes one file, in a directory that is
there and under a name that is new.  All names stay distinct, nothing else comes into
being, and to write the same text again changes nothing.

Below a directory, the new file is the only document that can be new, and a search opens
the same directories as before.
-/

namespace RsaAudit

/-! ## Names on a path -/

namespace Path

theorem slash_notMem_of_mem_pieces {chars piece : List Char} (member : piece ∈ pieces chars) :
    '/' ∉ piece := by
  induction chars generalizing piece with
  | nil =>
      rw [pieces, List.mem_singleton] at member
      simp [member]
  | cons char rest ih =>
      rw [pieces] at member
      split at member
      case isTrue =>
        rcases List.mem_cons.mp member with rfl | later
        · simp
        · exact ih later
      case isFalse noSlash =>
        cases found : pieces rest with
        | nil => exact absurd found (pieces_ne_nil rest)
        | cons first later =>
            rw [found] at member ih
            rcases List.mem_cons.mp member with rfl | inLater
            · have restClean := ih List.mem_cons_self
              simp [restClean, Ne.symm noSlash]
            · exact ih (List.mem_cons_of_mem first inLater)

theorem isName_of_mem_names {path name : String} (member : name ∈ names path) :
    IsName name := by
  rw [names, List.mem_map] at member
  obtain ⟨piece, kept, rfl⟩ := member
  rw [List.mem_filter] at kept
  constructor
  · simpa [String.ext_iff] using kept.2
  · rw [String.toList_ofList]
    exact slash_notMem_of_mem_pieces kept.1

end Path

/-! ## One more child -/

namespace Entry

theorem modifyChild_modifyChild (name : String) (first second : Entry → Entry)
    (children : List (String × Entry)) :
    modifyChild name second (modifyChild name first children) =
      modifyChild name (fun entry => second (first entry)) children := by
  induction children with
  | nil => simp [modifyChild]
  | cons child rest ih =>
      obtain ⟨other, entry⟩ := child
      by_cases same : other = name
      · simp [modifyChild, same]
      · simp [modifyChild, same, ih]

theorem put_put (new old : Entry) (location : List String) (root : Entry) :
    put new location (put old location root) = put new location root := by
  induction location generalizing root with
  | nil => rfl
  | cons name rest ih =>
      cases root with
      | directory children => simp [put, modifyChild_modifyChild, ih]
      | _ => simp [put, modifyChild, ih]

theorem modifyChild_of_absent {children : List (String × Entry)} {name : String}
    (absent : children.lookup name = none) (change : Entry → Entry) :
    modifyChild name change children = children ++ [(name, change (.directory []))] := by
  induction children with
  | nil => rfl
  | cons child rest ih =>
      obtain ⟨other, entry⟩ := child
      rw [List.lookup_cons] at absent
      split at absent
      case h_1 => cases absent
      case h_2 different =>
        have notName : other ≠ name := by
          rintro rfl
          simp at different
        rw [modifyChild, if_neg notName, ih absent, List.cons_append]

theorem modifyChild_of_present {children : List (String × Entry)} {name : String}
    {entry : Entry} (named : children.lookup name = some entry) (change : Entry → Entry) :
    ∃ before after, children = before ++ (name, entry) :: after ∧
      modifyChild name change children = before ++ (name, change entry) :: after := by
  induction children with
  | nil => cases named
  | cons child rest ih =>
      obtain ⟨other, found⟩ := child
      by_cases same : other = name
      · subst same
        obtain rfl : found = entry := by simpa using named
        exact ⟨[], rest, rfl, by simp [modifyChild]⟩
      · rw [List.lookup_cons, beq_false_of_ne (Ne.symm same)] at named
        obtain ⟨before, after, split, changed⟩ := ih named
        refine ⟨(other, found) :: before, after, by simp [split], ?_⟩
        rw [modifyChild, if_neg same, changed, List.cons_append]

section

variable {root : Entry} {outer : List String} {children : List (String × Entry)}
  {name : String} {text : Option String}

/-- A new name keeps the names of a directory distinct. -/
theorem WellNamed.put_file (wellNamed : root.WellNamed)
    (here : root.at? outer = some (.directory children))
    (absent : children.lookup name = none) (isName : Path.IsName name) :
    (put (.file text) (outer ++ [name]) root).WellNamed := by
  induction outer generalizing root with
  | nil =>
      cases here
      obtain ⟨distinct, names⟩ := wellNamed [] children (.here _)
      have fresh : name ∉ children.map Prod.fst := by
        intro member
        obtain ⟨⟨_, entry⟩, listed, rfl⟩ := List.mem_map.mp member
        rw [lookup_eq_some_of_nodup distinct listed] at absent
        cases absent
      rw [List.nil_append, put, modifyChild_of_absent absent]
      apply wellNamed_directory
      · rw [List.map_append, List.nodup_append]
        refine ⟨distinct, List.nodup_singleton _, ?_⟩
        intro first member second isLast same
        rw [List.map_singleton, List.mem_singleton] at isLast
        rw [same, isLast] at member
        exact fresh member
      · intro child listed
        rcases List.mem_append.mp listed with old | isLast
        · exact ⟨names child old, wellNamed.child old⟩
        · rw [List.mem_singleton.mp isLast]
          exact ⟨isName, wellNamed_of_not_directory rfl⟩
  | cons first rest ih =>
      obtain ⟨siblings, rfl⟩ := exists_directory_of_at? here
      obtain ⟨child, named, further⟩ := Option.bind_eq_some_iff.mp here
      obtain ⟨before, after, split, changed⟩ :=
        modifyChild_of_present named (put (.file text) (rest ++ [name]))
      obtain ⟨distinct, names⟩ := wellNamed [] siblings (.here _)
      have below := ih (wellNamed.child (mem_of_lookup named)) further
      rw [List.cons_append, put, changed]
      apply wellNamed_directory
      · simpa [split] using distinct
      · intro other listed
        rcases List.mem_append.mp listed with inBefore | inRest
        · have old : other ∈ siblings := by simp [split, inBefore]
          exact ⟨names other old, wellNamed.child old⟩
        · rcases List.mem_cons.mp inRest with rfl | inAfter
          · exact ⟨names (first, child) (mem_of_lookup named), below⟩
          · have old : other ∈ siblings := by simp [split, inAfter]
            exact ⟨names other old, wellNamed.child old⟩

/-- Nothing else comes into being. -/
theorem at?_of_put_file {other : List String} {found : Entry}
    (here : root.at? outer = some (.directory children))
    (absent : children.lookup name = none)
    (there : (put (.file text) (outer ++ [name]) root).at? other = some found) :
    other = outer ++ [name] ∨
      ∃ old, root.at? other = some old ∧ FileTree.Unchanged old found := by
  induction outer generalizing root other with
  | nil =>
      cases here
      cases other with
      | nil =>
          cases there
          exact .inr ⟨_, rfl, .inr ⟨rfl, rfl⟩⟩
      | cons next later =>
          rw [List.nil_append, put, at?] at there
          by_cases same : next = name
          · subst same
            rw [lookup_modifyChild_self, Option.bind_some, put] at there
            cases later with
            | nil => exact .inl rfl
            | cons _ _ => cases there
          · rw [lookup_modifyChild_of_ne same] at there
            exact .inr ⟨found, there, .inl rfl⟩
  | cons first rest ih =>
      obtain ⟨siblings, rfl⟩ := exists_directory_of_at? here
      obtain ⟨child, named, further⟩ := Option.bind_eq_some_iff.mp here
      cases other with
      | nil =>
          cases there
          exact .inr ⟨_, rfl, .inr ⟨rfl, rfl⟩⟩
      | cons next later =>
          rw [List.cons_append, put, at?] at there
          by_cases same : next = first
          · subst same
            rw [lookup_modifyChild_self, Option.bind_some, named] at there
            rcases ih further there with isNew | ⟨old, inChild, unchanged⟩
            · exact .inl (by rw [isNew]; rfl)
            · exact .inr ⟨old, by rw [at?, named]; exact inChild, unchanged⟩
          · rw [lookup_modifyChild_of_ne same] at there
            exact .inr ⟨found, there, .inl rfl⟩

end

end Entry

/-! ## Writing where there is nothing -/

namespace FileTree

theorem Leads.isName_of_absent {root : Entry} {purpose : Purpose} {links : Nat}
    {start finish : List String} {route : Route}
    (leads : Leads root purpose links start route finish)
    (areNames : ∀ name ∈ route.names, Path.IsName name)
    (startsSomewhere : route.names = [] → route.slash = false →
      ∃ entry, root.at? start = some entry)
    (absent : root.at? finish = none) {outer : List String} {name : String}
    (last : finish = outer ++ [name]) : Path.IsName name := by
  induction leads with
  | @arrive links location slash directory =>
      cases slash with
      | false =>
          obtain ⟨entry, here⟩ := startsSomewhere rfl rfl
          cases absent.symm.trans here
      | true =>
          obtain ⟨children, here⟩ := directory rfl
          cases absent.symm.trans here
  | stay here _ ih =>
      obtain ⟨-, later⟩ := List.forall_mem_cons.mp areNames
      exact ih later (fun _ _ => ⟨_, here⟩) absent last
  | back here _ ih =>
      obtain ⟨-, later⟩ := List.forall_mem_cons.mp areNames
      obtain ⟨siblings, above⟩ := Entry.exists_directory_dropLast here
      exact ih later (fun _ _ => ⟨_, above⟩) absent last
  | stop here _ _ =>
      obtain ⟨-, same⟩ := List.append_inj' last rfl
      cases same
      exact areNames _ List.mem_cons_self
  | @follow links location _ rest _ _ _ target here _ _ _ ih =>
      -- The names after a link come from its target, or are still to go.
      obtain ⟨-, later⟩ := List.forall_mem_cons.mp areNames
      refine ih ?_ ?_ absent last
      · intro other member
        rcases List.mem_append.mp member with ofTarget | ofRest
        · exact Path.isName_of_mem_names ofTarget
        · exact later other ofRest
      · intro _ _
        split
        · obtain ⟨siblings, above⟩ := Entry.exists_directory_root here
          exact ⟨_, above⟩
        · exact ⟨_, here⟩
  | enter here _ named _ _ ih =>
      obtain ⟨-, later⟩ := List.forall_mem_cons.mp areNames
      exact ih later (fun _ _ => ⟨_, (Entry.at?_concat here _).trans named⟩) absent last

/-- A text has been written to a path under which there was nothing: there is a new file
at a location, in a directory that was there. -/
structure MakesFile (tree : FileTree) (path text : String) (location : List String)
    (after : FileTree) : Prop where
  resolved : tree.resolve .create path = .ok location
  unused : ∃ outer name children, location = outer ++ [name] ∧ Path.IsName name ∧
    tree.root.at? outer = some (.directory children) ∧ children.lookup name = none
  result : after = tree.put location (.file (some text))

theorem makesFile_of_write {tree after : FileTree} {path text : String}
    (absent : tree.look.exists path = false) (written : tree.write path text = .ok after) :
    ∃ location, tree.MakesFile path text location after := by
  obtain ⟨location, resolved, noDirectory, result⟩ := write_cases written
  have found : tree.resolve .find path = .ok location :=
    resolve_of_guides (.refl tree.root) rfl nofun resolved
  have nothing : tree.root.at? location = none := by
    cases here : tree.root.at? location with
    | none => rfl
    | some entry =>
        rw [FileView.exists, look_eq_ok_iff.mpr ⟨location, found, here⟩] at absent
        cases absent
  refine ⟨location, resolved, ?_, ?_⟩
  · rcases isEnd_of_resolve resolved with ⟨entry, here, -⟩ | ⟨outer, name, children, last, here,
      unused⟩
    · cases nothing.symm.trans here
    · obtain ⟨nonempty, -, -, leads⟩ := resolve_eq_ok_iff.mp resolved
      have isName : Path.IsName name := by
        refine leads.isName_of_absent (fun _ => Path.isName_of_mem_names) ?_ nothing last
        intro noNames noSlash
        cases noSlash.symm.trans (Path.endsInSlash_of_names nonempty noNames)
      exact ⟨outer, name, children, last, isName, here, unused⟩
  · rcases result with ⟨device, -⟩ | result
    · cases nothing.symm.trans device
    · exact result

namespace MakesFile

variable {tree after : FileTree} {path text : String} {location : List String}
  (makes : tree.MakesFile path text location after)

include makes

theorem growth : tree.GrowsInto after := by
  obtain ⟨outer, name, children, last, -, here, unused⟩ := makes.unused
  rw [makes.result, last]
  exact growsInto_put here unused (Entry.linkless_file _)

theorem wellNamed (treeNamed : tree.root.WellNamed) : after.root.WellNamed := by
  obtain ⟨outer, name, children, last, isName, here, unused⟩ := makes.unused
  rw [makes.result, last]
  exact treeNamed.put_file here unused isName

theorem absent : tree.root.at? location = none := by
  obtain ⟨outer, name, children, rfl, -, here, unused⟩ := makes.unused
  exact (Entry.at?_concat here name).trans unused

theorem at?_location : after.root.at? location = some (.file (some text)) := by
  rw [makes.result]
  exact Entry.at?_put_self _ _ _

theorem at?_cases {other : List String} {found : Entry}
    (there : after.root.at? other = some found) :
    other = location ∨ ∃ old, tree.root.at? other = some old ∧ Unchanged old found := by
  obtain ⟨outer, name, children, last, -, here, unused⟩ := makes.unused
  rw [makes.result, last] at there
  rw [last]
  exact Entry.at?_of_put_file here unused there

theorem at?_of_file {other : List String} {content : Option String}
    (there : after.root.at? other = some (.file content)) :
    other = location ∨ tree.root.at? other = some (.file content) := by
  rcases makes.at?_cases there with isLocation | ⟨old, inTree, rfl | ⟨-, isDirectory⟩⟩
  · exact .inl isLocation
  · exact .inr inTree
  · cases isDirectory

theorem at?_of_directory {other : List String} {inner : List (String × Entry)}
    (there : after.root.at? other = some (.directory inner)) :
    ∃ old, tree.root.at? other = some (.directory old) := by
  rcases makes.at?_cases there with rfl | ⟨old, inTree, rfl | ⟨isDirectory, -⟩⟩
  · cases makes.at?_location.symm.trans there
  · exact ⟨inner, inTree⟩
  · cases old with
    | directory children => exact ⟨children, inTree⟩
    | _ => cases isDirectory

theorem resolve_find : after.resolve .find path = .ok location :=
  resolve_of_guides makes.growth.guides makes.growth.workingDirectory nofun makes.resolved

/-- To write the same text once more changes nothing. -/
theorem write_again : after.write path text = .ok after := by
  rw [write, store, makes.growth.resolve makes.resolved, ok_bind, makes.at?_location]
  simp only [makes.result, put, Entry.put_put]
  rfl

section

variable {root : String} {base : List String} {children more : List (String × Entry)}
  (treeNamed : tree.root.WellNamed) (here : tree.look root = .ok (.directory children))
  (there : after.look root = .ok (.directory more))
  (resolved : tree.resolve .find root = .ok base)

include treeNamed here there resolved

theorem opensBelow (opens : tree.look.OpensBelow root (.directory children)) :
    after.look.OpensBelow root (.directory more) := by
  obtain ⟨other, otherResolved, found⟩ := look_eq_ok_iff.mp here
  obtain rfl : base = other := Except.ok.inj (resolved.symm.trans otherResolved)
  obtain ⟨last, lastResolved, afterFound⟩ := look_eq_ok_iff.mp there
  obtain rfl : base = last :=
    Except.ok.inj ((makes.growth.resolve resolved).symm.trans lastResolved)
  rintro way ⟨inner, below, reached, shown⟩
  have inAfter : after.root.at? (base ++ way) = some (.directory inner) := by
    rw [Entry.at?_append, afterFound]
    exact ((makes.wellNamed treeNamed).at? afterFound).at?_of_reaches reached
  obtain ⟨old, inTree⟩ := makes.at?_of_directory inAfter
  rw [Entry.at?_append, found] at inTree
  obtain ⟨opened, isDirectory⟩ := opens way ⟨old, below, Entry.reaches_of_at? inTree, shown⟩
  exact makes.growth.look_directory isDirectory

/-- The documents below a directory that are new are the file that has been made. -/
theorem isNew_iff {way : List String} (holds : (Entry.directory more).HoldsDocument way) :
    ¬ (Entry.directory children).HoldsDocument way ↔ base ++ way = location := by
  obtain ⟨other, otherResolved, found⟩ := look_eq_ok_iff.mp here
  obtain rfl : base = other := Except.ok.inj (resolved.symm.trans otherResolved)
  obtain ⟨last, lastResolved, afterFound⟩ := look_eq_ok_iff.mp there
  obtain rfl : base = last := Except.ok.inj ((makes.growth.resolve resolved).symm.trans lastResolved)
  obtain ⟨⟨content, reached⟩, shown, known⟩ := holds
  constructor
  · intro isNew
    have inAfter : after.root.at? (base ++ way) = some (.file content) := by
      rw [Entry.at?_append, afterFound]
      exact ((makes.wellNamed treeNamed).at? afterFound).at?_of_reaches reached
    rcases makes.at?_of_file inAfter with isLocation | old
    · exact isLocation
    · rw [Entry.at?_append, found] at old
      exact absurd ⟨⟨content, Entry.reaches_of_at? old⟩, shown, known⟩ isNew
  · rintro rfl ⟨⟨old, oldReached⟩, -⟩
    have inTree : tree.root.at? (base ++ way) = some (.file old) := by
      rw [Entry.at?_append, found]
      exact (treeNamed.at? found).at?_of_reaches oldReached
    cases makes.absent.symm.trans inTree

/-- Either the documents below a directory are the same as before, or the file that has
been made is one more. -/
theorem documents_cases :
    (Entry.directory more).documents = (Entry.directory children).documents ∧
        (∀ way, base ++ way = location → ¬ (Entry.directory more).HoldsDocument way) ∨
      ∃ before way later, base ++ way = location ∧
        (Entry.directory more).HoldsDocument way ∧
        (Entry.directory more).documents = before ++ way :: later ∧
        (Entry.directory children).documents = before ++ later := by
  have moreNamed := GrowsInto.wellNamed_of_look (makes.wellNamed treeNamed) there
  have kept := makes.growth.filter_documents treeNamed (makes.wellNamed treeNamed) here there
  have old_iff {way : List String} (listed : way ∈ (Entry.directory more).documents) :
      way ∈ (Entry.directory children).documents ↔ base ++ way ≠ location := by
    rw [Ne, ← makes.isNew_iff treeNamed here there resolved (Entry.mem_documents.mp listed),
      not_not, Entry.mem_documents]
  by_cases isDocument : ∃ way, base ++ way = location ∧ (Entry.directory more).HoldsDocument way
  · right
    obtain ⟨way, isLocation, holds⟩ := isDocument
    have distinct := Entry.nodup_of_pairwise (Entry.pairwise_documents _ moreNamed)
    obtain ⟨before, later, split⟩ := List.append_of_mem (Entry.mem_documents.mpr holds)
    refine ⟨before, way, later, isLocation, holds, split, ?_⟩
    have others : ∀ other ∈ before ++ later, other ∈ (Entry.directory children).documents := by
      intro other member
      have listed : other ∈ (Entry.directory more).documents := by
        rw [split]
        rcases List.mem_append.mp member with inBefore | inLater
        · exact List.mem_append_left _ inBefore
        · exact List.mem_append_right _ (List.mem_cons_of_mem way inLater)
      rw [old_iff listed]
      intro same
      obtain rfl : other = way := List.append_cancel_left (same.trans isLocation.symm)
      rw [split, List.nodup_middle, List.nodup_cons] at distinct
      exact distinct.1 member
    have isNew : way ∉ (Entry.directory children).documents := by
      rw [old_iff (Entry.mem_documents.mpr holds), not_not]
      exact isLocation
    rw [← kept, split, List.filter_append, List.filter_cons_of_neg (by simpa using isNew),
      ← List.filter_append, List.filter_eq_self]
    intro other member
    exact decide_eq_true (others other member)
  · left
    have none (way : List String) (isLocation : base ++ way = location) :
        ¬ (Entry.directory more).HoldsDocument way := by
      intro holds
      exact isDocument ⟨way, isLocation, holds⟩
    refine ⟨?_, none⟩
    rw [← kept, eq_comm, List.filter_eq_self]
    intro way listed
    refine decide_eq_true ((old_iff listed).mpr ?_)
    intro isLocation
    exact none way isLocation (Entry.mem_documents.mp listed)

end

end MakesFile

end FileTree

end RsaAudit
