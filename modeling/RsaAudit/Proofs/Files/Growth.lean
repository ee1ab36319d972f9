import RsaAudit.Proofs.Files.Tree

/-!
# Trees that grow

Further files and directories in a tree do not show to anyone who does not look for
them: what was found under a path is still found there.  Below a directory, the
documents that were there are still there, in the same order, with the new ones in
between.
-/

namespace RsaAudit.FileTree

/-- An entry is the same as another one, or both are directories. -/
def Unchanged (entry found : Entry) : Prop :=
  found = entry ∨ entry.isDirectory = true ∧ found.isDirectory = true

/-- Everything in a tree is also in another one, where directories may list more;
whatever else is there is no link. -/
structure GrowsInto (tree grown : FileTree) : Prop where
  workingDirectory : grown.workingDirectory = tree.workingDirectory
  entries : tree.root.Resembles Unchanged grown.root

/-- A tree grows by an entry that is put under a new name of a directory. -/
theorem growsInto_put {tree : FileTree} {location : List String} {name : String}
    {children : List (String × Entry)}
    (here : tree.root.at? location = some (.directory children))
    (absent : children.lookup name = none) {entry : Entry} (linkless : entry.Linkless) :
    tree.GrowsInto (tree.put (location ++ [name]) entry) where
  workingDirectory := rfl
  entries := by
    refine Entry.resembles_put (fun _ => .inl rfl) (fun _ _ => .inr ⟨rfl, rfl⟩)
      (Entry.free_append here (.unused absent)) linkless ?_
    intro replaced found
    rw [Entry.at?_concat here, absent] at found
    cases found

namespace GrowsInto

variable {tree grown : FileTree}

theorem directory (growth : tree.GrowsInto grown) {location : List String}
    {children : List (String × Entry)}
    (here : tree.root.at? location = some (.directory children)) :
    ∃ more, grown.root.at? location = some (.directory more) := by
  obtain ⟨found, there, rfl | ⟨-, isDirectory⟩⟩ := growth.entries.kept here
  · exact ⟨children, there⟩
  · cases found with
    | directory more => exact ⟨more, there⟩
    | _ => cases isDirectory

theorem kept (growth : tree.GrowsInto grown) {location : List String} {entry : Entry}
    (noDirectory : entry.isDirectory = false)
    (here : tree.root.at? location = some entry) :
    grown.root.at? location = some entry := by
  obtain ⟨found, there, rfl | ⟨isDirectory, -⟩⟩ := growth.entries.kept here
  · exact there
  · cases noDirectory.symm.trans isDirectory

theorem guides (growth : tree.GrowsInto grown) : tree.root.Guides grown.root := by
  refine growth.entries.mono ?_
  rintro entry found (rfl | ⟨isDirectory, otherDirectory⟩)
  · exact ⟨rfl, fun _ => .rfl⟩
  · refine ⟨isDirectory.trans otherDirectory.symm, fun target => iff_of_false ?_ ?_⟩
    · rintro rfl
      cases otherDirectory
    · rintro rfl
      cases isDirectory

theorem resolve (growth : tree.GrowsInto grown) {purpose : Purpose} {path : String}
    {location : List String} (resolved : tree.resolve purpose path = .ok location) :
    grown.resolve purpose path = .ok location :=
  resolve_of_guides growth.guides growth.workingDirectory id resolved

theorem look (growth : tree.GrowsInto grown) {path : String} {entry : Entry}
    (noDirectory : entry.isDirectory = false) (found : tree.look path = .ok entry) :
    grown.look path = .ok entry := by
  obtain ⟨location, resolved, here⟩ := look_eq_ok_iff.mp found
  exact look_eq_ok_iff.mpr ⟨location, growth.resolve resolved, growth.kept noDirectory here⟩

theorem look_directory (growth : tree.GrowsInto grown) {path : String}
    {children : List (String × Entry)}
    (found : tree.look path = .ok (.directory children)) :
    ∃ more, grown.look path = .ok (.directory more) := by
  obtain ⟨location, resolved, here⟩ := look_eq_ok_iff.mp found
  obtain ⟨more, there⟩ := growth.directory here
  exact ⟨more, look_eq_ok_iff.mpr ⟨location, growth.resolve resolved, there⟩⟩

section

variable {path : String} {children more : List (String × Entry)}
  (growth : tree.GrowsInto grown) (treeNamed : tree.root.WellNamed)
  (grownNamed : grown.root.WellNamed)
  (here : tree.look path = .ok (.directory children))
  (there : grown.look path = .ok (.directory more))

include treeNamed here in
theorem wellNamed_of_look : (Entry.directory children).WellNamed := by
  obtain ⟨location, -, found⟩ := look_eq_ok_iff.mp here
  exact treeNamed.at? found

include growth treeNamed here there

theorem reaches_file {way : List String} {text : Option String}
    (reached : (Entry.directory children).Reaches way (.file text)) :
    (Entry.directory more).Reaches way (.file text) := by
  obtain ⟨location, resolved, found⟩ := look_eq_ok_iff.mp here
  obtain ⟨other, otherResolved, otherFound⟩ := look_eq_ok_iff.mp there
  -- The path leads to one location in both trees, and the file is kept at its own.
  cases (growth.resolve resolved).symm.trans otherResolved
  have inTree : tree.root.at? (location ++ way) = some (.file text) := by
    rw [Entry.at?_append, found]
    exact (treeNamed.at? found).at?_of_reaches reached
  have inGrown := growth.kept rfl inTree
  rw [Entry.at?_append, otherFound] at inGrown
  exact Entry.reaches_of_at? inGrown

theorem holdsDocument {way : List String}
    (holds : (Entry.directory children).HoldsDocument way) :
    (Entry.directory more).HoldsDocument way := by
  obtain ⟨⟨text, reached⟩, shown, known⟩ := holds
  exact ⟨⟨text, growth.reaches_file treeNamed here there reached⟩, shown, known⟩

include grownNamed

/-- Under the path of a document is the same file as before. -/
theorem look_document {way : List String}
    (holds : (Entry.directory children).HoldsDocument way) :
    grown.look (Path.joinAll path way) = tree.look (Path.joinAll path way) := by
  obtain ⟨text, shows⟩ := holds.shows
  have grownShows : (Entry.directory more).Shows way (.file text) :=
    ⟨shows.below, growth.reaches_file treeNamed here there shows.reached, shows.shown⟩
  rw [look_joinAll here (wellNamed_of_look treeNamed here) shows nofun,
    look_joinAll there (wellNamed_of_look grownNamed there) grownShows nofun]

/-- The documents that were there are found in the same order as before. -/
theorem filter_documents :
    (Entry.directory more).documents.filter (· ∈ (Entry.directory children).documents) =
      (Entry.directory children).documents := by
  refine Entry.eq_of_pairwise
    ((Entry.pairwise_documents _ (wellNamed_of_look grownNamed there)).filter _)
    (Entry.pairwise_documents _ (wellNamed_of_look treeNamed here)) fun way => ?_
  rw [List.mem_filter, decide_eq_true_eq]
  refine ⟨And.right, fun member => ⟨?_, member⟩⟩
  exact Entry.mem_documents.mpr
    (growth.holdsDocument treeNamed here there (Entry.mem_documents.mp member))

end

end GrowsInto

end RsaAudit.FileTree
