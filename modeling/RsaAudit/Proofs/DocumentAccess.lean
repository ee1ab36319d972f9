import RsaAudit.Proofs.CommandRun

/-!
# Access to the documents of a path

A path is looked at again and again: to validate it, to find its documents, and to load
each of them.  On a tree that a file system can store the three agree, with one
exception.  Documents are found name by name but loaded by their path, and a path can be
longer than what a file system takes.

So of the documents below a directory exactly those with such a path are not found again.
The others fail to load only for what is written in them.
-/

namespace RsaAudit

namespace Entry

/-- The path of a document tells its format. -/
theorem HoldsDocument.isSome_ofPath {entry : Entry} {way : List String}
    (holds : entry.HoldsDocument way) (wellNamed : entry.WellNamed) (path : String) :
    (DocumentFormat.ofPath (Path.joinAll path way)).isSome = true := by
  obtain ⟨⟨text, reached⟩, shown, stem, extension, known, last⟩ := holds
  have member : stem ++ "." ++ extension ∈ way := List.mem_of_getLast? last
  have notHidden : Path.isHidden (stem ++ "." ++ extension) = false := by
    rw [← Bool.not_eq_true, Path.isHidden_eq_true_iff]
    rintro ⟨rest, named⟩
    exact shown _ member rest named
  have notUp : stem ++ "." ++ extension ≠ ".." := shown _ member "."
  have notStay : stem ++ "." ++ extension ≠ "." := shown _ member ""
  have extended : Path.extension? (Path.joinAll path way) =
      Path.extensionOf (stem ++ "." ++ extension) := by
    cases way with
    | nil => cases last
    | cons name rest =>
        obtain ⟨front, ending⟩ := List.getLast?_eq_some_iff.mp last
        rw [Path.extension?, Path.names_joinAll (wellNamed.names reached), ending]
        simp [notStay, notUp]
  rw [DocumentFormat.ofPath, extended]
  exact (DocumentFormat.isSome_ofName_iff notHidden).mpr ⟨stem, extension, known, rfl⟩

end Entry

/-! ## Loading what has been found -/

namespace Program

theorem exists_of_parse_eq_error {format : DocumentFormat} {label content : String}
    {error : LoadError} (failed : parse format label content = .error error) :
    ∃ reason, error = .unparsable label reason := by
  unfold parse at failed
  split at failed
  case h_1 => cases failed
  case h_2 reason _ =>
    cases failed
    exact ⟨reason, rfl⟩

/-- Why a program is not loaded. -/
theorem load_eq_error_cases {view : FileView} {path : String} {error : LoadError}
    (failed : load view path = .error error) :
    view.exists path = false ∧ error = .notFound path ∨
      ∃ entry, view path = .ok entry ∧
        (DocumentFormat.ofPath path = none ∧ (∃ extension, error = .unsupportedFormat extension) ∨
          (DocumentFormat.ofPath path).isSome = true ∧
            ((∃ cause, entry.read = .error cause ∧ error = .unreadable path cause) ∨
              ∃ reason, error = .unparsable path reason)) := by
  unfold load at failed
  unfold FileView.exists
  cases found : view path with
  | error cause =>
      rw [found] at failed
      cases failed
      exact .inl ⟨rfl, rfl⟩
  | ok entry =>
      refine .inr ⟨entry, rfl, ?_⟩
      rw [found] at failed
      dsimp only at failed
      cases known : DocumentFormat.ofPath path with
      | none =>
          rw [known] at failed
          cases failed
          exact .inl ⟨rfl, _, rfl⟩
      | some format =>
          refine .inr ⟨rfl, ?_⟩
          rw [known] at failed
          dsimp only at failed
          cases content : entry.read with
          | error cause =>
              rw [content] at failed
              cases failed
              exact .inl ⟨cause, rfl, rfl⟩
          | ok text =>
              rw [content] at failed
              exact .inr (exists_of_parse_eq_error failed)

theorem exists_load_notFound_iff {view : FileView} {path : String} :
    (∃ missing, load view path = .error (.notFound missing)) ↔ view.exists path = false := by
  constructor
  · rintro ⟨missing, failed⟩
    rcases load_eq_error_cases failed with
      ⟨absent, -⟩ | ⟨entry, -, ⟨-, extension, other⟩ | ⟨-, ⟨cause, -, other⟩ | ⟨reason, other⟩⟩⟩
    · exact absent
    · cases other
    · cases other
    · cases other
  · intro absent
    rw [FileView.exists] at absent
    refine ⟨path, ?_⟩
    rw [load]
    cases found : view path with
    | error cause => rfl
    | ok entry =>
        rw [found] at absent
        cases absent

theorem exists_load_unsupportedFormat_iff {view : FileView} {path : String} :
    (∃ extension, load view path = .error (.unsupportedFormat extension)) ↔
      (∃ entry, view path = .ok entry) ∧ DocumentFormat.ofPath path = none := by
  constructor
  · rintro ⟨extension, failed⟩
    rcases load_eq_error_cases failed with
      ⟨-, other⟩ | ⟨entry, found, ⟨unknown, -⟩ | ⟨-, ⟨cause, -, other⟩ | ⟨reason, other⟩⟩⟩
    · cases other
    · exact ⟨⟨entry, found⟩, unknown⟩
    · cases other
    · cases other
  · rintro ⟨⟨entry, found⟩, unknown⟩
    rw [load, found, unknown]
    exact ⟨_, rfl⟩

/-- A file with a known format fails to load only for what is written in it. -/
theorem load_error_of_file {view : FileView} {path : String} {text : Option String}
    {error : LoadError} (found : view path = .ok (.file text))
    (known : (DocumentFormat.ofPath path).isSome = true)
    (failed : load view path = .error error) :
    error = .unreadable path .notText ∨ ∃ reason, error = .unparsable path reason := by
  rcases load_eq_error_cases failed with
    ⟨absent, -⟩ | ⟨entry, same, ⟨unknown, -⟩ | ⟨-, ⟨cause, unread, rfl⟩ | unparsable⟩⟩
  · rw [FileView.exists, found] at absent
    cases absent
  · rw [unknown] at known
    cases known
  · cases found.symm.trans same
    cases text with
    | none =>
        cases unread
        exact .inl rfl
    | some content => cases unread
  · exact .inr unparsable

end Program

/-- What is validated can be searched, and what is found can be loaded, unless a path is
too long.  Let a tree be one that a file system can store.  A path is valid exactly if it
can be searched, or if the search fails at a directory below it; this happens only if the
path of the directory has more than the greatest number of bytes.  Of the documents that
are found, those with such a path are reported as not found, and no others.  The format
is not supported exactly if the path is itself a file, so that nothing else is found, with
an extension that is not known.  So below a directory a document whose path is not too
long either loads or has a content that is no text or does not parse. -/
theorem load_discovered (tree : FileTree) (storable : tree.root.Storable) (path : String) :
    (validatePath tree.look path = .ok () ↔
      (∃ files, discover tree.look path = .ok files) ∨
        ∃ directory cause,
          discover tree.look path = .error (.scanFailed path directory cause)) ∧
      (∀ directory cause,
        discover tree.look path = .error (.scanFailed path directory cause) →
          Path.maxBytes < directory.utf8ByteSize ∧ cause = .nameTooLong) ∧
      ∀ files, discover tree.look path = .ok files → ∀ file ∈ files,
        ((∃ missing, Program.load tree.look file = .error (.notFound missing)) ↔
          Path.maxBytes < file.utf8ByteSize) ∧
        ((∃ extension, Program.load tree.look file = .error (.unsupportedFormat extension)) ↔
          files = [path] ∧ (∃ text, tree.look path = .ok (.file text)) ∧
            DocumentFormat.ofPath path = none) ∧
        ((∃ children, tree.look path = .ok (.directory children)) →
          file.utf8ByteSize ≤ Path.maxBytes →
          ∀ error, Program.load tree.look file = .error error →
            error = .unreadable file .notText ∨ ∃ reason, error = .unparsable file reason) := by
  refine ⟨validatePath_eq_ok_iff, ?_, ?_⟩
  · intro directory cause failed
    obtain ⟨children, way, found, holds, rfl, unopened⟩ := exists_of_discover_eq_scanFailed failed
    exact (FileTree.openError?_eq_some_iff storable found holds).mp unopened
  intro files discovered file member
  rw [Program.exists_load_notFound_iff, Program.exists_load_unsupportedFormat_iff]
  rcases discover_eq_ok_iff.mp discovered with ⟨text, found, rfl⟩ | ⟨children, found, -, rfl⟩
  · obtain rfl := List.mem_singleton.mp member
    obtain ⟨location, resolved, -⟩ := FileTree.look_eq_ok_iff.mp found
    obtain ⟨-, -, fits, -⟩ := FileTree.resolve_eq_ok_iff.mp resolved
    have present : tree.look.exists file = true := by
      rw [FileView.exists, found]
      rfl
    refine ⟨iff_of_false (by simp [present]) (Nat.not_lt.mpr fits), by simp [found], ?_⟩
    rintro ⟨children, directory⟩
    cases found.symm.trans directory
  · obtain ⟨way, listed, rfl⟩ := List.mem_map.mp member
    have holds := Entry.mem_documents.mp listed
    obtain ⟨location, -, here⟩ := FileTree.look_eq_ok_iff.mp found
    have known := holds.isSome_ofPath (storable.at? here).wellNamed path
    obtain ⟨text, shows⟩ := holds.shows
    have looked := FileTree.look_shown storable found shows nofun
    refine ⟨?_, ?_, ?_⟩
    · rw [FileView.exists, looked]
      split
      case isTrue long => exact iff_of_true rfl long
      case isFalse fits => exact iff_of_false nofun fits
    · refine iff_of_false ?_ ?_
      · rintro ⟨-, unknown⟩
        rw [unknown] at known
        cases known
      · rintro ⟨-, ⟨text, isFile⟩, -⟩
        cases found.symm.trans isFile
    · intro _ fits error failed
      rw [if_neg (Nat.not_lt.mpr fits)] at looked
      exact Program.load_error_of_file looked known failed

/-- A tree with a document that does not parse, one that is no text, a link and a device
with the names of documents, and a file that is none. -/
def oddTree : FileTree where
  root := .directory
    [("ir", .directory [("a.json", .file (some "[")), ("b.yaml", .file none),
      ("c.json", .link "gone"), ("d.json", .special)]),
      ("notes.txt", .file (some ""))]
  workingDirectory := []

theorem storable_oddTree : oddTree.root.Storable := by
  refine Entry.storable_directory (by decide) ?_
  rw [List.forall_mem_cons, List.forall_mem_singleton]
  refine ⟨⟨by decide, by decide, ?_⟩, by decide, by decide, Entry.storable_of_not_directory rfl⟩
  refine Entry.storable_directory (by decide) ?_
  simp only [List.forall_mem_cons]
  exact ⟨⟨by decide, by decide, Entry.storable_of_not_directory rfl⟩,
    ⟨by decide, by decide, Entry.storable_of_not_directory rfl⟩,
    ⟨by decide, by decide, Entry.storable_of_not_directory rfl⟩,
    ⟨by decide, by decide, Entry.storable_of_not_directory rfl⟩, List.forall_mem_nil _⟩

theorem load_discovered_oddTree :
    oddTree.root.Storable ∧
      validatePath oddTree.look "ir" = .ok () ∧
      discover oddTree.look "ir" = .ok ["ir/a.json", "ir/b.yaml"] ∧
      (∀ file ∈ ["ir/a.json", "ir/b.yaml"], ∀ error,
        Program.load oddTree.look file = .error error →
          error = .unreadable file .notText ∨ ∃ reason, error = .unparsable file reason) ∧
      ∃ extension,
        Program.load oddTree.look "notes.txt" = .error (.unsupportedFormat extension) := by
  have below : discover oddTree.look "ir" = .ok ["ir/a.json", "ir/b.yaml"] := by decide +kernel
  have single : discover oddTree.look "notes.txt" = .ok ["notes.txt"] := by decide +kernel
  obtain ⟨valid_iff, -, loads⟩ := load_discovered oddTree storable_oddTree "ir"
  obtain ⟨-, -, loadsSingle⟩ := load_discovered oddTree storable_oddTree "notes.txt"
  refine ⟨storable_oddTree, valid_iff.mpr (.inl ⟨_, below⟩), below, ?_, ?_⟩
  · intro file member
    refine (loads _ below file member).2.2 ⟨_, rfl⟩ ?_
    simp only [List.mem_cons, List.not_mem_nil, or_false] at member
    rcases member with rfl | rfl <;> decide
  · exact (loadsSingle _ single _ List.mem_cons_self).2.1.mpr
      ⟨rfl, ⟨_, rfl⟩, by decide +kernel⟩

/-- A document that is found and cannot be loaded: its directory has a path of four
thousand and ninety-two bytes, and its own path has six bytes more. -/
theorem load_notFound_singleTree :
    let tree := singleTree [("a.json", .file (some "[]"))]
    tree.root.Storable ∧
      ∃ file, discover tree.look (slashedPath 4090) = .ok [file] ∧
        ∃ missing, Program.load tree.look file = .error (.notFound missing) := by
  intro tree
  have storable : tree.root.Storable := by
    refine storable_singleTree (Entry.storable_directory (by decide) ?_)
    rw [List.forall_mem_singleton]
    exact ⟨by decide, by decide, Entry.storable_of_not_directory rfl⟩
  have fits : 4090 + 2 ≤ Path.maxBytes := by decide
  have found := look_slashedPath [("a.json", .file (some "[]"))] fits
  have ways : (Entry.directory [("a.json", .file (some "[]"))]).documents = [["a.json"]] := by
    decide +kernel
  have noDirectories : (Entry.directory [("a.json", .file (some "[]"))]).directories = [] := by
    decide +kernel
  have opens : tree.look.OpensBelow (slashedPath 4090)
      (.directory [("a.json", .file (some "[]"))]) := by
    intro way holds
    rw [← Entry.mem_directories, noDirectories] at holds
    cases holds
  have holds : (Entry.directory [("a.json", .file (some "[]"))]).HoldsDocument ["a.json"] := by
    rw [← Entry.mem_documents, ways]
    exact List.mem_cons_self
  obtain ⟨text, shows⟩ := holds.shows
  refine ⟨storable, Path.joinAll (slashedPath 4090) ["a.json"], ?_, ?_⟩
  · exact discover_eq_ok_iff.mpr (.inr ⟨_, found, opens, by rw [ways, List.map_singleton]⟩)
  · rw [Program.exists_load_notFound_iff, FileView.exists,
      FileTree.look_shown storable found shows nofun]
    -- The path is too long to be computed; what counts is the number of its slashes.
    rw [if_pos (Nat.lt_of_lt_of_le (by decide) (le_utf8ByteSize_slashedPath 4090 "a.json"))]
    rfl

end RsaAudit
