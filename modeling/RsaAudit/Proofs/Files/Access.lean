import RsaAudit.Proofs.Files.Tree

/-!
# Access by long paths

What is below a directory is found name by name, but it is opened by its path, and a path
can be longer than what a file system takes.  On a tree that a file system can store this
is the only thing that can go wrong: whatever is below a directory, and not hidden, is
found under its path unless the path has too many bytes.
-/

namespace RsaAudit

/-! ## Entries that can be stored -/

namespace Path

/-- A name that a file system can store. -/
def IsStorable (name : String) : Prop :=
  '\x00' ∉ name.toList ∧ name.utf8ByteSize ≤ maxNameBytes

instance (name : String) : Decidable (IsStorable name) :=
  inferInstanceAs (Decidable ('\x00' ∉ name.toList ∧ name.utf8ByteSize ≤ maxNameBytes))

theorem zero_notMem_joinAll {directory name : String} {rest : List String}
    (areNames : ∀ other ∈ name :: rest, IsName other)
    (storable : ∀ other ∈ name :: rest, IsStorable other)
    (noZero : '\x00' ∉ directory.toList) :
    '\x00' ∉ (joinAll directory (name :: rest)).toList := by
  have noZeroInStem : '\x00' ∉ (stem directory).toList := by
    unfold stem
    split
    · exact noZero
    · simpa using noZero
  have noZeroBelow : '\x00' ∉ slashed rest := by
    intro member
    obtain ⟨other, listed, found⟩ := List.mem_flatMap.mp member
    rcases List.mem_cons.mp found with isSlash | inName
    · cases isSlash
    · exact (storable other (List.mem_cons_of_mem name listed)).1 inName
  rw [toList_joinAll areNames]
  simp [noZeroInStem, noZeroBelow, (storable name List.mem_cons_self).1]

end Path

namespace Entry

/-- What file systems see to, the limits of names included. -/
structure Storable (entry : Entry) : Prop where
  wellNamed : entry.WellNamed
  names : ∀ way target, entry.Reaches way target → ∀ name ∈ way, Path.IsStorable name

theorem storable_of_not_directory {entry : Entry} (noDirectory : entry.isDirectory = false) :
    entry.Storable where
  wellNamed := wellNamed_of_not_directory noDirectory
  names := by
    intro way target reached
    cases reached with
    | here => exact List.forall_mem_nil _
    | enter => cases noDirectory

theorem storable_directory {children : List (String × Entry)}
    (distinct : (children.map Prod.fst).Nodup)
    (each : ∀ child ∈ children,
      Path.IsName child.1 ∧ Path.IsStorable child.1 ∧ child.2.Storable) :
    (directory children).Storable where
  wellNamed := wellNamed_directory distinct fun child listed =>
    ⟨(each child listed).1, (each child listed).2.2.wellNamed⟩
  names := by
    intro way target reached
    cases reached with
    | here => exact List.forall_mem_nil _
    | enter listed further =>
        obtain ⟨-, storable, below⟩ := each _ listed
        exact List.forall_mem_cons.mpr ⟨storable, below.names _ _ further⟩

theorem Storable.child {children : List (String × Entry)} {child : String × Entry}
    (storable : (directory children).Storable) (listed : child ∈ children) :
    child.2.Storable where
  wellNamed := storable.wellNamed.child listed
  names := by
    intro way target reached
    have all := storable.names (child.1 :: way) target (.enter listed reached)
    exact (List.forall_mem_cons.mp all).2

theorem Storable.at? {root entry : Entry} {location : List String} (storable : root.Storable)
    (here : root.at? location = some entry) : entry.Storable :=
  inherited_at? (fun _ names _ => names.child) storable here

end Entry

/-! ## Prolonged paths -/

namespace FileTree

section

variable {tree : FileTree} (storable : tree.root.Storable) {path : String}
  {children : List (String × Entry)} (directory : tree.look path = .ok (.directory children))

include storable directory

/-- Under the path of something below a directory is just that, unless the path is too
long. -/
theorem look_shown {way : List String} {target : Entry}
    (shows : (Entry.directory children).Shows way target)
    (noLink : ∀ aim, target ≠ .link aim) :
    tree.look (Path.joinAll path way) =
      if Path.maxBytes < (Path.joinAll path way).utf8ByteSize then .error .nameTooLong
      else .ok target := by
  obtain ⟨location, resolved, here⟩ := look_eq_ok_iff.mp directory
  obtain ⟨-, noZero, -, -⟩ := resolve_eq_ok_iff.mp resolved
  have below := storable.at? here
  have names := below.names way _ shows.reached
  have clean : '\x00' ∉ (Path.joinAll path way).toList := by
    cases way with
    | nil => exact absurd rfl shows.below
    | cons name rest =>
        exact Path.zero_notMem_joinAll (below.wellNamed.names shows.reached) names noZero
  have noLongName : ¬ ∃ name ∈ way, Path.maxNameBytes < name.utf8ByteSize := by
    rintro ⟨name, member, long⟩
    exact absurd (names name member).2 (Nat.not_le.mpr long)
  rw [look_joinAll directory below.wellNamed shows noLink, refusal?, if_neg clean]
  by_cases long : Path.maxBytes < (Path.joinAll path way).utf8ByteSize
  · rw [if_pos long, if_pos (.inl long)]
    rfl
  · rw [if_neg long, if_neg (not_or.mpr ⟨long, noLongName⟩)]
    rfl

/-- A search fails only at a directory whose path is too long. -/
theorem openError?_eq_some_iff {way : List String}
    (holds : (Entry.directory children).HoldsDirectory way) {cause : FileError} :
    tree.look.openError? (Path.joinAll path way) = some cause ↔
      Path.maxBytes < (Path.joinAll path way).utf8ByteSize ∧ cause = .nameTooLong := by
  obtain ⟨inner, shows⟩ := holds
  have looked := look_shown storable directory shows nofun
  by_cases long : Path.maxBytes < (Path.joinAll path way).utf8ByteSize
  · rw [if_pos long] at looked
    simp [FileView.openError?, looked, long, eq_comm]
  · rw [if_neg long] at looked
    simp [FileView.openError?, looked, long]

end

end FileTree

/-! ## A path with many slashes -/

namespace Path

theorem names_push_slash (path : String) : names (path.push '/') = names path := by
  rw [names, names, String.toList_push, pieces_append_slash, List.filter_append]
  simp [pieces]

theorem le_utf8ByteSize_join (directory name : String) :
    directory.utf8ByteSize + name.utf8ByteSize ≤ (join directory name).utf8ByteSize := by
  unfold join
  split
  · exact Nat.le_of_eq String.utf8ByteSize_append.symm
  · rw [String.utf8ByteSize_append, String.utf8ByteSize_append]
    omega

end Path

/-- A tree with one directory. -/
def singleTree (children : List (String × Entry)) : FileTree where
  root := .directory [("ir", .directory children)]
  workingDirectory := []

theorem storable_singleTree {children : List (String × Entry)}
    (storable : (Entry.directory children).Storable) : (singleTree children).root.Storable := by
  have isName : Path.IsName "ir" ∧ Path.IsStorable "ir" := by decide
  refine Entry.storable_directory (List.nodup_singleton _) ?_
  exact List.forall_mem_singleton.mpr ⟨isName.1, isName.2, storable⟩

/-- The path of its directory, with a number of slashes behind. -/
def slashedPath : Nat → String
  | 0 => "ir"
  | count + 1 => (slashedPath count).push '/'

theorem names_slashedPath (count : Nat) : Path.names (slashedPath count) = ["ir"] := by
  induction count with
  | zero => decide +kernel
  | succ count ih => rw [slashedPath, Path.names_push_slash, ih]

theorem utf8ByteSize_slashedPath (count : Nat) :
    (slashedPath count).utf8ByteSize = count + 2 := by
  induction count with
  | zero => rfl
  | succ count ih =>
      rw [slashedPath, String.utf8ByteSize_push, ih]
      change count + 2 + 1 = _
      omega

theorem toList_slashedPath (count : Nat) :
    (slashedPath count).toList = ['i', 'r'] ++ List.replicate count '/' := by
  induction count with
  | zero => rfl
  | succ count ih =>
      rw [slashedPath, String.toList_push, ih, List.append_assoc, List.replicate_succ']

theorem look_slashedPath (children : List (String × Entry)) {count : Nat}
    (fits : count + 2 ≤ Path.maxBytes) :
    (singleTree children).look (slashedPath count) = .ok (.directory children) := by
  have chars := toList_slashedPath count
  have notEmpty : slashedPath count ≠ "" := by
    intro empty
    rw [empty] at chars
    cases chars
  have noZero : ¬ (slashedPath count).toList.contains '\x00' = true := by
    rw [chars]
    simp
  have notLong : ¬ Path.maxBytes < (slashedPath count).utf8ByteSize := by
    rw [utf8ByteSize_slashedPath]
    omega
  refine FileTree.look_eq_ok_iff.mpr ⟨["ir"], ?_, rfl⟩
  have relative : (singleTree children).origin (slashedPath count) = [] := by
    rw [FileTree.origin]
    split <;> rfl
  rw [FileTree.resolve, if_neg notEmpty, if_neg noZero, if_neg notLong, relative, Route.ofPath,
    names_slashedPath]
  cases Path.endsInSlash (slashedPath count) <;> rfl

/-- The path of something in the directory, for which only the number of slashes counts. -/
theorem le_utf8ByteSize_slashedPath (count : Nat) (name : String) :
    count + 2 + name.utf8ByteSize ≤
      (Path.joinAll (slashedPath count) [name]).utf8ByteSize := by
  have longer := Path.le_utf8ByteSize_join (slashedPath count) name
  rw [utf8ByteSize_slashedPath] at longer
  exact longer

end RsaAudit
