import Mathlib.Data.List.Nodup
import RsaAudit.Files.Discovery
import RsaAudit.Proofs.Files.Path

/-!
# What is found below a directory

A search comes to everything that can be reached through directories without any
hidden name on the way, in the order of the names, compared level by level.  So the
order in which a file system lists its entries does not show.

The documents below a directory are the regular files among this whose own name ends
in one of the known extensions.  They are found unless one of the directories cannot
be opened by its path.
-/

namespace RsaAudit

/-! ## Names -/

namespace Path

theorem isHidden_eq_true_iff {name : String} :
    isHidden name = true ↔ ∃ rest, name = "." ++ rest := by
  rw [isHidden, beq_iff_eq]
  constructor
  · intro dot
    cases chars : name.toList with
    | nil => simp [chars] at dot
    | cons first rest =>
        obtain rfl : first = '.' := by simpa [chars] using dot
        refine ⟨String.ofList rest, String.toList_inj.mp ?_⟩
        simp [chars]
  · rintro ⟨rest, rfl⟩
    rw [String.toList_append]
    rfl

theorem extensionOf_append {stem extension : String} (nonempty : stem ≠ "")
    (noDot : '.' ∉ extension.toList) :
    extensionOf (stem ++ "." ++ extension) = some extension := by
  have reversed : (stem ++ "." ++ extension).toList.reverse =
      extension.toList.reverse ++ '.' :: stem.toList.reverse := by
    simp
  have beforeDot : ∀ char ∈ extension.toList.reverse, decide (char ≠ '.') = true := by
    intro char member
    have inExtension := List.mem_reverse.mp member
    rw [decide_eq_true_eq]
    rintro rfl
    exact noDot inExtension
  have chars : stem.toList.reverse ≠ [] := by
    simpa using nonempty
  unfold extensionOf
  dsimp only
  rw [reversed, List.dropWhile_append_of_pos beforeDot,
    List.takeWhile_append_of_pos beforeDot]
  cases stemChars : stem.toList.reverse with
  | nil => exact absurd stemChars chars
  | cons last front => simp

theorem exists_of_extensionOf {name extension : String}
    (found : extensionOf name = some extension) :
    ∃ stem, name = stem ++ "." ++ extension := by
  unfold extensionOf at found
  dsimp only at found
  have split := List.takeWhile_append_dropWhile (p := (· ≠ '.')) (l := name.toList.reverse)
  have headIsDot := List.head?_dropWhile_not (· ≠ '.') name.toList.reverse
  generalize name.toList.reverse.dropWhile (· ≠ '.') = dropped at found split headIsDot
  match dropped, found with
  | dot :: next :: front, found =>
      obtain rfl : dot = '.' := by simpa using headIsDot
      refine ⟨String.ofList (next :: front).reverse, String.toList_inj.mp ?_⟩
      have back := congrArg List.reverse split
      rw [List.reverse_reverse] at back
      rw [← back, ← Option.some.inj found]
      simp

end Path

namespace DocumentFormat

theorem isSome_ofExtension_iff {extension : String} :
    (ofExtension extension).isSome = true ↔ extension ∈ ["json", "yaml", "yml"] := by
  unfold ofExtension
  split
  · simp_all
  · split <;> simp_all

/-- A name that is not hidden has a format exactly when it ends in a known
extension. -/
theorem isSome_ofName_iff {name : String} (shown : Path.isHidden name = false) :
    (ofName name).isSome = true ↔
      ∃ stem, ∃ extension ∈ ["json", "yaml", "yml"], name = stem ++ "." ++ extension := by
  constructor
  · intro known
    unfold ofName at known
    cases found : Path.extensionOf name with
    | none => simp [found] at known
    | some extension =>
        rw [found, Option.bind_some, isSome_ofExtension_iff] at known
        obtain ⟨stem, named⟩ := Path.exists_of_extensionOf found
        exact ⟨stem, extension, known, named⟩
  · rintro ⟨stem, extension, known, rfl⟩
    have nonempty : stem ≠ "" := by
      rintro rfl
      have hidden := Path.isHidden_eq_true_iff.mpr ⟨extension, rfl⟩
      rw [String.empty_append] at shown
      exact Bool.false_ne_true (shown.symm.trans hidden)
    have noDot : '.' ∉ extension.toList := by
      simp only [List.mem_cons, List.not_mem_nil, or_false] at known
      rcases known with rfl | rfl | rfl <;> decide
    rw [ofName, Path.extensionOf_append nonempty noDot]
    exact isSome_ofExtension_iff.mpr known

theorem isSome_ofNames_iff {way : List String}
    (shown : ∀ name ∈ way, ∀ rest, name ≠ "." ++ rest) :
    (ofNames way).isSome = true ↔
      ∃ stem, ∃ extension ∈ ["json", "yaml", "yml"],
        way.getLast? = some (stem ++ "." ++ extension) := by
  rw [ofNames]
  cases last : way.getLast? with
  | none => simp
  | some name =>
      have visible : Path.isHidden name = false := by
        rw [← Bool.not_eq_true, Path.isHidden_eq_true_iff, not_exists]
        exact shown name (List.mem_of_getLast? last)
      rw [Option.bind_some, isSome_ofName_iff visible]
      simp only [Option.some.injEq]

end DocumentFormat

/-! ## Ways down -/

namespace Entry

/-- A way leads from an entry to another one, through directories only. -/
inductive Reaches : Entry → List String → Entry → Prop
  | here (entry : Entry) : Reaches entry [] entry
  | enter {children : List (String × Entry)} {name : String} {entry target : Entry}
      {rest : List String} (listed : (name, entry) ∈ children)
      (further : Reaches entry rest target) :
      Reaches (.directory children) (name :: rest) target

def HoldsFile (entry : Entry) (way : List String) : Prop :=
  ∃ text, entry.Reaches way (.file text)

/-- A way leads from an entry to a regular file with a known extension, and no name
on it starts with a dot. -/
def HoldsDocument (entry : Entry) (way : List String) : Prop :=
  entry.HoldsFile way ∧ (∀ name ∈ way, ∀ rest, name ≠ "." ++ rest) ∧
    ∃ stem, ∃ extension ∈ ["json", "yaml", "yml"],
      way.getLast? = some (stem ++ "." ++ extension)

/-- Something is below an entry, and no name on the way to it starts with a dot. -/
structure Shows (entry : Entry) (way : List String) (target : Entry) : Prop where
  below : way ≠ []
  reached : entry.Reaches way target
  shown : ∀ name ∈ way, ∀ rest, name ≠ "." ++ rest

/-- A way leads from an entry to a directory below it, and no name on it starts with a
dot. -/
def HoldsDirectory (entry : Entry) (way : List String) : Prop :=
  ∃ children, entry.Shows way (.directory children)

/-- What file systems see to: entries of one directory have different names, and
each of them is a name. -/
def WellNamed (entry : Entry) : Prop :=
  ∀ way children, entry.Reaches way (.directory children) →
    (children.map Prod.fst).Nodup ∧ ∀ child ∈ children, Path.IsName child.1

theorem WellNamed.child {children : List (String × Entry)} {child : String × Entry}
    (wellNamed : (directory children).WellNamed) (listed : child ∈ children) :
    child.2.WellNamed := by
  intro way inner reached
  exact wellNamed (child.1 :: way) inner (.enter listed reached)

theorem wellNamed_of_not_directory {entry : Entry} (noDirectory : entry.isDirectory = false) :
    entry.WellNamed := by
  intro way children reached
  cases reached with
  | here => cases noDirectory
  | enter => cases noDirectory

theorem wellNamed_directory {children : List (String × Entry)}
    (distinct : (children.map Prod.fst).Nodup)
    (each : ∀ child ∈ children, Path.IsName child.1 ∧ child.2.WellNamed) :
    (directory children).WellNamed := by
  intro way inner reached
  cases reached with
  | here => exact ⟨distinct, fun child listed => (each child listed).1⟩
  | enter listed further => exact (each _ listed).2 _ _ further

theorem WellNamed.names {entry : Entry} (wellNamed : entry.WellNamed)
    {way : List String} {target : Entry} (reached : entry.Reaches way target) :
    ∀ name ∈ way, Path.IsName name := by
  induction reached with
  | here => exact List.forall_mem_nil _
  | enter listed _ ih =>
      refine List.forall_mem_cons.mpr ⟨?_, ih (wellNamed.child listed)⟩
      exact (wellNamed [] _ (.here _)).2 _ listed

/-! ## Sorting by name -/

section

variable {Part : Type}

theorem placeByName_perm (named : String × Part) (others : List (String × Part)) :
    (placeByName named others).Perm (named :: others) := by
  induction others with
  | nil => exact .refl _
  | cons head tail ih =>
      rw [placeByName]
      split
      · exact .refl _
      · exact (ih.cons head).trans (.swap named head tail)

theorem foldr_placeByName_perm (named : List (String × Part)) :
    (named.foldr placeByName []).Perm named := by
  induction named with
  | nil => exact .refl _
  | cons head tail ih => exact (placeByName_perm head _).trans (ih.cons head)

theorem pairwise_placeByName {named : String × Part} {others : List (String × Part)}
    (sorted : others.Pairwise fun first second => first.1 < second.1)
    (fresh : ∀ other ∈ others, other.1 ≠ named.1) :
    (placeByName named others).Pairwise fun first second => first.1 < second.1 := by
  induction others with
  | nil => exact List.pairwise_singleton _ _
  | cons head tail ih =>
      obtain ⟨headFirst, tailSorted⟩ := List.pairwise_cons.mp sorted
      obtain ⟨otherHead, otherTail⟩ := List.forall_mem_cons.mp fresh
      rw [placeByName]
      split
      case isTrue before =>
        have less : named.1 < head.1 := by
          rw [← String.not_le]
          intro after
          exact otherHead (String.le_antisymm after before)
        refine List.pairwise_cons.mpr ⟨List.forall_mem_cons.mpr ⟨less, ?_⟩, sorted⟩
        intro other member
        exact String.lt_trans less (headFirst other member)
      case isFalse after =>
        have less : head.1 < named.1 := String.not_le.mp after
        refine List.pairwise_cons.mpr ⟨?_, ih tailSorted otherTail⟩
        intro other member
        rcases List.mem_cons.mp ((placeByName_perm named tail).mem_iff.mp member) with
          rfl | inTail
        · exact less
        · exact headFirst other inTail

theorem pairwise_foldr_placeByName {named : List (String × Part)}
    (distinct : (named.map Prod.fst).Nodup) :
    (named.foldr placeByName []).Pairwise fun first second => first.1 < second.1 := by
  induction named with
  | nil => exact .nil
  | cons head tail ih =>
      obtain ⟨fresh, distinctTail⟩ := List.nodup_cons.mp distinct
      refine pairwise_placeByName (ih distinctTail) ?_
      intro other member same
      have inTail := (foldr_placeByName_perm tail).mem_iff.mp member
      exact fresh (same ▸ List.mem_map_of_mem inTail)

end

/-! ## What a search comes to -/

/-- What a search comes to at and below an entry with a name. -/
def under (name : String) (entry : Entry) : List (List String × Entry) :=
  if Path.isHidden name then []
  else ([name], entry) :: entry.visits.map (Prod.map (name :: ·) id)

theorem childVisits_eq_map (children : List (String × Entry)) :
    childVisits children = children.map fun child => (child.1, under child.1 child.2) := by
  induction children with
  | nil => rw [childVisits, List.map_nil]
  | cons child rest ih => rw [childVisits, ih, List.map_cons, under]

theorem mem_under {name : String} {entry target : Entry} {way : List String} :
    (way, target) ∈ under name entry ↔
      ∃ rest, way = name :: rest ∧ Path.isHidden name = false ∧
        (rest = [] ∧ target = entry ∨ (rest, target) ∈ entry.visits) := by
  unfold under
  cases hidden : Path.isHidden name with
  | true => simp
  | false =>
      simp only [Bool.false_eq_true, if_false, List.mem_cons, List.mem_map, Prod.mk.injEq,
        true_and]
      constructor
      · rintro (⟨rfl, rfl⟩ | ⟨⟨rest, found⟩, member, same⟩)
        · exact ⟨[], rfl, .inl ⟨rfl, rfl⟩⟩
        · cases same
          exact ⟨rest, rfl, .inr member⟩
      · rintro ⟨rest, rfl, ⟨rfl, rfl⟩ | member⟩
        · exact .inl ⟨rfl, rfl⟩
        · exact .inr ⟨(rest, target), member, rfl⟩

theorem mem_visits_directory {children : List (String × Entry)}
    {visit : List String × Entry} :
    visit ∈ (directory children).visits ↔
      ∃ child ∈ children, visit ∈ under child.1 child.2 := by
  rw [visits, inOrder, childVisits_eq_map, List.mem_flatMap]
  constructor
  · rintro ⟨named, listed, member⟩
    rw [(foldr_placeByName_perm _).mem_iff] at listed
    obtain ⟨child, inChildren, rfl⟩ := List.mem_map.mp listed
    exact ⟨child, inChildren, member⟩
  · rintro ⟨child, inChildren, member⟩
    refine ⟨(child.1, under child.1 child.2), ?_, member⟩
    rw [(foldr_placeByName_perm _).mem_iff]
    exact List.mem_map_of_mem inChildren

theorem shows_directory_cons {children : List (String × Entry)} {name : String}
    {rest : List String} {target : Entry} :
    (directory children).Shows (name :: rest) target ↔
      ∃ child ∈ children, child.1 = name ∧ Path.isHidden name = false ∧
        (rest = [] ∧ target = child.2 ∨ child.2.Shows rest target) := by
  have hidden_iff : Path.isHidden name = false ↔ ∀ later, name ≠ "." ++ later := by
    rw [← Bool.not_eq_true, Path.isHidden_eq_true_iff, not_exists]
  constructor
  · rintro ⟨-, reached, shown⟩
    obtain ⟨nameShown, restShown⟩ := List.forall_mem_cons.mp shown
    cases reached with
    | enter listed further =>
        refine ⟨(name, _), listed, rfl, hidden_iff.mpr nameShown, ?_⟩
        cases rest with
        | nil =>
            cases further
            exact .inl ⟨rfl, rfl⟩
        | cons next later => exact .inr ⟨List.cons_ne_nil _ _, further, restShown⟩
  · rintro ⟨⟨_, entry⟩, listed, rfl, visible, ⟨rfl, rfl⟩ | shows⟩
    · exact ⟨List.cons_ne_nil _ _, .enter listed (.here _),
        List.forall_mem_singleton.mpr (hidden_iff.mp visible)⟩
    · exact ⟨List.cons_ne_nil _ _, .enter listed shows.reached,
        List.forall_mem_cons.mpr ⟨hidden_iff.mp visible, shows.shown⟩⟩

theorem not_shows_of_not_directory {entry target : Entry} {way : List String}
    (noDirectory : entry.isDirectory = false) : ¬ entry.Shows way target := by
  rintro ⟨below, reached, -⟩
  cases reached with
  | here => exact below rfl
  | enter listed further => cases noDirectory

/-- A search comes to what is below an entry and not hidden. -/
theorem mem_visits {entry target : Entry} {way : List String} :
    (way, target) ∈ entry.visits ↔ entry.Shows way target := by
  induction way generalizing entry with
  | nil =>
      refine iff_of_false ?_ fun shows => shows.below rfl
      cases entry with
      | directory children =>
          rw [mem_visits_directory]
          rintro ⟨child, -, member⟩
          obtain ⟨rest, impossible, -⟩ := mem_under.mp member
          cases impossible
      | _ => simp [visits]
  | cons name rest ih =>
      cases entry with
      | directory children =>
          rw [mem_visits_directory, shows_directory_cons]
          constructor
          · rintro ⟨child, listed, member⟩
            obtain ⟨later, same, visible, found⟩ := mem_under.mp member
            obtain ⟨rfl, rfl⟩ := List.cons.inj same
            exact ⟨child, listed, rfl, visible, found.imp_right ih.mp⟩
          · rintro ⟨child, listed, rfl, visible, found⟩
            exact ⟨child, listed,
              mem_under.mpr ⟨rest, rfl, visible, found.imp_right ih.mpr⟩⟩
      | _ =>
          refine iff_of_false ?_ (not_shows_of_not_directory rfl)
          simp [visits]

theorem HoldsDocument.shows {entry : Entry} {way : List String}
    (holds : entry.HoldsDocument way) : ∃ text, entry.Shows way (.file text) := by
  obtain ⟨⟨text, reached⟩, shown, stem, extension, -, last⟩ := holds
  refine ⟨text, ?_, reached, shown⟩
  rintro rfl
  cases last

/-- The documents below an entry are those that a way leads to. -/
theorem mem_documents {entry : Entry} {way : List String} :
    way ∈ entry.documents ↔ entry.HoldsDocument way := by
  rw [documents, List.mem_map]
  constructor
  · rintro ⟨⟨_, target⟩, member, rfl⟩
    obtain ⟨visited, isDocument⟩ := List.mem_filter.mp member
    obtain ⟨-, reached, shown⟩ := mem_visits.mp visited
    rw [Bool.and_eq_true, DocumentFormat.isSome_ofNames_iff shown] at isDocument
    cases target with
    | file text => exact ⟨⟨text, reached⟩, shown, isDocument.2⟩
    | _ => cases isDocument.1
  · intro holds
    obtain ⟨text, shows⟩ := holds.shows
    refine ⟨(way, .file text), List.mem_filter.mpr ⟨mem_visits.mpr shows, ?_⟩, rfl⟩
    rw [Bool.and_eq_true, DocumentFormat.isSome_ofNames_iff shows.shown]
    exact ⟨rfl, holds.2.2⟩

theorem mem_directories {entry : Entry} {way : List String} :
    way ∈ entry.directories ↔ entry.HoldsDirectory way := by
  rw [directories, List.mem_map]
  constructor
  · rintro ⟨⟨_, target⟩, member, rfl⟩
    obtain ⟨visited, isDirectory⟩ := List.mem_filter.mp member
    cases target with
    | directory children => exact ⟨children, mem_visits.mp visited⟩
    | _ => cases isDirectory
  · rintro ⟨children, shows⟩
    exact ⟨(way, .directory children), List.mem_filter.mpr ⟨mem_visits.mpr shows, rfl⟩, rfl⟩

theorem not_holdsDocument_of_not_directory {entry : Entry} {way : List String}
    (noDirectory : entry.isDirectory = false) : ¬ entry.HoldsDocument way := by
  intro holds
  obtain ⟨text, shows⟩ := holds.shows
  exact not_shows_of_not_directory noDirectory shows

/-! ## Order -/

/-- One way comes before another: at the first level where they differ, or where only
the other one goes on, its name has the smaller bytes. -/
def Before (first second : List String) : Prop :=
  first.map Path.bytes < second.map Path.bytes

theorem before_of_head_lt {first second : String} (less : first < second)
    (firstRest secondRest : List String) :
    Before (first :: firstRest) (second :: secondRest) :=
  List.cons_lt_cons_iff.mpr (.inl (Path.bytes_lt_bytes less))

theorem Before.cons {first second : List String} (before : Before first second)
    (name : String) : Before (name :: first) (name :: second) :=
  List.cons_lt_cons_iff.mpr (.inr ⟨rfl, before⟩)

theorem nil_before {way : List String} (nonempty : way ≠ []) : Before [] way := by
  cases way with
  | nil => exact absurd rfl nonempty
  | cons name rest => exact List.nil_lt_cons _ _

theorem pairwise_under {name : String} {entry : Entry}
    (sorted : (entry.visits.map Prod.fst).Pairwise Before) :
    ((under name entry).map Prod.fst).Pairwise Before := by
  unfold under
  split
  · exact .nil
  · have ways : (entry.visits.map (Prod.map (name :: ·) id)).map Prod.fst =
        (entry.visits.map Prod.fst).map (name :: ·) := by
      rw [List.map_map, List.map_map]
      rfl
    rw [List.map_cons, ways]
    refine List.pairwise_cons.mpr ⟨?_, sorted.map _ fun _ _ before => before.cons name⟩
    -- A directory comes before what is in it.
    intro way member
    obtain ⟨rest, inRest, rfl⟩ := List.mem_map.mp member
    obtain ⟨⟨_, target⟩, visited, rfl⟩ := List.mem_map.mp inRest
    exact (nil_before (mem_visits.mp visited).below).cons name

-- What is met below an entry is sorted if what is met under each of its children is.
mutual

theorem pairwise_visits (entry : Entry) (wellNamed : entry.WellNamed) :
    (entry.visits.map Prod.fst).Pairwise Before := by
  cases entry with
  | directory children =>
      have inside := pairwise_childVisits children fun child listed =>
        wellNamed.child listed
      have distinct : ((childVisits children).map Prod.fst).Nodup := by
        rw [childVisits_eq_map, List.map_map]
        exact (wellNamed [] children (.here _)).1
      rw [visits, inOrder, List.map_flatMap, List.pairwise_flatMap]
      refine ⟨fun named listed =>
        inside named ((foldr_placeByName_perm _).mem_iff.mp listed), ?_⟩
      refine (pairwise_foldr_placeByName distinct).imp_of_mem ?_
      intro first second inFirst inSecond less way inFirstWays other inSecondWays
      rw [(foldr_placeByName_perm _).mem_iff, childVisits_eq_map] at inFirst inSecond
      obtain ⟨firstChild, -, rfl⟩ := List.mem_map.mp inFirst
      obtain ⟨secondChild, -, rfl⟩ := List.mem_map.mp inSecond
      obtain ⟨⟨_, firstTarget⟩, inFirstVisits, rfl⟩ := List.mem_map.mp inFirstWays
      obtain ⟨⟨_, secondTarget⟩, inSecondVisits, rfl⟩ := List.mem_map.mp inSecondWays
      obtain ⟨firstRest, rfl, -⟩ := mem_under.mp inFirstVisits
      obtain ⟨secondRest, rfl, -⟩ := mem_under.mp inSecondVisits
      exact before_of_head_lt less firstRest secondRest
  | _ =>
      rw [visits]
      · exact .nil
      all_goals simp

theorem pairwise_childVisits (children : List (String × Entry))
    (wellNamed : ∀ child ∈ children, child.2.WellNamed) :
    ∀ named ∈ childVisits children, (named.2.map Prod.fst).Pairwise Before := by
  match children with
  | [] =>
      rw [childVisits]
      exact List.forall_mem_nil _
  | (name, entry) :: rest =>
      obtain ⟨first, later⟩ := List.forall_mem_cons.mp wellNamed
      rw [childVisits]
      refine List.forall_mem_cons.mpr ⟨?_, pairwise_childVisits rest later⟩
      exact pairwise_under (pairwise_visits entry first)

end

theorem pairwise_documents (entry : Entry) (wellNamed : entry.WellNamed) :
    entry.documents.Pairwise Before :=
  (pairwise_visits entry wellNamed).sublist (List.filter_sublist.map Prod.fst)

theorem Before.asymm {first second : List String} (before : Before first second) :
    ¬ Before second first :=
  List.lt_asymm before

theorem nodup_of_pairwise {ways : List (List String)} (sorted : ways.Pairwise Before) :
    ways.Nodup := by
  refine sorted.imp ?_
  rintro first second before rfl
  exact before.asymm before

/-- Sorted lists with the same members are the same. -/
theorem eq_of_pairwise {ways others : List (List String)} (sorted : ways.Pairwise Before)
    (othersSorted : others.Pairwise Before) (members : ∀ way, way ∈ ways ↔ way ∈ others) :
    ways = others := by
  refine List.Perm.eq_of_pairwise ?_ sorted othersSorted
    ((List.perm_ext_iff_of_nodup (nodup_of_pairwise sorted)
      (nodup_of_pairwise othersSorted)).mpr members)
  intro way other _ _ before after
  exact absurd after before.asymm

/-- The list of documents depends only on where there are files. -/
theorem documents_congr {first second : Entry} (firstNamed : first.WellNamed)
    (secondNamed : second.WellNamed)
    (files : ∀ way, first.HoldsFile way ↔ second.HoldsFile way) :
    first.documents = second.documents := by
  refine eq_of_pairwise (pairwise_documents first firstNamed)
    (pairwise_documents second secondNamed) fun way => ?_
  rw [mem_documents, mem_documents, HoldsDocument, HoldsDocument, files]

end Entry

/-! ## Opening directories -/

namespace FileView

theorem openError?_eq_none_iff {view : FileView} {path : String} :
    view.openError? path = none ↔ ∃ children, view path = .ok (.directory children) := by
  rw [openError?]
  rcases view path with cause | (text | children | target | -) <;> simp

/-- Every directory that a search below a root comes to can be opened by its path. -/
def OpensBelow (view : FileView) (root : String) (entry : Entry) : Prop :=
  ∀ way, entry.HoldsDirectory way →
    ∃ inner, view (Path.joinAll root way) = .ok (.directory inner)

end FileView

theorem findSome?_scanError?_eq_none_iff {view : FileView} {root : String} {entry : Entry} :
    entry.directories.findSome? (scanError? view root) = none ↔ view.OpensBelow root entry := by
  rw [List.findSome?_eq_none_iff]
  refine forall_congr' fun way => ?_
  rw [Entry.mem_directories, scanError?, Option.map_eq_none_iff, FileView.openError?_eq_none_iff]

theorem exists_of_findSome?_scanError? {view : FileView} {root : String} {entry : Entry}
    {error : DiscoveryError}
    (found : entry.directories.findSome? (scanError? view root) = some error) :
    ∃ way cause, entry.HoldsDirectory way ∧
      view.openError? (Path.joinAll root way) = some cause ∧
      error = .scanFailed root (Path.joinAll root way) cause := by
  obtain ⟨way, listed, failed⟩ := List.exists_of_findSome?_eq_some found
  obtain ⟨cause, unopened, rfl⟩ := Option.map_eq_some_iff.mp failed
  exact ⟨way, cause, Entry.mem_directories.mp listed, unopened, rfl⟩

section

variable {view : FileView} {path : String} {children : List (String × Entry)}
  (directory : view path = .ok (.directory children))

include directory

theorem discover_of_opensBelow (opens : view.OpensBelow path (.directory children)) :
    discover view path = .ok ((Entry.directory children).documents.map (Path.joinAll path)) := by
  rw [discover, directory]
  dsimp only
  rw [findSome?_scanError?_eq_none_iff.mpr opens]

/-- A search fails at a directory that cannot be opened. -/
theorem discover_of_not_opensBelow (closed : ¬ view.OpensBelow path (.directory children)) :
    ∃ way cause, (Entry.directory children).HoldsDirectory way ∧
      view.openError? (Path.joinAll path way) = some cause ∧
      discover view path = .error (.scanFailed path (Path.joinAll path way) cause) := by
  cases found : (Entry.directory children).directories.findSome? (scanError? view path) with
  | none => exact absurd (findSome?_scanError?_eq_none_iff.mp found) closed
  | some error =>
      obtain ⟨way, cause, holds, unopened, rfl⟩ := exists_of_findSome?_scanError? found
      refine ⟨way, cause, holds, unopened, ?_⟩
      rw [discover, directory]
      dsimp only
      rw [found]

end

theorem discover_eq_ok_iff {view : FileView} {path : String} {files : List String} :
    discover view path = .ok files ↔
      (∃ text, view path = .ok (.file text) ∧ files = [path]) ∨
        ∃ children, view path = .ok (.directory children) ∧
          view.OpensBelow path (.directory children) ∧
          files = (Entry.directory children).documents.map (Path.joinAll path) := by
  cases found : view path with
  | error cause => simp [discover, found]
  | ok entry =>
      cases entry with
      | directory children =>
          by_cases opens : view.OpensBelow path (.directory children)
          · simp [discover_of_opensBelow found opens, opens, eq_comm]
          · obtain ⟨way, cause, -, -, failed⟩ := discover_of_not_opensBelow found opens
            simp [failed, opens]
      | _ => simp [discover, found, eq_comm]

theorem exists_of_discover_eq_scanFailed {view : FileView} {path root directory : String}
    {cause : FileError} (failed : discover view path = .error (.scanFailed root directory cause)) :
    ∃ children way, view path = .ok (.directory children) ∧
      (Entry.directory children).HoldsDirectory way ∧ directory = Path.joinAll path way ∧
      view.openError? directory = some cause := by
  cases found : view path with
  | error cause => simp [discover, found] at failed
  | ok entry =>
      cases entry with
      | directory children =>
          by_cases opens : view.OpensBelow path (.directory children)
          · cases (discover_of_opensBelow found opens).symm.trans failed
          · obtain ⟨way, reason, holds, unopened, same⟩ := discover_of_not_opensBelow found opens
            cases same.symm.trans failed
            exact ⟨children, way, rfl, holds, rfl, unopened⟩
      | _ => simp [discover, found] at failed

/-- The documents below a directory are found exactly and in order, if every directory
that the search comes to can be opened by its path; otherwise the search fails at one that
cannot.  A path is in the list if and only if it leads through directories to a regular
file with a known extension and meets no name that starts with a dot; no path is listed
twice; the names on the paths increase from one to the next, compared level by level and
byte by byte; and nothing depends on the order in which the entries of a directory are
listed, but only on where there are regular files. -/
theorem discover_directory (view : FileView) (root : String)
    (children : List (String × Entry))
    (isDirectory : view root = .ok (.directory children))
    (wellNamed : (Entry.directory children).WellNamed) :
    ∃ found : List (List String),
      (view.OpensBelow root (.directory children) →
        discover view root = .ok (found.map (Path.joinAll root))) ∧
      (¬ view.OpensBelow root (.directory children) →
        ∃ way cause, (Entry.directory children).HoldsDirectory way ∧
          view.openError? (Path.joinAll root way) = some cause ∧
          discover view root = .error (.scanFailed root (Path.joinAll root way) cause)) ∧
      (∀ way, way ∈ found ↔ (Entry.directory children).HoldsDocument way) ∧
      (∀ way, (∀ name ∈ way, Path.IsName name) →
        (Path.joinAll root way ∈ found.map (Path.joinAll root) ↔
          (Entry.directory children).HoldsDocument way)) ∧
      (found.map (Path.joinAll root)).Nodup ∧
      (found.map fun way => way.map Path.bytes).Pairwise (· < ·) ∧
      ∀ (other : FileView) (siblings : List (String × Entry)),
        other root = .ok (.directory siblings) →
        (Entry.directory siblings).WellNamed →
        (∀ way, (Entry.directory siblings).HoldsFile way ↔
          (Entry.directory children).HoldsFile way) →
        other.OpensBelow root (.directory siblings) →
        discover other root = .ok (found.map (Path.joinAll root)) := by
  have sorted := Entry.pairwise_documents _ wellNamed
  have areNames : ∀ way ∈ (Entry.directory children).documents,
      ∀ name ∈ way, Path.IsName name := by
    intro way member
    obtain ⟨⟨text, reached⟩, -⟩ := Entry.mem_documents.mp member
    exact wellNamed.names reached
  refine ⟨(Entry.directory children).documents, discover_of_opensBelow isDirectory,
    discover_of_not_opensBelow isDirectory, fun way => Entry.mem_documents, ?_, ?_, ?_, ?_⟩
  · intro way names
    rw [← Entry.mem_documents, List.mem_map]
    constructor
    · rintro ⟨listed, member, same⟩
      rw [← Path.joinAll_injective (areNames listed member) names same]
      exact member
    · intro member
      exact ⟨way, member, rfl⟩
  · refine List.Nodup.map_on ?_ (Entry.nodup_of_pairwise sorted)
    intro way member other otherMember same
    exact Path.joinAll_injective (areNames way member) (areNames other otherMember) same
  · exact sorted.map _ fun _ _ before => before
  · intro other siblings otherDirectory otherNamed files opens
    rw [discover_of_opensBelow otherDirectory opens,
      Entry.documents_congr otherNamed wellNamed files]

/-- A directory with two documents, one of them in a directory whose own name looks
like that of a document. -/
def mixedChildren : List (String × Entry) :=
  [("b.json", .file (some "")), ("notes.md", .file none), ("link.yml", .link "b.json"),
    (".cache", .directory [("c.json", .file none)]),
    ("a.json", .directory [("z.yaml", .file none)])]

theorem discover_directory_mixedChildren :
    let view : FileView := fun _ => .ok (.directory mixedChildren)
    (Entry.directory mixedChildren).WellNamed ∧
      view.OpensBelow ".ir" (.directory mixedChildren) ∧
      (∃ found : List (List String),
        discover view ".ir" = .ok (found.map (Path.joinAll ".ir")) ∧
        ∀ way, way ∈ found ↔ (Entry.directory mixedChildren).HoldsDocument way) ∧
      discover view ".ir" = .ok [".ir/a.json/z.yaml", ".ir/b.json"] := by
  intro view
  have file (text : Option String) : (Entry.file text).WellNamed :=
    Entry.wellNamed_of_not_directory rfl
  have link (target : String) : (Entry.link target).WellNamed :=
    Entry.wellNamed_of_not_directory rfl
  have wellNamed : (Entry.directory mixedChildren).WellNamed := by
    refine Entry.wellNamed_directory (by decide) ?_
    simp only [mixedChildren, List.forall_mem_cons]
    refine ⟨⟨by decide, file _⟩, ⟨by decide, file _⟩, ⟨by decide, link _⟩,
      ⟨by decide, Entry.wellNamed_directory (by decide) ?_⟩,
      ⟨by decide, Entry.wellNamed_directory (by decide) ?_⟩, List.forall_mem_nil _⟩
    · exact List.forall_mem_singleton.mpr ⟨by decide, file _⟩
    · exact List.forall_mem_singleton.mpr ⟨by decide, file _⟩
  have opens : view.OpensBelow ".ir" (.directory mixedChildren) := fun _ _ => ⟨_, rfl⟩
  obtain ⟨found, listed, -, exactly, -⟩ :=
    discover_directory view ".ir" mixedChildren rfl wellNamed
  exact ⟨wellNamed, opens, ⟨found, listed opens, exactly⟩, by decide +kernel⟩

end RsaAudit
