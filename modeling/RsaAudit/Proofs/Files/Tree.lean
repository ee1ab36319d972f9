import RsaAudit.Files.Tree
import RsaAudit.Proofs.FirstFault
import RsaAudit.Proofs.Files.Discovery

/-!
# Where paths lead

A path is resolved by looking only at where there are directories and links.  So a
change to a tree that keeps all directories and neither adds nor removes links keeps
the way of every path, and a text that has been written to a path is found under it.

A path that leads to a directory can be prolonged by the names on a way down from
it.  If none of these is a link, the longer path leads to the end of the way, unless
it is too long or a name on it is.
-/

namespace RsaAudit

/-! ## Locations -/

namespace Entry

theorem at?_append (way more : List String) (entry : Entry) :
    at? (way ++ more) entry = (at? way entry).bind (at? more) := by
  induction way generalizing entry with
  | nil => rfl
  | cons name rest ih =>
      cases entry with
      | directory children =>
          rw [List.cons_append, at?, at?]
          cases children.lookup name with
          | none => rfl
          | some child => exact ih child
      | _ => rfl

theorem at?_concat {location : List String} {root : Entry}
    {children : List (String × Entry)}
    (here : root.at? location = some (.directory children)) (name : String) :
    root.at? (location ++ [name]) = children.lookup name := by
  rw [at?_append, here, Option.bind_some, at?]
  cases children.lookup name <;> rfl

/-- Only below directories is there anything. -/
theorem exists_directory_of_at? {name : String} {rest : List String} {entry target : Entry}
    (found : entry.at? (name :: rest) = some target) :
    ∃ children, entry = .directory children := by
  cases entry with
  | directory children => exact ⟨children, rfl⟩
  | _ => cases found

theorem mem_of_lookup {children : List (String × Entry)} {name : String} {entry : Entry}
    (named : children.lookup name = some entry) : (name, entry) ∈ children := by
  obtain ⟨before, after, rfl, -⟩ := List.lookup_eq_some_iff.mp named
  exact List.mem_append_right before List.mem_cons_self

theorem reaches_of_at? {way : List String} {entry target : Entry}
    (found : entry.at? way = some target) : entry.Reaches way target := by
  induction way generalizing entry with
  | nil =>
      cases found
      exact .here _
  | cons name rest ih =>
      obtain ⟨children, rfl⟩ := exists_directory_of_at? found
      obtain ⟨child, named, further⟩ := Option.bind_eq_some_iff.mp found
      exact .enter (mem_of_lookup named) (ih further)

theorem lookup_eq_some_of_nodup {children : List (String × Entry)} {name : String}
    {entry : Entry} (distinct : (children.map Prod.fst).Nodup)
    (listed : (name, entry) ∈ children) : children.lookup name = some entry := by
  obtain ⟨before, after, rfl⟩ := List.append_of_mem listed
  refine List.lookup_eq_some_iff.mpr ⟨before, after, rfl, ?_⟩
  rintro ⟨other, value⟩ member
  rw [List.map_append, List.map_cons, List.nodup_append] at distinct
  have different := distinct.2.2 other (List.mem_map_of_mem member) name List.mem_cons_self
  simpa using different.symm

theorem WellNamed.at?_of_reaches {way : List String} {entry target : Entry}
    (wellNamed : entry.WellNamed) (reached : entry.Reaches way target) :
    entry.at? way = some target := by
  induction reached with
  | here => rfl
  | enter listed _ ih =>
      have distinct := (wellNamed [] _ (.here _)).1
      rw [at?, lookup_eq_some_of_nodup distinct listed]
      exact ih (wellNamed.child listed)

/-- What a directory passes on to its entries holds wherever something is. -/
theorem inherited_at? {inherited : Entry → Prop}
    (passed : ∀ children, inherited (directory children) →
      ∀ child ∈ children, inherited child.2)
    {root entry : Entry} {location : List String} (holds : inherited root)
    (here : root.at? location = some entry) : inherited entry := by
  induction location generalizing root with
  | nil =>
      cases here
      exact holds
  | cons name rest ih =>
      obtain ⟨children, rfl⟩ := exists_directory_of_at? here
      obtain ⟨child, named, further⟩ := Option.bind_eq_some_iff.mp here
      exact ih (passed children holds _ (mem_of_lookup named)) further

theorem WellNamed.at? {root entry : Entry} {location : List String}
    (wellNamed : root.WellNamed) (here : root.at? location = some entry) :
    entry.WellNamed :=
  inherited_at? (fun _ named _ => named.child) wellNamed here

/-! ## Entries put at a location -/

theorem lookup_modifyChild_self (name : String) (change : Entry → Entry)
    (children : List (String × Entry)) :
    (modifyChild name change children).lookup name =
      some (change ((children.lookup name).getD (.directory []))) := by
  induction children with
  | nil => simp [modifyChild]
  | cons child rest ih =>
      obtain ⟨other, entry⟩ := child
      rw [modifyChild]
      split
      case isTrue same => simp [same]
      case isFalse different =>
        simp [List.lookup_cons, beq_false_of_ne (Ne.symm different), ih]

theorem lookup_modifyChild_of_ne {name other : String} (different : other ≠ name)
    (change : Entry → Entry) (children : List (String × Entry)) :
    (modifyChild name change children).lookup other = children.lookup other := by
  induction children with
  | nil => simp [modifyChild, List.lookup_cons, beq_false_of_ne different]
  | cons child rest ih =>
      obtain ⟨first, entry⟩ := child
      rw [modifyChild]
      split
      case isTrue same => simp [List.lookup_cons, same, beq_false_of_ne different]
      case isFalse => rw [List.lookup_cons, List.lookup_cons, ih]

theorem at?_put_self (new : Entry) (location : List String) (root : Entry) :
    (put new location root).at? location = some new := by
  induction location generalizing root with
  | nil => rfl
  | cons name rest ih =>
      cases root with
      | directory children => rw [put, at?, lookup_modifyChild_self, Option.bind_some, ih]
      | _ =>
          rw [put, at?, lookup_modifyChild_self, Option.bind_some, ih]
          all_goals nofun

/-- A file can be put at a location: something other than a directory or a link is
there, or nothing is there in a directory. -/
inductive Free : Entry → List String → Prop
  | taken {entry : Entry} (noDirectory : entry.isDirectory = false)
      (noLink : ∀ target, entry ≠ .link target) : Free entry []
  | unused {children : List (String × Entry)} {name : String}
      (absent : children.lookup name = none) : Free (.directory children) [name]
  | inside {children : List (String × Entry)} {name : String} {entry : Entry}
      {rest : List String} (named : children.lookup name = some entry)
      (free : Free entry rest) : Free (.directory children) (name :: rest)

/-- There is no link at or below an entry. -/
def Linkless (entry : Entry) : Prop :=
  ∀ location found, entry.at? location = some found → ∀ target, found ≠ .link target

theorem linkless_file (text : Option String) : (file text).Linkless := by
  intro location found here target isLink
  cases location with
  | nil =>
      cases here
      cases isLink
  | cons name rest => cases here

theorem linkless_directory {children : List (String × Entry)}
    (each : ∀ child ∈ children, child.2.Linkless) : (directory children).Linkless := by
  intro location found here
  cases location with
  | nil =>
      cases here
      nofun
  | cons name rest =>
      obtain ⟨child, named, further⟩ := Option.bind_eq_some_iff.mp here
      exact each _ (mem_of_lookup named) rest found further

/-- Whatever is at a location in one entry is there in another one too, except for
what `keeps` leaves open, and whatever else is there is no link. -/
structure Resembles (keeps : Entry → Entry → Prop) (root other : Entry) : Prop where
  kept : ∀ {location entry}, root.at? location = some entry →
    ∃ found, other.at? location = some found ∧ keeps entry found
  gained : ∀ {location found}, root.at? location = none →
    other.at? location = some found → ∀ target, found ≠ .link target

section

variable {keeps : Entry → Entry → Prop}

theorem Resembles.refl (same : ∀ entry, keeps entry entry) (root : Entry) :
    root.Resembles keeps root where
  kept here := ⟨_, here, same _⟩
  gained absent there := by cases absent.symm.trans there

theorem Resembles.mono {looser : Entry → Entry → Prop} {root other : Entry}
    (resembles : root.Resembles keeps other)
    (loosens : ∀ entry found, keeps entry found → looser entry found) :
    root.Resembles looser other where
  kept here := by
    obtain ⟨found, there, alike⟩ := resembles.kept here
    exact ⟨found, there, loosens _ _ alike⟩
  gained := resembles.gained

theorem resembles_directory {children others : List (String × Entry)}
    (directories : keeps (.directory children) (.directory others))
    (kept : ∀ name entry, children.lookup name = some entry →
      ∃ other, others.lookup name = some other ∧ entry.Resembles keeps other)
    (gained : ∀ name other, children.lookup name = none → others.lookup name = some other →
      other.Linkless) :
    (directory children).Resembles keeps (directory others) where
  kept {location entry} here := by
    cases location with
    | nil =>
        cases here
        exact ⟨_, rfl, directories⟩
    | cons name rest =>
        obtain ⟨child, named, further⟩ := Option.bind_eq_some_iff.mp here
        obtain ⟨other, otherNamed, resembles⟩ := kept name child named
        rw [at?, otherNamed]
        exact resembles.kept further
  gained {location found} absent there := by
    cases location with
    | nil => cases absent
    | cons name rest =>
        obtain ⟨other, otherNamed, further⟩ := Option.bind_eq_some_iff.mp there
        cases named : children.lookup name with
        | some child =>
            obtain ⟨_, same, resembles⟩ := kept name child named
            cases same.symm.trans otherNamed
            rw [at?, named] at absent
            exact resembles.gained absent further
        | none => exact gained name other named otherNamed rest found further

/-- Nothing changes but the one place where an entry without links is put. -/
theorem resembles_put (same : ∀ entry, keeps entry entry)
    (directories : ∀ children others, keeps (.directory children) (.directory others))
    {root : Entry} {location : List String} (free : root.Free location)
    {new : Entry} (linkless : new.Linkless)
    (replaced : ∀ entry, root.at? location = some entry → keeps entry new) :
    root.Resembles keeps (put new location root) := by
  induction free with
  | @taken entry noDirectory _ =>
      refine ⟨?_, ?_⟩
      · intro location found here
        cases location with
        | nil =>
            cases here
            exact ⟨_, rfl, replaced _ rfl⟩
        | cons name rest =>
            obtain ⟨children, rfl⟩ := exists_directory_of_at? here
            cases noDirectory
      · intro location found _ there
        exact linkless location found there
  | @unused children name absent =>
      refine resembles_directory (directories _ _) ?_ ?_
      · intro other entry named
        have different : other ≠ name := by
          rintro rfl
          cases absent.symm.trans named
        rw [lookup_modifyChild_of_ne different]
        exact ⟨entry, named, .refl same entry⟩
      · intro other entry otherAbsent named
        by_cases isName : other = name
        · rw [isName, lookup_modifyChild_self] at named
          cases named
          exact linkless
        · rw [lookup_modifyChild_of_ne isName] at named
          cases otherAbsent.symm.trans named
  | @inside children name entry rest named _ ih =>
      have below := ih fun found here => replaced found (by rw [at?, named]; exact here)
      refine resembles_directory (directories _ _) ?_ ?_
      · intro other found otherNamed
        by_cases isName : other = name
        · subst isName
          cases named.symm.trans otherNamed
          rw [lookup_modifyChild_self, named]
          exact ⟨_, rfl, below⟩
        · rw [lookup_modifyChild_of_ne isName]
          exact ⟨found, otherNamed, .refl same found⟩
      · intro other found absent otherNamed
        have different : other ≠ name := by
          rintro rfl
          cases absent.symm.trans named
        rw [lookup_modifyChild_of_ne different] at otherNamed
        cases absent.symm.trans otherNamed

end

/-- Two entries are of one kind as far as paths are concerned. -/
def SameKind (entry found : Entry) : Prop :=
  entry.isDirectory = found.isDirectory ∧
    ∀ target, found = .link target ↔ entry = .link target

/-- Every way through an entry can be gone in another one too. -/
def Guides (root other : Entry) : Prop :=
  root.Resembles SameKind other

namespace Guides

theorem refl (root : Entry) : root.Guides root :=
  Resembles.refl (fun _ => ⟨rfl, fun _ => .rfl⟩) root

variable {root other : Entry} {location : List String}

theorem present (guides : root.Guides other) {entry : Entry}
    (here : root.at? location = some entry) : ∃ found, other.at? location = some found := by
  obtain ⟨found, there, -⟩ := guides.kept here
  exact ⟨found, there⟩

theorem directory (guides : root.Guides other) {children : List (String × Entry)}
    (here : root.at? location = some (.directory children)) :
    ∃ inner, other.at? location = some (.directory inner) := by
  obtain ⟨found, there, isDirectory, -⟩ := guides.kept here
  cases found with
  | directory inner => exact ⟨inner, there⟩
  | _ => cases isDirectory

theorem link_iff (guides : root.Guides other) {target : String} :
    other.at? location = some (.link target) ↔ root.at? location = some (.link target) := by
  cases here : root.at? location with
  | some entry =>
      obtain ⟨found, there, -, sameLink⟩ := guides.kept here
      rw [there, Option.some.injEq, Option.some.injEq]
      exact sameLink target
  | none =>
      refine iff_of_false ?_ nofun
      intro there
      exact guides.gained here there target rfl

end Guides

theorem Free.taken_at? {root entry : Entry} {location : List String}
    (free : root.Free location) (here : root.at? location = some entry) :
    entry.isDirectory = false ∧ ∀ target, entry ≠ .link target := by
  induction free with
  | taken noDirectory noLink =>
      cases here
      exact ⟨noDirectory, noLink⟩
  | unused absent =>
      rw [at?, absent] at here
      cases here
  | inside named _ ih =>
      rw [at?, named] at here
      exact ih here

theorem guides_put_file {root : Entry} {location : List String}
    (free : root.Free location) (text : Option String) :
    root.Guides (put (.file text) location root) := by
  refine resembles_put (fun _ => ⟨rfl, fun _ => .rfl⟩)
    (fun _ _ => ⟨rfl, fun _ => iff_of_false nofun nofun⟩) free (linkless_file text) ?_
  intro entry here
  obtain ⟨noDirectory, noLink⟩ := free.taken_at? here
  exact ⟨noDirectory, fun target => iff_of_false nofun (noLink target)⟩

end Entry

/-! ## Walks -/

namespace Entry

theorem exists_directory_dropLast {root : Entry} {location : List String}
    {children : List (String × Entry)}
    (here : root.at? location = some (.directory children)) :
    ∃ outer, root.at? location.dropLast = some (.directory outer) := by
  rcases List.eq_nil_or_concat location with rfl | ⟨outer, name, rfl⟩
  · exact ⟨children, here⟩
  · rw [List.concat_eq_append, at?_append] at here
    obtain ⟨entry, found, below⟩ := Option.bind_eq_some_iff.mp here
    obtain ⟨siblings, rfl⟩ := exists_directory_of_at? below
    exact ⟨siblings, by simpa using found⟩

theorem exists_directory_root {root : Entry} {location : List String}
    {children : List (String × Entry)}
    (here : root.at? location = some (.directory children)) :
    ∃ outer, root.at? [] = some (.directory outer) := by
  cases location with
  | nil => exact ⟨children, here⟩
  | cons name rest =>
      obtain ⟨siblings, rfl⟩ := exists_directory_of_at? here
      exact ⟨siblings, rfl⟩

/-- Where a walk can end: at something that is no link, or where there is nothing yet
in a directory. -/
def IsEnd (root : Entry) (location : List String) : Prop :=
  (∃ entry, root.at? location = some entry ∧ ∀ target, entry ≠ .link target) ∨
    ∃ outer name children, location = outer ++ [name] ∧
      root.at? outer = some (.directory children) ∧ children.lookup name = none

theorem isEnd_of_directory {root : Entry} {location : List String}
    {children : List (String × Entry)}
    (here : root.at? location = some (.directory children)) : root.IsEnd location :=
  .inl ⟨_, here, nofun⟩

theorem free_append {root entry : Entry} {outer rest : List String}
    (here : root.at? outer = some entry) (free : entry.Free rest) :
    root.Free (outer ++ rest) := by
  induction outer generalizing root with
  | nil =>
      cases here
      exact free
  | cons name outer ih =>
      obtain ⟨children, rfl⟩ := exists_directory_of_at? here
      obtain ⟨child, named, further⟩ := Option.bind_eq_some_iff.mp here
      exact .inside named (ih further)

/-- A walk that ends at no directory ends where a file can be put. -/
theorem IsEnd.free {root : Entry} {location : List String} (isEnd : root.IsEnd location)
    (noDirectory : ∀ children, root.at? location ≠ some (.directory children)) :
    root.Free location := by
  rcases isEnd with ⟨entry, here, noLink⟩ | ⟨outer, name, children, rfl, here, absent⟩
  · have notDirectory : entry.isDirectory = false := by
      cases entry with
      | directory children => exact absurd here (noDirectory children)
      | _ => rfl
    have free := free_append here (.taken notDirectory noLink)
    rwa [List.append_nil] at free
  · exact free_append here (.unused absent)

end Entry

namespace FileTree

/-- How the way goes on after a link, if so many links may be followed. -/
def onward (root : Entry) (purpose : Purpose) :
    Nat → List String → Route → Except FileError (List String)
  | 0 => fun _ _ => .error .tooManyLinks
  | links + 1 => walk root purpose links

theorem walk_eq (root : Entry) (purpose : Purpose) (links : Nat) (location : List String)
    (route : Route) :
    walk root purpose links location route =
      walkNames root purpose route.slash (onward root purpose links) location
        route.names := by
  cases links <;> rfl

/-- The route from a link on, where `rest` is still to go. -/
def linkRoute (target : String) (rest : List String) (slash : Bool) : Route :=
  ⟨Path.names target ++ rest, slash || (rest.isEmpty && Path.endsInSlash target)⟩

/-- A name that a walk looks up. -/
def Looks (purpose : Purpose) (name : String) (rest : List String) (slash : Bool) : Prop :=
  name ≠ "." ∧ name ≠ ".." ∧ ¬ (rest = [] ∧ slash = true ∧ purpose = .create) ∧
    ¬ Path.maxNameBytes < name.utf8ByteSize

/-- A route leads from one location to another, with so many links at most. -/
inductive Leads (root : Entry) (purpose : Purpose) :
    Nat → List String → Route → List String → Prop
  | arrive {links : Nat} {location : List String} {slash : Bool}
      (directory : slash = true → ∃ children, root.at? location = some (.directory children)) :
      Leads root purpose links location ⟨[], slash⟩ location
  | stay {links : Nat} {location finish rest : List String} {slash : Bool}
      {children : List (String × Entry)}
      (here : root.at? location = some (.directory children))
      (further : Leads root purpose links location ⟨rest, slash⟩ finish) :
      Leads root purpose links location ⟨"." :: rest, slash⟩ finish
  | back {links : Nat} {location finish rest : List String} {slash : Bool}
      {children : List (String × Entry)}
      (here : root.at? location = some (.directory children))
      (further : Leads root purpose links location.dropLast ⟨rest, slash⟩ finish) :
      Leads root purpose links location ⟨".." :: rest, slash⟩ finish
  | stop {links : Nat} {location : List String} {name : String}
      {children : List (String × Entry)}
      (here : root.at? location = some (.directory children))
      (looks : Looks purpose name [] false) (absent : children.lookup name = none) :
      Leads root purpose links location ⟨[name], false⟩ (location ++ [name])
  | follow {links : Nat} {location finish rest : List String} {slash : Bool}
      {children : List (String × Entry)} {name target : String}
      (here : root.at? location = some (.directory children))
      (looks : Looks purpose name rest slash)
      (named : children.lookup name = some (.link target))
      (further : Leads root purpose links (if Path.isAbsolute target then [] else location)
        (linkRoute target rest slash) finish) :
      Leads root purpose (links + 1) location ⟨name :: rest, slash⟩ finish
  | enter {links : Nat} {location finish rest : List String} {slash : Bool}
      {children : List (String × Entry)} {name : String} {entry : Entry}
      (here : root.at? location = some (.directory children))
      (looks : Looks purpose name rest slash)
      (named : children.lookup name = some entry) (noLink : ∀ target, entry ≠ .link target)
      (further : Leads root purpose links (location ++ [name]) ⟨rest, slash⟩ finish) :
      Leads root purpose links location ⟨name :: rest, slash⟩ finish

section

variable {root : Entry} {purpose : Purpose} {slash : Bool}
  {follow : List String → Route → Except FileError (List String)}
  {location : List String} {children : List (String × Entry)}
  (here : root.at? location = some (.directory children))

include here

theorem walkNames_stay (rest : List String) :
    walkNames root purpose slash follow location ("." :: rest) =
      walkNames root purpose slash follow location rest := by
  rw [walkNames, here]
  exact if_pos rfl

theorem walkNames_back (rest : List String) :
    walkNames root purpose slash follow location (".." :: rest) =
      walkNames root purpose slash follow location.dropLast rest := by
  rw [walkNames, here]
  exact (if_neg (by decide)).trans (if_pos rfl)

theorem walkNames_absent {name : String} {rest : List String}
    (looks : Looks purpose name rest slash) (absent : children.lookup name = none) :
    walkNames root purpose slash follow location (name :: rest) =
      if rest.isEmpty then arrive root (location ++ [name]) slash
      else .error .notFound := by
  obtain ⟨notStay, notBack, allowed, short⟩ := looks
  rw [walkNames, here]
  dsimp only
  rw [if_neg notStay, if_neg notBack, if_neg allowed, if_neg short, absent]

theorem walkNames_follow {name target : String} {rest : List String}
    (looks : Looks purpose name rest slash)
    (named : children.lookup name = some (.link target)) :
    walkNames root purpose slash follow location (name :: rest) =
      follow (if Path.isAbsolute target then [] else location)
        (linkRoute target rest slash) := by
  obtain ⟨notStay, notBack, allowed, short⟩ := looks
  rw [walkNames, here]
  dsimp only
  rw [if_neg notStay, if_neg notBack, if_neg allowed, if_neg short, named]
  rfl

theorem walkNames_enter {name : String} {rest : List String} {entry : Entry}
    (looks : Looks purpose name rest slash) (named : children.lookup name = some entry)
    (noLink : ∀ target, entry ≠ .link target) :
    walkNames root purpose slash follow location (name :: rest) =
      walkNames root purpose slash follow (location ++ [name]) rest := by
  obtain ⟨notStay, notBack, allowed, short⟩ := looks
  rw [walkNames, here]
  dsimp only
  rw [if_neg notStay, if_neg notBack, if_neg allowed, if_neg short, named]
  cases entry with
  | link target => exact absurd rfl (noLink target)
  | _ => rfl

/-- A walk goes on only in a directory, and with a name that it can take. -/
theorem walkNames_refused {name : String} {rest : List String}
    (notStay : name ≠ ".") (notBack : name ≠ "..")
    (refused : ¬ Looks purpose name rest slash) :
    ∃ error, walkNames root purpose slash follow location (name :: rest) = .error error := by
  rw [walkNames, here]
  dsimp only
  rw [if_neg notStay, if_neg notBack]
  by_cases forbidden : rest = [] ∧ slash = true ∧ purpose = .create
  · exact ⟨_, if_pos forbidden⟩
  · rw [if_neg forbidden]
    by_cases long : Path.maxNameBytes < name.utf8ByteSize
    · exact ⟨_, if_pos long⟩
    · exact absurd ⟨notStay, notBack, forbidden, long⟩ refused

end

theorem leads_of_walkNames {root : Entry} {purpose : Purpose} {links : Nat} {slash : Bool}
    (followed : ∀ {location route finish},
      onward root purpose links location route = .ok finish →
        ∃ fewer, links = fewer + 1 ∧ Leads root purpose fewer location route finish)
    {location names finish : List String}
    (passed : walkNames root purpose slash (onward root purpose links) location names =
      .ok finish) :
    Leads root purpose links location ⟨names, slash⟩ finish := by
  -- The induction is on the names; what happens after a link is given by `followed`.
  induction names generalizing location with
  | nil =>
      rw [walkNames, arrive] at passed
      split at passed
      case isTrue isSlash =>
        split at passed
        case h_1 children here =>
          cases passed
          exact .arrive fun _ => ⟨children, here⟩
        all_goals cases passed
      case isFalse noSlash =>
        cases passed
        exact .arrive fun isSlash => absurd isSlash noSlash
  | cons name rest ih =>
      obtain ⟨children, here⟩ :
          ∃ children, root.at? location = some (.directory children) := by
        rw [walkNames] at passed
        split at passed
        case h_1 children here => exact ⟨children, here⟩
        all_goals cases passed
      by_cases stay : name = "."
      · subst stay
        rw [walkNames_stay here] at passed
        exact .stay here (ih passed)
      by_cases back : name = ".."
      · subst back
        rw [walkNames_back here] at passed
        exact .back here (ih passed)
      by_cases looks : Looks purpose name rest slash
      · cases named : children.lookup name with
        | none =>
            rw [walkNames_absent here looks named, arrive] at passed
            rw [Entry.at?_concat here, named] at passed
            cases rest with
            | cons next later => cases passed
            | nil =>
                cases slash with
                | true => cases passed
                | false =>
                    cases passed
                    exact .stop here looks named
        | some entry =>
            by_cases isLink : ∃ target, entry = .link target
            · obtain ⟨target, rfl⟩ := isLink
              rw [walkNames_follow here looks named] at passed
              obtain ⟨fewer, rfl, further⟩ := followed passed
              exact .follow here looks named further
            · have noLink := not_exists.mp isLink
              rw [walkNames_enter here looks named noLink] at passed
              exact .enter here looks named noLink (ih passed)
      · obtain ⟨error, refused⟩ := walkNames_refused here stay back looks
        cases refused.symm.trans passed

/-- A walk succeeds exactly where its route leads. -/
theorem walk_eq_ok_iff {root : Entry} {purpose : Purpose} {links : Nat}
    {location finish : List String} {route : Route} :
    walk root purpose links location route = .ok finish ↔
      Leads root purpose links location route finish := by
  constructor
  · induction links generalizing location route finish with
    | zero =>
        intro passed
        rw [walk_eq] at passed
        exact leads_of_walkNames (fun impossible => by cases impossible) passed
    | succ links ih =>
        intro passed
        rw [walk_eq] at passed
        exact leads_of_walkNames (fun onwards => ⟨links, rfl, ih onwards⟩) passed
  · intro leads
    induction leads with
    | arrive directory =>
        rw [walk_eq, walkNames, arrive]
        split
        case isTrue isSlash =>
          obtain ⟨children, here⟩ := directory isSlash
          rw [here]
        case isFalse => rfl
    | stay here _ ih =>
        rw [walk_eq] at ih ⊢
        exact (walkNames_stay here _).trans ih
    | back here _ ih =>
        rw [walk_eq] at ih ⊢
        exact (walkNames_back here _).trans ih
    | stop here looks absent =>
        rw [walk_eq]
        exact walkNames_absent here looks absent
    | follow here looks named _ ih =>
        rw [walk_eq]
        exact (walkNames_follow here looks named).trans ih
    | enter here looks named noLink _ ih =>
        rw [walk_eq] at ih ⊢
        exact (walkNames_enter here looks named noLink).trans ih

namespace Leads

variable {root : Entry} {purpose : Purpose} {links : Nat} {start finish : List String}
  {route : Route}

theorem isEnd (leads : Leads root purpose links start route finish)
    (startEnds : route.names = [] → route.slash = false → root.IsEnd start) :
    root.IsEnd finish := by
  induction leads with
  | @arrive links location slash directory =>
      cases slash with
      | false => exact startEnds rfl rfl
      | true =>
          obtain ⟨children, here⟩ := directory rfl
          exact Entry.isEnd_of_directory here
  | stay here _ ih => exact ih fun _ _ => Entry.isEnd_of_directory here
  | back here _ ih =>
      obtain ⟨outer, above⟩ := Entry.exists_directory_dropLast here
      exact ih fun _ _ => Entry.isEnd_of_directory above
  | stop here _ absent => exact .inr ⟨_, _, _, rfl, here, absent⟩
  | @follow links location _ _ _ _ _ target here _ _ _ ih =>
      refine ih fun _ _ => ?_
      split
      · obtain ⟨outer, above⟩ := Entry.exists_directory_root here
        exact Entry.isEnd_of_directory above
      · exact Entry.isEnd_of_directory here
  | enter here _ named noLink _ ih =>
      exact ih fun _ _ => .inl ⟨_, (Entry.at?_concat here _).trans named, noLink⟩

/-- What leads somewhere leads there also where all directories and links are the
same, and what a file can be made at can be looked for. -/
theorem of_guides {other : Entry} {milder : Purpose}
    (leads : Leads root purpose links start route finish) (guides : root.Guides other)
    (eased : milder = .create → purpose = .create) :
    Leads other milder links start route finish := by
  have looksToo {name : String} {rest : List String} {slash : Bool}
      (looks : Looks purpose name rest slash) : Looks milder name rest slash := by
    obtain ⟨notStay, notBack, allowed, short⟩ := looks
    refine ⟨notStay, notBack, ?_, short⟩
    rintro ⟨isLast, isSlash, create⟩
    exact allowed ⟨isLast, isSlash, eased create⟩
  induction leads with
  | arrive directory =>
      refine .arrive fun isSlash => ?_
      obtain ⟨children, here⟩ := directory isSlash
      exact guides.directory here
  | stay here _ ih =>
      obtain ⟨inner, there⟩ := guides.directory here
      exact .stay there ih
  | back here _ ih =>
      obtain ⟨inner, there⟩ := guides.directory here
      exact .back there ih
  | @stop links location name children here looks absent =>
      obtain ⟨inner, there⟩ := guides.directory here
      cases named : inner.lookup name with
      | none => exact .stop there (looksToo looks) named
      | some entry =>
          -- What has been added there is no link, so the walk enters it.
          refine .enter there (looksToo looks) named ?_ (.arrive nofun)
          rintro target rfl
          have link := guides.link_iff.mp ((Entry.at?_concat there name).trans named)
          rw [Entry.at?_concat here, absent] at link
          cases link
  | follow here looks named _ ih =>
      obtain ⟨inner, there⟩ := guides.directory here
      have link := guides.link_iff.mpr ((Entry.at?_concat here _).trans named)
      rw [Entry.at?_concat there] at link
      exact .follow there (looksToo looks) link ih
  | @enter links location _ _ _ children name entry here looks named noLink _ ih =>
      obtain ⟨inner, there⟩ := guides.directory here
      have found := (Entry.at?_concat here name).trans named
      obtain ⟨other, otherFound⟩ := guides.present found
      refine .enter there (looksToo looks) ((Entry.at?_concat there name).symm.trans otherFound)
        ?_ ih
      rintro target rfl
      cases found.symm.trans (guides.link_iff.mp otherFound)
      exact noLink target rfl

end Leads

/-! ## Paths -/

theorem resolve_eq_ok_iff {tree : FileTree} {purpose : Purpose} {path : String}
    {location : List String} :
    tree.resolve purpose path = .ok location ↔
      path ≠ "" ∧ '\x00' ∉ path.toList ∧ path.utf8ByteSize ≤ Path.maxBytes ∧
        Leads tree.root purpose maxLinks (tree.origin path) (.ofPath path) location := by
  rw [← walk_eq_ok_iff, resolve]
  by_cases empty : path = ""
  · simp [empty]
  by_cases zero : '\x00' ∈ path.toList
  · simp [empty, zero]
  by_cases long : Path.maxBytes < path.utf8ByteSize
  · simp [empty, zero, long, Nat.not_le.mpr long]
  · simp [empty, zero, long, Nat.not_lt.mp long]

theorem resolve_of_guides {tree other : FileTree} {purpose milder : Purpose}
    {path : String} {location : List String}
    (guides : tree.root.Guides other.root)
    (sameStart : other.workingDirectory = tree.workingDirectory)
    (eased : milder = .create → purpose = .create)
    (resolved : tree.resolve purpose path = .ok location) :
    other.resolve milder path = .ok location := by
  rw [resolve_eq_ok_iff] at resolved ⊢
  obtain ⟨nonempty, noZero, short, leads⟩ := resolved
  rw [origin, sameStart]
  exact ⟨nonempty, noZero, short, leads.of_guides guides eased⟩

theorem isEnd_of_resolve {tree : FileTree} {purpose : Purpose} {path : String}
    {location : List String} (resolved : tree.resolve purpose path = .ok location) :
    tree.root.IsEnd location := by
  obtain ⟨nonempty, -, -, leads⟩ := resolve_eq_ok_iff.mp resolved
  refine leads.isEnd fun noNames noSlash => ?_
  have slash : (Route.ofPath path).slash = true := Path.endsInSlash_of_names nonempty noNames
  rw [noSlash] at slash
  cases slash

theorem look_eq_ok_iff {tree : FileTree} {path : String} {entry : Entry} :
    tree.look path = .ok entry ↔
      ∃ location, tree.resolve .find path = .ok location ∧
        tree.root.at? location = some entry := by
  unfold look
  rw [bind_eq_ok_iff]
  refine exists_congr fun location => and_congr_right fun _ => ?_
  cases tree.root.at? location <;> simp

/-- Where a text is written: not at a directory, and without a trace at a device. -/
theorem write_cases {tree after : FileTree} {path text : String}
    (written : tree.write path text = .ok after) :
    ∃ location, tree.resolve .create path = .ok location ∧
      (∀ children, tree.root.at? location ≠ some (.directory children)) ∧
      (tree.root.at? location = some .special ∧ after = tree ∨
        after = tree.put location (.file (some text))) := by
  obtain ⟨location, resolved, passed⟩ := bind_eq_ok_iff.mp written
  refine ⟨location, resolved, ?_⟩
  split at passed
  case h_1 => cases passed
  case h_2 device =>
    cases passed
    refine ⟨?_, .inl ⟨device, rfl⟩⟩
    intro children directory
    cases device.symm.trans directory
  all_goals
    rename_i here
    cases passed
    refine ⟨?_, .inr rfl⟩
    intro children directory
    cases here.symm.trans directory

theorem exists_write {tree : FileTree} {path : String} {location : List String}
    (resolved : tree.resolve .create path = .ok location)
    (noDirectory : ∀ children, tree.root.at? location ≠ some (.directory children))
    (text : String) : ∃ after, tree.write path text = .ok after := by
  rw [write, store, resolved, ok_bind]
  split
  case h_1 children here => exact absurd here (noDirectory children)
  all_goals exact ⟨_, rfl⟩

/-- A text that has been written to a path is found under it. -/
theorem look_of_write {tree after : FileTree} {path text : String}
    (written : tree.write path text = .ok after) (noDevice : tree.look path ≠ .ok .special) :
    after.look path = .ok (.file (some text)) := by
  obtain ⟨location, resolved, noDirectory, ⟨device, -⟩ | rfl⟩ := write_cases written
  · have found : tree.resolve .find path = .ok location :=
      resolve_of_guides (.refl tree.root) rfl nofun resolved
    exact absurd (look_eq_ok_iff.mpr ⟨location, found, device⟩) noDevice
  · have free := (isEnd_of_resolve resolved).free noDirectory
    have found :
        (tree.put location (.file (some text))).resolve .find path = .ok location :=
      resolve_of_guides (Entry.guides_put_file free _) rfl nofun resolved
    exact look_eq_ok_iff.mpr ⟨location, found, Entry.at?_put_self _ _ _⟩

/-! ## Prolonged paths -/

/-- A route to a directory goes on with further names from there. -/
theorem Leads.prolong {root : Entry} {links : Nat} {start finish : List String}
    {route : Route} {children : List (String × Entry)} {way : List String}
    (leads : Leads root .find links start route finish)
    (directory : root.at? finish = some (.directory children)) (further : way ≠ []) :
    ∃ follow, walk root .find links start ⟨route.names ++ way, false⟩ =
      walkNames root .find false follow finish way := by
  have looksOn {name : String} {rest : List String} {slash : Bool}
      (looks : Looks .find name rest slash) : Looks .find name (rest ++ way) false :=
    ⟨looks.1, looks.2.1, nofun, looks.2.2.2⟩
  -- No step looks further than the next name, so each one is made as before.
  induction leads with
  | arrive _ => exact ⟨_, walk_eq _ _ _ _ _⟩
  | stay here _ ih =>
      obtain ⟨follow, ih⟩ := ih directory
      rw [walk_eq] at ih
      exact ⟨follow, (walk_eq _ _ _ _ _).trans ((walkNames_stay here _).trans ih)⟩
  | back here _ ih =>
      obtain ⟨follow, ih⟩ := ih directory
      rw [walk_eq] at ih
      exact ⟨follow, (walk_eq _ _ _ _ _).trans ((walkNames_back here _).trans ih)⟩
  | stop here _ absent =>
      rw [Entry.at?_concat here, absent] at directory
      cases directory
  | @follow links location finish rest slash _ name target here looks named _ ih =>
      obtain ⟨follow, ih⟩ := ih directory
      have sameRoute : linkRoute target (rest ++ way) false =
          ⟨(linkRoute target rest slash).names ++ way, false⟩ := by
        simp [linkRoute, further]
      refine ⟨follow, ?_⟩
      rw [walk_eq]
      refine (walkNames_follow here (looksOn looks) named).trans ?_
      rw [sameRoute]
      exact ih
  | enter here looks named noLink _ ih =>
      obtain ⟨follow, ih⟩ := ih directory
      rw [walk_eq] at ih
      exact ⟨follow, (walk_eq _ _ _ _ _).trans
        ((walkNames_enter here (looksOn looks) named noLink).trans ih)⟩

/-- A way down without hidden names is gone unless one of the names is too long. -/
theorem walkNames_reaches {root entry target : Entry} {location way : List String}
    {follow : List String → Route → Except FileError (List String)}
    (here : root.at? location = some entry) (wellNamed : entry.WellNamed)
    (reached : entry.Reaches way target) (noLink : ∀ aim, target ≠ .link aim)
    (shown : ∀ name ∈ way, ∀ rest, name ≠ "." ++ rest) :
    walkNames root .find false follow location way =
      if ∃ name ∈ way, Path.maxNameBytes < name.utf8ByteSize then .error .nameTooLong
      else .ok (location ++ way) := by
  induction reached generalizing location with
  | here => simp [walkNames, arrive]
  | @enter children name entry target rest listed further ih =>
      obtain ⟨nameShown, restShown⟩ := List.forall_mem_cons.mp shown
      have named := Entry.lookup_eq_some_of_nodup (wellNamed [] _ (.here _)).1 listed
      have noLinkHere : ∀ aim, entry ≠ .link aim := by
        rintro aim rfl
        cases further
        exact noLink aim rfl
      have notStay : name ≠ "." := nameShown ""
      have notBack : name ≠ ".." := nameShown "."
      by_cases long : Path.maxNameBytes < name.utf8ByteSize
      · have someLong : ∃ other ∈ name :: rest, Path.maxNameBytes < other.utf8ByteSize :=
          ⟨name, List.mem_cons_self, long⟩
        rw [walkNames, here, if_pos someLong]
        dsimp only
        rw [if_neg notStay, if_neg notBack, if_neg nofun, if_pos long]
      · have looks : Looks .find name rest false := ⟨notStay, notBack, nofun, long⟩
        rw [walkNames_enter here looks named noLinkHere,
          ih ((Entry.at?_concat here name).trans named) (wellNamed.child listed) noLink
            restShown]
        simp [long]

/-- Why a path that prolongs another one by a way down is refused, if it is. -/
def refusal? (path : String) (way : List String) : Option FileError :=
  if '\x00' ∈ path.toList then some .zeroInName
  else if Path.maxBytes < path.utf8ByteSize ∨
      ∃ name ∈ way, Path.maxNameBytes < name.utf8ByteSize then some .nameTooLong
  else none

/-- Under the path of something below a directory is just that, unless the path is
refused. -/
theorem look_joinAll {tree : FileTree} {path : String} {children : List (String × Entry)}
    {way : List String} {target : Entry}
    (directory : tree.look path = .ok (.directory children))
    (wellNamed : (Entry.directory children).WellNamed)
    (shows : (Entry.directory children).Shows way target) (noLink : ∀ aim, target ≠ .link aim) :
    tree.look (Path.joinAll path way) =
      unlessFault (refusal? (Path.joinAll path way) way) target := by
  obtain ⟨location, resolved, here⟩ := look_eq_ok_iff.mp directory
  obtain ⟨nonempty, -, -, leads⟩ := resolve_eq_ok_iff.mp resolved
  obtain ⟨below, reached, shown⟩ := shows
  have areNames := wellNamed.names reached
  cases way with
  | nil => exact absurd rfl below
  | cons name rest =>
      obtain ⟨follow, prolonged⟩ := leads.prolong here (List.cons_ne_nil name rest)
      have route : Route.ofPath (Path.joinAll path (name :: rest)) =
          ⟨(Route.ofPath path).names ++ name :: rest, false⟩ := by
        rw [Route.ofPath, Path.names_joinAll areNames, Path.endsInSlash_joinAll areNames]
        rfl
      have start : tree.origin (Path.joinAll path (name :: rest)) = tree.origin path := by
        rw [origin, Path.isAbsolute_joinAll nonempty areNames, origin]
      have notEmpty : Path.joinAll path (name :: rest) ≠ "" := by
        intro empty
        have noNames : Path.names (Path.joinAll path (name :: rest)) = _ :=
          Path.names_joinAll areNames
        rw [empty] at noNames
        exact List.append_ne_nil_of_right_ne_nil _ (List.cons_ne_nil _ _) noNames.symm
      rw [walkNames_reaches here wellNamed reached noLink shown] at prolonged
      have found : tree.root.at? (location ++ name :: rest) = some target := by
        rw [Entry.at?_append, here]
        exact wellNamed.at?_of_reaches reached
      rw [look, resolve, if_neg notEmpty, start, route, prolonged, refusal?]
      by_cases zero : '\x00' ∈ (Path.joinAll path (name :: rest)).toList
      · rw [if_pos zero, if_pos (List.contains_iff_mem.mpr zero)]
        rfl
      · rw [if_neg zero, if_neg (mt List.contains_iff_mem.mp zero)]
        by_cases long : Path.maxBytes < (Path.joinAll path (name :: rest)).utf8ByteSize
        · rw [if_pos long, if_pos (.inl long)]
          rfl
        · by_cases someLong : ∃ other ∈ name :: rest, Path.maxNameBytes < other.utf8ByteSize
          · rw [if_neg long, if_pos someLong, if_pos (.inr someLong)]
            rfl
          · rw [if_neg long, if_neg someLong, if_neg (not_or.mpr ⟨long, someLong⟩), ok_bind,
              found]
            rfl

end FileTree

end RsaAudit
