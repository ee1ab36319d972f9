/-!
# Sets of symbol names

A policy names hashes, hash constructors and entropy sources by text.  A set of
such names is a strictly increasing list, so that equal sets are equal values
and a set is listed in one order only, that of its code points.
-/

namespace RsaAudit

/-- A finite set of names, listed in increasing order. -/
structure SymbolSet where
  names : List String
  increasing : names.Pairwise (· < ·)
  deriving DecidableEq

namespace SymbolSet

/-- Put a name at its place in an increasing list, unless it is there already. -/
def place (name : String) : List String → List String
  | [] => [name]
  | head :: tail =>
      if name < head then name :: head :: tail
      else if name = head then head :: tail
      else head :: place name tail

theorem mem_place (name other : String) (names : List String) :
    other ∈ place name names ↔ other = name ∨ other ∈ names := by
  induction names with
  | nil => simp [place]
  | cons head tail ih => grind [place]

theorem pairwise_place (name : String) (names : List String)
    (increasing : names.Pairwise (· < ·)) :
    (place name names).Pairwise (· < ·) := by
  induction names with
  | nil => simp [place]
  | cons head tail ih =>
      grind [place, mem_place, List.pairwise_cons, String.lt_trans, String.not_lt]

def empty : SymbolSet := ⟨[], .nil⟩

def insert (name : String) (set : SymbolSet) : SymbolSet :=
  ⟨place name set.names, pairwise_place name set.names set.increasing⟩

/-- The set of the names in a list, whatever their order and repetitions. -/
def ofList (names : List String) : SymbolSet :=
  names.foldl (fun set name => set.insert name) empty

def contains (set : SymbolSet) (name : String) : Bool :=
  set.names.contains name

def isEmpty (set : SymbolSet) : Bool :=
  set.names.isEmpty

instance : Membership String SymbolSet where
  mem set name := name ∈ set.names

instance (name : String) (set : SymbolSet) : Decidable (name ∈ set) :=
  inferInstanceAs (Decidable (name ∈ set.names))

instance : Inhabited SymbolSet := ⟨empty⟩

theorem mem_insert (name other : String) (set : SymbolSet) :
    other ∈ set.insert name ↔ other = name ∨ other ∈ set :=
  mem_place name other set.names

theorem contains_iff (name : String) (set : SymbolSet) :
    set.contains name = true ↔ name ∈ set :=
  List.contains_iff_mem

end SymbolSet

end RsaAudit
