import Mathlib.Tactic.ByContra
import Mathlib.Tactic.SplitIfs
import RsaAudit.Files.Path

/-!
# Paths and the names they are made of

Names are compared by their characters, which is the same as comparing them byte by
byte: UTF-8 writes a smaller character with a smaller sequence of bytes, and the two
sequences differ before either of them ends.

Names without a slash can be told apart in the path that they are joined to, so
different ways down from a directory have different paths.
-/

namespace RsaAudit.Path

/-! ## The order of names -/

def bytes (text : String) : List UInt8 :=
  text.toUTF8.data.toList

theorem bytes_eq_flatMap (text : String) :
    bytes text = text.toList.flatMap String.utf8EncodeChar := by
  change text.toByteArray.data.toList = _
  rw [← String.utf8Encode_toList, List.utf8Encode, List.toList_data_toByteArray]

/-- The codes of the bytes that write the character with a given code. -/
def byteCodes (code : Nat) : List Nat :=
  if code ≤ 127 then [code]
  else if code ≤ 2047 then [code / 64 % 32 + 192, code % 64 + 128]
  else if code ≤ 65535 then
    [code / 4096 % 16 + 224, code / 64 % 64 + 128, code % 64 + 128]
  else
    [code / 262144 % 8 + 240, code / 4096 % 64 + 128, code / 64 % 64 + 128,
      code % 64 + 128]

theorem utf8EncodeChar_eq_map (char : Char) :
    String.utf8EncodeChar char = (byteCodes char.val.toNat).map UInt8.ofNat := by
  unfold String.utf8EncodeChar byteCodes
  dsimp only
  split_ifs <;> rfl

/-- At the first place where two rows of codes differ, and before either ends, the
first row has the smaller code. -/
def Diverges : List Nat → List Nat → Prop
  | first :: firsts, second :: seconds =>
      first < second ∨ first = second ∧ Diverges firsts seconds
  | _, _ => False

theorem diverges_byteCodes {first second : Nat} (less : first < second)
    (bounded : second < 0x110000) : Diverges (byteCodes first) (byteCodes second) := by
  have third (code : Nat) : code / 4096 = code / 64 / 64 :=
    (Nat.div_div_eq_div_mul code 64 64).symm
  have fourth (code : Nat) : code / 262144 = code / 64 / 64 / 64 := by
    rw [← third, Nat.div_div_eq_div_mul]
  unfold byteCodes
  -- A longer sequence starts with a greater byte, so only equal lengths compare digits.
  split_ifs <;> simp only [Diverges, third, fourth] <;> omega

theorem byteCodes_lt (code : Nat) : ∀ byte ∈ byteCodes code, byte < 256 := by
  unfold byteCodes
  split_ifs <;> simp only [List.mem_cons, List.not_mem_nil, or_false, forall_eq_or_imp,
    forall_eq] <;> omega

theorem Diverges.append_lt_append {firsts seconds : List Nat}
    (diverges : Diverges firsts seconds) (small : ∀ code ∈ seconds, code < 256)
    (afterFirsts afterSeconds : List UInt8) :
    firsts.map UInt8.ofNat ++ afterFirsts < seconds.map UInt8.ofNat ++ afterSeconds := by
  induction firsts generalizing seconds with
  | nil => cases seconds <;> exact diverges.elim
  | cons first firsts ih =>
      cases seconds with
      | nil => exact diverges.elim
      | cons second seconds =>
          obtain ⟨smallSecond, smallSeconds⟩ := List.forall_mem_cons.mp small
          rw [List.map_cons, List.map_cons, List.cons_append, List.cons_append,
            List.cons_lt_cons_iff]
          rcases diverges with less | ⟨rfl, later⟩
          · left
            rw [UInt8.lt_iff_toNat_lt, UInt8.toNat_ofNat_of_lt' smallSecond,
              UInt8.toNat_ofNat_of_lt' (Nat.lt_trans less smallSecond)]
            exact less
          · exact .inr ⟨rfl, ih later smallSeconds⟩

theorem utf8EncodeChar_append_lt {first second : Char} (less : first < second)
    (afterFirst afterSecond : List UInt8) :
    String.utf8EncodeChar first ++ afterFirst <
      String.utf8EncodeChar second ++ afterSecond := by
  have codes : first.val.toNat < second.val.toNat := less
  have bounded : second.val.toNat < 0x110000 := by
    rcases second.valid with low | ⟨-, high⟩
    · exact Nat.lt_trans low (by decide)
    · exact high
  rw [utf8EncodeChar_eq_map, utf8EncodeChar_eq_map]
  exact (diverges_byteCodes codes bounded).append_lt_append (byteCodes_lt _) _ _

theorem utf8EncodeChar_ne_nil (char : Char) : String.utf8EncodeChar char ≠ [] := by
  rw [utf8EncodeChar_eq_map]
  unfold byteCodes
  split_ifs <;> simp

/-- The smaller of two texts has the smaller bytes. -/
theorem bytes_lt_bytes {first second : String} (less : first < second) :
    bytes first < bytes second := by
  rw [bytes_eq_flatMap, bytes_eq_flatMap]
  have chars : first.toList < second.toList := less
  generalize first.toList = firsts at chars ⊢
  generalize second.toList = seconds at chars ⊢
  induction chars with
  | nil =>
      rename_i char rest
      rw [List.flatMap_nil, List.flatMap_cons]
      cases encoded : String.utf8EncodeChar char with
      | nil => exact absurd encoded (utf8EncodeChar_ne_nil char)
      | cons byte later => exact List.nil_lt_cons _ _
  | rel less =>
      rw [List.flatMap_cons, List.flatMap_cons]
      exact utf8EncodeChar_append_lt less _ _
  | cons _ ih =>
      rw [List.flatMap_cons, List.flatMap_cons]
      exact List.append_left_lt ih

/-! ## Joining names -/

/-- A name that an entry of a directory can have. -/
def IsName (name : String) : Prop :=
  name ≠ "" ∧ '/' ∉ name.toList

instance (name : String) : Decidable (IsName name) :=
  inferInstanceAs (Decidable (name ≠ "" ∧ '/' ∉ name.toList))

/-- The characters of names, each after a slash. -/
def slashed (names : List String) : List Char :=
  names.flatMap fun name => '/' :: name.toList

/-- A directory as the start of the paths of its entries. -/
def stem (directory : String) : String :=
  if endsInSlash directory then directory else directory ++ "/"

theorem join_eq (directory name : String) : join directory name = stem directory ++ name := by
  unfold join stem
  split <;> rfl

theorem IsName.getLast?_toList {name : String} (isName : IsName name) :
    ∃ char, name.toList.getLast? = some char ∧ char ≠ '/' := by
  obtain ⟨nonempty, noSlash⟩ := isName
  have chars : name.toList ≠ [] := by
    intro empty
    exact nonempty (String.toList_eq_nil_iff.mp empty)
  refine ⟨name.toList.getLast chars, List.getLast?_eq_some_getLast chars, ?_⟩
  intro slash
  exact noSlash (slash ▸ List.getLast_mem chars)

theorem endsInSlash_join {directory name : String} (isName : IsName name) :
    endsInSlash (join directory name) = false := by
  obtain ⟨char, last, noSlash⟩ := isName.getLast?_toList
  rw [endsInSlash, join_eq, String.toList_append, List.getLast?_append, last]
  simpa using noSlash

theorem stem_join {directory name : String} (isName : IsName name) :
    stem (join directory name) = join directory name ++ "/" := by
  rw [stem, endsInSlash_join isName]
  rfl

theorem toList_joinAll {directory name : String} {rest : List String}
    (areNames : ∀ other ∈ name :: rest, IsName other) :
    (joinAll directory (name :: rest)).toList =
      (stem directory).toList ++ name.toList ++ slashed rest := by
  induction rest generalizing directory name with
  | nil =>
      change (join directory name).toList = _
      rw [join_eq, String.toList_append, slashed, List.flatMap_nil, List.append_nil]
  | cons next rest ih =>
      obtain ⟨isName, later⟩ := List.forall_mem_cons.mp areNames
      change (joinAll (join directory name) (next :: rest)).toList = _
      rw [ih later, stem_join isName, join_eq, slashed, slashed, List.flatMap_cons]
      simp

theorem pieces_of_no_slash {chars : List Char} (noSlash : '/' ∉ chars) :
    pieces chars = [chars] := by
  induction chars with
  | nil => rfl
  | cons char rest ih =>
      obtain ⟨notHere, notLater⟩ := not_or.mp (mt List.mem_cons.mpr noSlash)
      rw [pieces, if_neg (Ne.symm notHere), ih notLater]

theorem pieces_ne_nil (chars : List Char) : pieces chars ≠ [] := by
  cases chars with
  | nil => exact List.cons_ne_nil _ _
  | cons char rest =>
      rw [pieces]
      split
      · exact List.cons_ne_nil _ _
      · split <;> exact List.cons_ne_nil _ _

theorem pieces_append_slash (chars rest : List Char) :
    pieces (chars ++ '/' :: rest) = pieces chars ++ pieces rest := by
  induction chars with
  | nil => rfl
  | cons char chars ih =>
      rw [List.cons_append, pieces, pieces, ih]
      split
      · rfl
      · cases found : pieces chars with
        | nil => exact absurd found (pieces_ne_nil chars)
        | cons piece later => rfl

theorem pieces_slashed {name : String} {rest : List String}
    (areNames : ∀ other ∈ name :: rest, IsName other) :
    pieces (name.toList ++ slashed rest) = (name :: rest).map String.toList := by
  induction rest generalizing name with
  | nil =>
      have isName := areNames name List.mem_cons_self
      rw [slashed, List.flatMap_nil, List.append_nil, pieces_of_no_slash isName.2]
      rfl
  | cons next rest ih =>
      obtain ⟨isName, later⟩ := List.forall_mem_cons.mp areNames
      rw [slashed, List.flatMap_cons, List.cons_append, pieces_append_slash,
        pieces_of_no_slash isName.2, List.map_cons]
      exact congrArg (name.toList :: ·) (ih later)

/-- Different ways down from a directory have different paths. -/
theorem joinAll_injective {directory : String} {first second : List String}
    (firstNames : ∀ name ∈ first, IsName name)
    (secondNames : ∀ name ∈ second, IsName name)
    (same : joinAll directory first = joinAll directory second) : first = second := by
  -- A path that goes down is longer than the directory where it starts.
  have longer {name : String} {rest : List String}
      (areNames : ∀ other ∈ name :: rest, IsName other) :
      joinAll directory (name :: rest) ≠ directory := by
    intro back
    have chars := congrArg (List.length ∘ String.toList) back
    have nonempty : name.toList.length ≠ 0 := by
      intro empty
      have := List.eq_nil_of_length_eq_zero empty
      exact (areNames name List.mem_cons_self).1 (String.toList_eq_nil_iff.mp this)
    have stemLength : directory.toList.length ≤ (stem directory).toList.length := by
      unfold stem
      split <;> simp
    simp only [Function.comp, toList_joinAll areNames, List.length_append] at chars
    omega
  cases first with
  | nil =>
      cases second with
      | nil => rfl
      | cons name rest => exact absurd same.symm (longer secondNames)
  | cons name rest =>
      cases second with
      | nil => exact absurd same (longer firstNames)
      | cons other later =>
          have chars := congrArg String.toList same
          rw [toList_joinAll firstNames, toList_joinAll secondNames, List.append_assoc,
            List.append_assoc, List.append_cancel_left_eq] at chars
          have pieces := congrArg pieces chars
          rw [pieces_slashed firstNames, pieces_slashed secondNames] at pieces
          exact (List.map_inj_right fun _ _ => String.toList_inj.mp).mp pieces

/-! ## Names and ends of paths -/

theorem exists_piece {char : Char} {chars : List Char} (member : char ∈ chars)
    (noSlash : char ≠ '/') : ∃ piece ∈ pieces chars, char ∈ piece := by
  induction chars with
  | nil => cases member
  | cons first rest ih =>
      rw [pieces]
      rcases List.mem_cons.mp member with rfl | later
      · rw [if_neg noSlash]
        split
        · exact ⟨_, List.mem_cons_self, List.mem_cons_self⟩
        · exact ⟨_, List.mem_cons_self, List.mem_cons_self⟩
      · obtain ⟨piece, found, inPiece⟩ := ih later
        split
        · exact ⟨piece, List.mem_cons_of_mem _ found, inPiece⟩
        · split
          case h_1 none =>
            rw [none] at found
            cases found
          case h_2 head others some =>
            rw [some] at found
            rcases List.mem_cons.mp found with rfl | inOthers
            · exact ⟨_, List.mem_cons_self, List.mem_cons_of_mem _ inPiece⟩
            · exact ⟨piece, List.mem_cons_of_mem _ inOthers, inPiece⟩

/-- A path without names consists of slashes. -/
theorem endsInSlash_of_names {path : String} (nonempty : path ≠ "")
    (noNames : names path = []) : endsInSlash path = true := by
  have chars : path.toList ≠ [] := by
    intro empty
    exact nonempty (String.toList_eq_nil_iff.mp empty)
  rw [endsInSlash, List.getLast?_eq_some_getLast chars, beq_iff_eq]
  by_contra noSlash
  obtain ⟨piece, found, inPiece⟩ := exists_piece (List.getLast_mem chars)
    (fun slash => noSlash (congrArg some slash))
  rw [names, List.map_eq_nil_iff, List.filter_eq_nil_iff] at noNames
  have isEmpty := noNames piece found
  simp only [Bool.not_eq_true', Bool.not_eq_false, List.isEmpty_iff] at isEmpty
  rw [isEmpty] at inPiece
  cases inPiece

theorem exists_stem_front (directory : String) :
    ∃ front, (stem directory).toList = front ++ ['/'] ∧
      names directory = ((pieces front).filter (!·.isEmpty)).map String.ofList := by
  unfold stem
  split
  case isTrue slash =>
    rw [endsInSlash, beq_iff_eq] at slash
    obtain ⟨front, split⟩ := List.getLast?_eq_some_iff.mp slash
    refine ⟨front, split, ?_⟩
    rw [names, split, pieces_append_slash, List.filter_append]
    simp [pieces]
  case isFalse => exact ⟨directory.toList, by simp, rfl⟩

theorem names_joinAll {directory name : String} {rest : List String}
    (areNames : ∀ other ∈ name :: rest, IsName other) :
    names (joinAll directory (name :: rest)) = names directory ++ name :: rest := by
  obtain ⟨front, split, before⟩ := exists_stem_front directory
  have nonempty : ∀ chars ∈ (name :: rest).map String.toList, (!chars.isEmpty) = true := by
    intro chars member
    obtain ⟨other, listed, rfl⟩ := List.mem_map.mp member
    simpa using (areNames other listed).1
  rw [names, toList_joinAll areNames, split, List.append_assoc, List.append_assoc,
    List.singleton_append, pieces_append_slash, pieces_slashed areNames, List.filter_append,
    List.map_append, ← before, List.filter_eq_self.mpr nonempty, List.map_map]
  simp

theorem endsInSlash_joinAll {directory name : String} {rest : List String}
    (areNames : ∀ other ∈ name :: rest, IsName other) :
    endsInSlash (joinAll directory (name :: rest)) = false := by
  induction rest generalizing directory name with
  | nil => exact endsInSlash_join (areNames name List.mem_cons_self)
  | cons next rest ih => exact ih (List.forall_mem_cons.mp areNames).2

theorem isAbsolute_joinAll {directory name : String} {rest : List String}
    (nonempty : directory ≠ "") (areNames : ∀ other ∈ name :: rest, IsName other) :
    isAbsolute (joinAll directory (name :: rest)) = isAbsolute directory := by
  obtain ⟨first, chars, split⟩ : ∃ first chars, directory.toList = first :: chars := by
    rw [← List.ne_nil_iff_exists_cons]
    simpa using nonempty
  rw [isAbsolute, isAbsolute, toList_joinAll areNames, stem]
  split <;> simp [split]

end RsaAudit.Path
