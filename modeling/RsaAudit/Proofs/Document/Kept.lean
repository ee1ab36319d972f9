import RsaAudit.Json.Readable
import RsaAudit.Proofs.FirstFault
import RsaAudit.Proofs.Json.Nesting

/-!
# What is kept of a JSON value

A JSON value whose texts and numerals are in order is kept if it fits into the
levels that are left, and is malformed if it does not.  Whatever is kept is no
deeper than the levels allow.
-/

namespace RsaAudit

namespace Value

mutual

/-- The number of lists and maps around the innermost part of a value, keys
aside. -/
def depth : Value → Nat
  | .list items => itemsDepth items + 1
  | .map entries => entriesDepth entries + 1
  | _ => 0

def itemsDepth : List Value → Nat
  | [] => 0
  | item :: rest => max item.depth (itemsDepth rest)

def entriesDepth : List (Value × Value) → Nat
  | [] => 0
  | (_, value) :: rest => max value.depth (entriesDepth rest)

end

theorem depth_le_itemsDepth {item : Value} {items : List Value} (member : item ∈ items) :
    item.depth ≤ itemsDepth items := by
  induction items with
  | nil => cases member
  | cons first rest ih =>
      rw [itemsDepth]
      rcases List.mem_cons.mp member with rfl | later
      · exact Nat.le_max_left _ _
      · exact (ih later).trans (Nat.le_max_right _ _)

theorem depth_le_entriesDepth {entry : Value × Value} {entries : List (Value × Value)}
    (member : entry ∈ entries) : entry.2.depth ≤ entriesDepth entries := by
  induction entries with
  | nil => cases member
  | cons first rest ih =>
      rw [entriesDepth]
      rcases List.mem_cons.mp member with rfl | later
      · exact Nat.le_max_left _ _
      · exact (ih later).trans (Nat.le_max_right _ _)

def parts : Value → List Value
  | .list items => items
  | .map entries => entries.map Prod.snd
  | _ => []

theorem depth_lt_of_mem_parts {part value : Value} (member : part ∈ value.parts) :
    part.depth < value.depth := by
  cases value with
  | list items => exact Nat.lt_succ_of_le (depth_le_itemsDepth member)
  | map entries =>
      obtain ⟨entry, listed, rfl⟩ := List.mem_map.mp member
      exact Nat.lt_succ_of_le (depth_le_entriesDepth listed)
  | _ => cases member

end Value

namespace Json

/-- A numeral that stands for a number in range. -/
def Numeral.InRange (numeral : Numeral) : Prop :=
  numeral.number?.isSome = true

/-- The value that a numeral in range is kept as. -/
def Numeral.kept (numeral : Numeral) : Value :=
  (numeral.number?.map Number.toValue).getD .null

theorem Numeral.InRange.toValue {numeral : Numeral} (inRange : numeral.InRange) :
    numeral.toValue = .ok numeral.kept := by
  obtain ⟨number, found⟩ := Option.isSome_iff_exists.mp inRange
  rw [Numeral.toValue, Numeral.kept, found]
  rfl

mutual

/-- The value that a JSON value is kept as. -/
def kept : Json → Value
  | .null | .broken => .null
  | .bool value => .bool value
  | .number numeral => numeral.kept
  | .text content => .text (content.getD "")
  | .list items => .list (keptItems items)
  | .object members => .map (keptMembers members)

def keptItems : List Json → List Value
  | [] => []
  | item :: rest => item.kept :: keptItems rest

def keptMembers : List (Option String × Json) → List (Value × Value)
  | [] => []
  | (key, value) :: rest => (.text (key.getD ""), value.kept) :: keptMembers rest

end

theorem keptItems_eq_map (items : List Json) : keptItems items = items.map kept := by
  induction items with
  | nil => rfl
  | cons item rest ih => rw [keptItems, ih, List.map_cons]

theorem kept_record (members : List (String × Json)) :
    (record members).kept =
      .map (members.map fun member => (.text member.1, member.2.kept)) := by
  rw [record, kept]
  congr 1
  induction members with
  | nil => rfl
  | cons member rest ih =>
      rw [List.map_cons, keptMembers, ih]
      rfl

/-- A value if it fits into the levels that are left. -/
def ifFits {Kept : Type} (depth levels : Nat) (value : Kept) : Except Reason Kept :=
  if depth ≤ levels then .ok value else .error .malformed

theorem toText_of_isSome {content : Option String} (complete : content.isSome = true) :
    toText content = .ok (content.getD "") := by
  obtain ⟨text, rfl⟩ := Option.isSome_iff_exists.mp complete
  rfl

theorem ifFits_map {Kept Whole : Type} (make : Kept → Whole) (depth levels : Nat)
    (value : Kept) :
    make <$> ifFits depth levels value = ifFits depth levels (make value) := by
  unfold ifFits
  split <;> rfl

theorem ifFits_bind {Kept Whole : Type} (depth levels : Nat) (value : Kept)
    (continuation : Kept → Except Reason Whole) (later : Nat) (whole : Whole)
    (continued : continuation value = ifFits later levels whole) :
    ifFits depth levels value >>= continuation =
      ifFits (max depth later) levels whole := by
  unfold ifFits at continued ⊢
  by_cases fits : depth ≤ levels
  · rw [if_pos fits]
    refine continued.trans ?_
    simp only [Nat.max_le, fits, true_and]
  · rw [if_neg fits, if_neg (by omega)]
    rfl

theorem ifFits_bind_ok {Kept Whole : Type} (depth levels : Nat) {value : Kept}
    {continuation : Kept → Except Reason Whole} {whole : Whole}
    (continued : continuation value = .ok whole) :
    ifFits depth levels value >>= continuation = ifFits depth levels whole := by
  rw [ifFits_bind depth levels value continuation 0 whole continued, Nat.max_zero]

theorem ifFits_succ {Kept : Type} (depth levels : Nat) (value : Kept) :
    ifFits (depth + 1) (levels + 1) value = ifFits depth levels value := by
  simp only [ifFits, Nat.add_le_add_iff_right]

theorem layout_record (members : List (String × Json)) :
    layout (record members) =
      .ok (.keyed (members.map fun member => (.text (some member.1), member.2))) := by
  rw [record, layout, List.map_map]
  rfl

mutual

theorem keepWithin_eq (levels : Nat) (json : Json)
    (spellable : json.Spellable Numeral.InRange) :
    keepWithin levels json = ifFits json.depth levels json.kept := by
  cases json with
  | null | bool _ => rfl
  | number numeral =>
      rw [Spellable] at spellable
      exact spellable.toValue
  | text content =>
      rw [Spellable] at spellable
      rw [keepWithin, toText_of_isSome spellable]
      rfl
  | list items =>
      rw [Spellable] at spellable
      cases levels with
      | zero => rfl
      | succ inner =>
          rw [keepWithin, keepItems_eq inner items spellable, ifFits_map, depth, kept,
            ifFits_succ]
  | object members =>
      rw [Spellable] at spellable
      cases levels with
      | zero => rfl
      | succ inner =>
          rw [keepWithin, keepMembers_eq inner members spellable, ifFits_map, depth, kept,
            ifFits_succ]
  | broken =>
      rw [Spellable] at spellable
      exact spellable.elim

theorem keepItems_eq (levels : Nat) (items : List Json)
    (spellable : SpellableItems Numeral.InRange items) :
    keepItems levels items = ifFits (itemsDepth items) levels (keptItems items) := by
  match items, spellable with
  | [], _ => rfl
  | item :: rest, spellable =>
      rw [SpellableItems] at spellable
      rw [keepItems, keepWithin_eq levels item spellable.1, itemsDepth, keptItems]
      apply ifFits_bind
      rw [keepItems_eq levels rest spellable.2]
      exact ifFits_map (item.kept :: ·) _ _ _

theorem keepMembers_eq (levels : Nat) (members : List (Option String × Json))
    (spellable : SpellableMembers Numeral.InRange members) :
    keepMembers levels members =
      ifFits (membersDepth members) levels (keptMembers members) := by
  match members, spellable with
  | [], _ => rfl
  | (key, value) :: rest, spellable =>
      rw [SpellableMembers] at spellable
      obtain ⟨complete, ofValue, ofRest⟩ := spellable
      rw [keepMembers, toText_of_isSome complete, keepWithin_eq levels value ofValue,
        membersDepth, keptMembers]
      apply ifFits_bind
      rw [keepMembers_eq levels rest ofRest]
      exact ifFits_map ((Value.text (key.getD ""), value.kept) :: ·) _ _ _

end

theorem Numeral.inRange_of_toValue {numeral : Numeral} {value : Value}
    (read : numeral.toValue = .ok value) : numeral.InRange := by
  unfold Numeral.toValue at read
  split at read
  case h_1 found => exact Option.isSome_iff_exists.mpr ⟨_, found⟩
  case h_2 => cases read

mutual

/-- Only what is in order is kept. -/
theorem spellable_of_keepWithin {levels : Nat} {json : Json} {value : Value}
    (read : keepWithin levels json = .ok value) : json.Spellable Numeral.InRange := by
  cases json with
  | null | bool _ => trivial
  | number numeral => exact Numeral.inRange_of_toValue read
  | text content =>
      cases content with
      | none => cases read
      | some text => exact rfl
  | list items =>
      cases levels with
      | zero => cases read
      | succ inner =>
          rw [keepWithin, map_eq_ok_iff] at read
          obtain ⟨values, read, -⟩ := read
          exact spellable_of_keepItems read
  | object members =>
      cases levels with
      | zero => cases read
      | succ inner =>
          rw [keepWithin, map_eq_ok_iff] at read
          obtain ⟨entries, read, -⟩ := read
          exact spellable_of_keepMembers read
  | broken => cases read

theorem spellable_of_keepItems {levels : Nat} {items : List Json} {values : List Value}
    (read : keepItems levels items = .ok values) : SpellableItems Numeral.InRange items := by
  match items with
  | [] => trivial
  | item :: rest =>
      rw [keepItems, bind_eq_ok_iff] at read
      obtain ⟨first, ofItem, read⟩ := read
      obtain ⟨later, ofRest, -⟩ := bind_eq_ok_iff.mp read
      exact ⟨spellable_of_keepWithin ofItem, spellable_of_keepItems ofRest⟩

theorem spellable_of_keepMembers {levels : Nat} {members : List (Option String × Json)}
    {entries : List (Value × Value)} (read : keepMembers levels members = .ok entries) :
    SpellableMembers Numeral.InRange members := by
  match members with
  | [] => trivial
  | (none, value) :: rest => cases read
  | (some name, value) :: rest =>
      rw [keepMembers, toText, ok_bind, bind_eq_ok_iff] at read
      obtain ⟨first, ofValue, read⟩ := read
      obtain ⟨later, ofRest, -⟩ := bind_eq_ok_iff.mp read
      exact ⟨rfl, spellable_of_keepWithin ofValue, spellable_of_keepMembers ofRest⟩

end

theorem eq_kept_of_keepWithin {levels : Nat} {json : Json} {value : Value}
    (read : keepWithin levels json = .ok value) : value = json.kept := by
  rw [keepWithin_eq levels json (spellable_of_keepWithin read), ifFits] at read
  split at read
  · exact (Except.ok.inj read).symm
  · cases read

theorem Numeral.depth_of_toValue {numeral : Numeral} {value : Value}
    (read : numeral.toValue = .ok value) : value.depth = 0 := by
  unfold Numeral.toValue at read
  split at read
  · cases read
    rename_i number _
    cases number <;> rfl
  · cases read

mutual

/-- Nothing that is kept goes deeper than the levels that were left. -/
theorem depth_le_of_keepWithin {levels : Nat} {json : Json} {value : Value}
    (read : keepWithin levels json = .ok value) : value.depth ≤ levels := by
  cases json with
  | null | bool _ =>
      cases read
      exact Nat.zero_le levels
  | number numeral =>
      rw [Numeral.depth_of_toValue read]
      exact Nat.zero_le levels
  | text content =>
      rw [keepWithin, map_eq_ok_iff] at read
      obtain ⟨text, -, rfl⟩ := read
      exact Nat.zero_le levels
  | list items =>
      cases levels with
      | zero => cases read
      | succ inner =>
          rw [keepWithin, map_eq_ok_iff] at read
          obtain ⟨values, read, rfl⟩ := read
          exact Nat.succ_le_succ (itemsDepth_le_of_keepItems read)
  | object members =>
      cases levels with
      | zero => cases read
      | succ inner =>
          rw [keepWithin, map_eq_ok_iff] at read
          obtain ⟨entries, read, rfl⟩ := read
          exact Nat.succ_le_succ (entriesDepth_le_of_keepMembers read)
  | broken => cases read

theorem itemsDepth_le_of_keepItems {levels : Nat} {items : List Json}
    {values : List Value} (read : keepItems levels items = .ok values) :
    Value.itemsDepth values ≤ levels := by
  match items with
  | [] =>
      cases read
      exact Nat.zero_le levels
  | item :: rest =>
      rw [keepItems, bind_eq_ok_iff] at read
      obtain ⟨first, ofItem, read⟩ := read
      obtain ⟨later, ofRest, read⟩ := bind_eq_ok_iff.mp read
      cases read
      exact Nat.max_le.mpr
        ⟨depth_le_of_keepWithin ofItem, itemsDepth_le_of_keepItems ofRest⟩

theorem entriesDepth_le_of_keepMembers {levels : Nat}
    {members : List (Option String × Json)} {entries : List (Value × Value)}
    (read : keepMembers levels members = .ok entries) :
    Value.entriesDepth entries ≤ levels := by
  match members with
  | [] =>
      cases read
      exact Nat.zero_le levels
  | (key, value) :: rest =>
      rw [keepMembers, bind_eq_ok_iff] at read
      obtain ⟨name, -, read⟩ := read
      obtain ⟨first, ofValue, read⟩ := bind_eq_ok_iff.mp read
      obtain ⟨later, ofRest, read⟩ := bind_eq_ok_iff.mp read
      cases read
      exact Nat.max_le.mpr
        ⟨depth_le_of_keepWithin ofValue, entriesDepth_le_of_keepMembers ofRest⟩

end

/-! ## Numbers -/

namespace Numeral

theorem number?_ofNat {number : Nat} (small : number < 0x10000000000000000) :
    (ofNat number).number? = some (.unsigned (UInt64.ofNat number)) := by
  have integer : (ofNat number).isInteger = true := rfl
  have positive : ¬ (ofNat number).negative = true := Bool.false_ne_true
  have magnitude : Decimal.value (ofNat number).whole = number := Decimal.value_digits number
  unfold number?
  rw [if_pos integer, magnitude, if_neg positive, if_pos small]

theorem number?_ofInt_negSucc {number : Nat} (small : number < 0x8000000000000000) :
    (ofInt (.negSucc number)).number? =
      some (.signed (Int64.ofInt (.negSucc number))) := by
  have integer : (ofInt (.negSucc number)).isInteger = true := rfl
  have negative : (ofInt (.negSucc number)).negative = true := rfl
  have magnitude : Decimal.value (ofInt (.negSucc number)).whole = number + 1 :=
    Decimal.value_digits (number + 1)
  unfold number?
  rw [if_pos integer, magnitude, if_pos negative, if_pos (by omega)]
  rfl

end Numeral

/-- Every integer that fits into 64 bits, with or without a sign, is admitted. -/
def AdmitsWords (admits : Numeral → Prop) : Prop :=
  ∀ number : Int, -0x8000000000000000 ≤ number → number < 0x10000000000000000 →
    admits (.ofInt number)

theorem AdmitsWords.spellable_ofNat {admits : Numeral → Prop} (words : AdmitsWords admits)
    {number : Nat} (small : number < 0x10000000000000000) :
    (ofNat number).Spellable admits :=
  words number (by omega) (by omega)

theorem AdmitsWords.spellable_ofInt {admits : Numeral → Prop} (words : AdmitsWords admits)
    (number : Int64) : (ofInt number.toInt).Spellable admits := by
  have above : -0x8000000000000000 ≤ number.toInt := number.le_toInt
  have below : number.toInt < 0x8000000000000000 := number.toInt_lt
  exact words number.toInt above (by omega)

theorem admitsWords_writesInteger : AdmitsWords Numeral.WritesInteger :=
  fun number _ _ => ⟨number, rfl⟩

theorem admitsWords_inRange : AdmitsWords Numeral.InRange := by
  intro number above below
  unfold Numeral.InRange
  cases number with
  | ofNat number =>
      have small : number < 0x10000000000000000 := Int.ofNat_lt.mp below
      rw [Numeral.ofInt, Numeral.number?_ofNat small]
      rfl
  | negSucc number =>
      rw [Numeral.number?_ofInt_negSucc (by omega)]
      rfl

theorem kept_ofNat_toNat (number : UInt64) :
    (ofNat number.toNat).kept = .unsigned number := by
  rw [ofNat, kept, Numeral.kept, Numeral.number?_ofNat number.toNat_lt,
    UInt64.ofNat_toNat]
  rfl

theorem toByte_kept_ofNat (byte : UInt8) :
    (ofNat byte.toNat).kept.toByte = .ok byte := by
  have small : byte.toNat < 256 := byte.toNat_lt
  have number : byte.toNat = byte.toUInt64.toNat := (UInt8.toNat_toUInt64 byte).symm
  rw [number, kept_ofNat_toNat]
  change (if byte.toUInt64.toNat < 256 then _ else _) = _
  rw [← number, if_pos small, UInt8.ofNat_toNat]

theorem toSigned_kept_ofInt (number : Int64) :
    (ofInt number.toInt).kept.toSigned = .ok number := by
  have above : -0x8000000000000000 ≤ number.toInt := number.le_toInt
  have below : number.toInt < 0x8000000000000000 := number.toInt_lt
  have same : Int64.ofInt number.toInt = number := Int64.ofInt_toInt number
  rw [ofInt, kept, Numeral.kept]
  cases written : number.toInt with
  | ofNat magnitude =>
      rw [written] at below same
      have small : magnitude < 0x8000000000000000 := Int.ofNat_lt.mp below
      rw [Numeral.ofInt, Numeral.number?_ofNat (by omega)]
      change Value.toSigned (.unsigned (UInt64.ofNat magnitude)) = _
      have back : (UInt64.ofNat magnitude).toNat = magnitude :=
        UInt64.toNat_ofNat_of_lt' (Nat.lt_trans small (by decide))
      rw [Value.toSigned, back, if_pos small]
      exact congrArg Except.ok same
  | negSucc magnitude =>
      rw [written] at above same
      rw [Numeral.number?_ofInt_negSucc (by omega), same]
      rfl

end Json

end RsaAudit
