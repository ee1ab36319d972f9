import RsaAudit.Proofs.Document.Reading
import RsaAudit.Proofs.ReportReading
import RsaAudit.Proofs.Resolution
import RsaAudit.Proofs.Setting

/-!
# Loading policies

A policy is a choice of values for seven settings.  A document for it gives some of
them, in any order and with other members between them, and leaves the rest to the
standard policy.  A set can be listed in any order, and a name in it more than once.

What is loaded is the merged policy if it is usable, and otherwise the first setting
whose demand it does not meet.
-/

namespace RsaAudit

namespace SymbolSet

theorem isEmpty_iff (set : SymbolSet) : set.isEmpty = true ↔ set = .empty := by
  rw [isEmpty, List.isEmpty_iff]
  constructor
  · intro none
    refine eq_of_mem_iff fun name => ?_
    change name ∈ set.names ↔ _
    rw [none]
    rfl
  · rintro rfl
    rfl

/-- The lists that write a set: they have its names, each at least once. -/
def ListedBy (set : SymbolSet) (json : Json) : Prop :=
  ∃ names : List String, json = .list (names.map .ofText) ∧ ∀ name, name ∈ names ↔ name ∈ set

theorem listedBy_toJson (set : SymbolSet) : set.ListedBy set.toJson :=
  ⟨set.names, rfl, fun _ => Iff.rfl⟩

theorem ListedBy.readSymbols {set : SymbolSet} {json : Json} (listed : set.ListedBy json) :
    Policy.readSymbols json = .ok set := by
  obtain ⟨names, rfl, members⟩ := listed
  have text (name : String) : Readable.text (Json.ofText name) = .ok name := rfl
  have read := Json.list_map_write text names
  have same : ofList names = set :=
    eq_of_mem_iff fun name => (mem_ofList names name).trans (members name)
  rw [Policy.readSymbols, read, ← same]
  rfl

end SymbolSet

theorem Json.signed_ofInt (number : Int64) :
    Readable.signed (Json.ofInt number.toInt) = .ok number := by
  have inRange : (Numeral.ofInt number.toInt).InRange :=
    admitsWords_inRange.spellable_ofInt number
  change (Numeral.toValue (.ofInt number.toInt) >>= Value.toSigned) = _
  rw [inRange.toValue]
  exact toSigned_kept_ofInt number

theorem Json.unsigned_toNat (number : UInt64) :
    Readable.unsigned (Json.ofNat number.toNat) = .ok number := by
  rw [unsigned_ofNat number.toNat_lt, UInt64.ofNat_toNat]

theorem Json.intact_of_mem_record {members : List (String × Json)}
    (intact : (Json.record members).intact = true) :
    ∀ member ∈ members, member.2.intact = true := by
  rw [record, Json.intact, intactMembers_iff, List.forall_mem_map] at intact
  exact intact

/-! ## Contents of settings -/

namespace Setting

/-- The values that write the content of a setting. -/
def Writes : (setting : Setting) → setting.Content → Json → Prop
  | minimumBits, (number : Int64), json => json = .ofInt number.toInt
  | bitAlignment, (number : Int64), json => json = .ofInt number.toInt
  | minimumSessionKeyBytes, (number : UInt64), json => json = .ofNat number.toNat
  | acceptedHashIdentifiers, (set : SymbolSet), json => set.ListedBy json
  | acceptedHashConstructors, (set : SymbolSet), json => set.ListedBy json
  | secureSourceSymbols, (set : SymbolSet), json => set.ListedBy json
  | parallel, (value : Bool), json => json = .bool value

def toJson : (setting : Setting) → setting.Content → Json
  | minimumBits, (number : Int64) => .ofInt number.toInt
  | bitAlignment, (number : Int64) => .ofInt number.toInt
  | minimumSessionKeyBytes, (number : UInt64) => .ofNat number.toNat
  | acceptedHashIdentifiers, (set : SymbolSet) => set.toJson
  | acceptedHashConstructors, (set : SymbolSet) => set.toJson
  | secureSourceSymbols, (set : SymbolSet) => set.toJson
  | parallel, (value : Bool) => .bool value

theorem writes_toJson {setting : Setting} (content : setting.Content) :
    setting.Writes content (setting.toJson content) := by
  cases setting with
  | acceptedHashIdentifiers | acceptedHashConstructors | secureSourceSymbols =>
      exact SymbolSet.listedBy_toJson content
  | _ => rfl

theorem spellable_toJson {setting : Setting} (content : setting.Content) :
    (setting.toJson content).Spellable Json.Numeral.WritesInteger := by
  have words := Json.admitsWords_writesInteger
  cases setting with
  | minimumBits | bitAlignment => exact words.spellable_ofInt content
  | minimumSessionKeyBytes => exact words.spellable_ofNat (UInt64.toNat_lt content)
  | acceptedHashIdentifiers | acceptedHashConstructors | secureSourceSymbols =>
      exact Json.spellable_list_map.mpr fun _ _ => Json.spellable_ofText
  | parallel => trivial

def read : (setting : Setting) → Json → Except Reason setting.Content
  | minimumBits | bitAlignment => Readable.signed
  | minimumSessionKeyBytes => Readable.unsigned
  | acceptedHashIdentifiers | acceptedHashConstructors | secureSourceSymbols =>
      Policy.readSymbols
  | parallel => Readable.flag

theorem read_of_writes {setting : Setting} {content : setting.Content} {json : Json}
    (writes : setting.Writes content json) : setting.read json = .ok content := by
  cases setting with
  | minimumBits | bitAlignment =>
      cases writes
      exact Json.signed_ofInt content
  | minimumSessionKeyBytes =>
      cases writes
      exact Json.unsigned_toNat content
  | acceptedHashIdentifiers | acceptedHashConstructors | secureSourceSymbols =>
      exact SymbolSet.ListedBy.readSymbols writes
  | parallel =>
      cases writes
      rfl

end Setting

namespace Policy

/-- The policy on some settings, and the standard one on the others. -/
def only (policy : Policy) (chosen : Setting → Bool) : Policy :=
  ofValues fun setting =>
    if chosen setting then policy.value setting else standard.value setting

theorem value_only (policy : Policy) (chosen : Setting → Bool) (setting : Setting) :
    (policy.only chosen).value setting =
      if chosen setting then policy.value setting else standard.value setting :=
  value_ofValues _ setting

/-- The members of an object give some settings of a policy: each of them once, and the
others not at all.  Nothing is said of members that are no settings. -/
structure GivenBy (policy : Policy) (chosen : Setting → Bool)
    (members : List (String × Json)) : Prop where
  count : ∀ setting : Setting,
    (members.map Prod.fst).count setting.name = if chosen setting then 1 else 0
  writes : ∀ (setting : Setting) (json : Json),
    (setting.name, json) ∈ members → setting.Writes (policy.value setting) json

/-! ## Reading -/

/-- How a setting of a policy is written; it can be left out if it is the standard one. -/
def form (policy : Policy) (setting : Setting) : FieldForm :=
  ⟨setting.name, policy.value setting = standard.value setting,
    setting.Writes (policy.value setting)⟩

theorem GivenBy.keyed {policy : Policy} {chosen : Setting → Bool}
    {members : List (String × Json)} (given : policy.GivenBy chosen members)
    (intact : (Json.record members).intact = true) :
    Keyed (·.intact = true) (Setting.all.map (policy.only chosen).form) members where
  once := by
    refine List.forall_mem_map.mpr fun setting _ => ?_
    refine (given.count setting).trans_le ?_
    split <;> decide
  given := by
    refine List.forall_mem_map.mpr fun setting _ => ?_
    have count := given.count setting
    cases isChosen : chosen setting with
    | true =>
        rw [isChosen, if_pos rfl] at count
        exact .inr (List.count_pos_iff.mp (count ▸ Nat.one_pos))
    | false =>
        refine .inl ((policy.value_only chosen setting).trans ?_)
        rw [isChosen]
        rfl
  writes := by
    refine List.forall_mem_map.mpr fun setting _ json present => ?_
    have count := given.count setting
    have positive : 0 < (members.map Prod.fst).count setting.name :=
      List.count_pos_iff.mpr (List.mem_map.mpr ⟨_, present, rfl⟩)
    -- A setting that has a member is one of those chosen.
    have isChosen : chosen setting = true := by
      by_contra unchosen
      rw [if_neg unchosen] at count
      omega
    rw [form, value_only, if_pos isChosen]
    exact given.writes setting json present
  others member present _ := Json.intact_of_mem_record intact member present

/-- A policy of which some settings have been seen. -/
def seenOf (policy : Policy) (seen : List String) : Policy :=
  ofValues fun setting =>
    whenSeen seen setting.name (policy.value setting) (standard.value setting)

theorem seenOf_cons (policy : Policy) (setting : Setting) (seen : List String) :
    policy.seenOf (setting.name :: seen) =
      (policy.seenOf seen).set setting (policy.value setting) := by
  rw [set_eq_ofValues]
  refine congrArg ofValues (funext fun other => ?_)
  by_cases same : other = setting
  · subst same
    rw [whenSeen_cons_self, Function.update_self]
  · have apart : other.name ≠ setting.name := fun equal => same (Setting.name_injective equal)
    rw [whenSeen_cons_of_ne apart, Function.update_of_ne same, seenOf, value_ofValues]

theorem fieldFits (policy : Policy) (setting : Setting)
    {field : Field (Except Reason) Json Policy} (name : field.name = setting.name)
    (optional : field.required = false)
    (store : ∀ policy json, field.store policy json = policy.set setting <$> setting.read json) :
    Shape.FieldFits id (fun _ => True) policy.seenOf field (policy.form setting) :=
  .of_read (fun (policy : Policy) => policy.set setting) setting.read (policy.value setting)
    name (fun _ => optional) store (policy.seenOf_cons setting)
    (fun _ _ writes => Setting.read_of_writes writes)

theorem fits (policy : Policy) :
    Policy.shape.Fits id (fun _ : Json => True) (Setting.all.map policy.form) policy.seenOf
      policy where
  fields :=
    .cons (policy.fieldFits .minimumBits rfl rfl fun _ _ => rfl) <|
    .cons (policy.fieldFits .bitAlignment rfl rfl fun _ _ => rfl) <|
    .cons (policy.fieldFits .minimumSessionKeyBytes rfl rfl fun _ _ => rfl) <|
    .cons (policy.fieldFits .acceptedHashIdentifiers rfl rfl fun _ _ => rfl) <|
    .cons (policy.fieldFits .acceptedHashConstructors rfl rfl fun _ _ => rfl) <|
    .cons (policy.fieldFits .secureSourceSymbols rfl rfl fun _ _ => rfl) <|
    .cons (policy.fieldFits .parallel rfl rfl fun _ _ => rfl) .nil
  distinct := by decide
  blank := rfl
  complete seen complete := by
    have settled : ∀ setting : Setting,
        policy.value setting = standard.value setting ∨ setting.name ∈ seen := by
      intro setting
      exact List.forall_mem_map.mp complete setting setting.mem_all
    calc policy.seenOf seen
        = ofValues policy.value :=
          congrArg ofValues (funext fun setting => whenSeen_of_complete (settled setting))
      _ = policy := policy.ofValues_value

theorem read_of_givenBy {policy : Policy} {chosen : Setting → Bool}
    {members : List (String × Json)} (given : policy.GivenBy chosen members)
    (intact : (Json.record members).intact = true) :
    Policy.shape.read (Json.record members) = .ok (policy.only chosen) :=
  (policy.only chosen).fits.read Json.views_id (.keyed (given.keyed intact))
    fun _ _ => trivial

/-! ## Loading -/

/-- What a usable policy is like, setting by setting. -/
def Meets (policy : Policy) : Setting → Prop
  | .minimumBits => 0 < policy.minimumBits
  | .bitAlignment => 0 < policy.bitAlignment
  | .secureSourceSymbols => policy.secureSourceSymbols ≠ .empty
  | _ => True

instance (policy : Policy) : (setting : Setting) → Decidable (policy.Meets setting)
  | .minimumBits => inferInstanceAs (Decidable (0 < policy.minimumBits))
  | .bitAlignment => inferInstanceAs (Decidable (0 < policy.bitAlignment))
  | .secureSourceSymbols => inferInstanceAs (Decidable (policy.secureSourceSymbols ≠ .empty))
  | .minimumSessionKeyBytes | .acceptedHashIdentifiers | .acceptedHashConstructors
  | .parallel => isTrue trivial

def unmet? (policy : Policy) : Option Setting :=
  [Setting.minimumBits, .bitAlignment, .secureSourceSymbols].find? (¬ policy.Meets ·)

theorem unmet?_eq_none_iff {policy : Policy} :
    policy.unmet? = none ↔ ∀ setting, policy.Meets setting := by
  constructor
  · intro none setting
    have met := List.find?_eq_none.mp none
    cases setting with
    | minimumBits | bitAlignment | secureSourceSymbols =>
        simpa using met _ (by decide)
    | _ => trivial
  · intro usable
    exact List.find?_eq_none.mpr fun setting _ => by simp [usable setting]

/-- The defect that is reported is about the first setting that is unmet. -/
theorem map_setting_defect? (policy : Policy) :
    policy.defect?.map Defect.setting = policy.unmet?.map Setting.name := by
  have bits : policy.minimumBits ≤ 0 ↔ ¬ policy.Meets .minimumBits := Int64.not_lt.symm
  have alignment : policy.bitAlignment ≤ 0 ↔ ¬ policy.Meets .bitAlignment := Int64.not_lt.symm
  have sources : policy.secureSourceSymbols.isEmpty = true ↔
      ¬ policy.Meets .secureSourceSymbols :=
    policy.secureSourceSymbols.isEmpty_iff.trans Classical.not_not.symm
  simp only [defect?, unmet?, bits, alignment, sources, List.find?_cons, List.find?_nil]
  by_cases first : policy.Meets .minimumBits
  · by_cases second : policy.Meets .bitAlignment
    · by_cases third : policy.Meets .secureSourceSymbols <;>
        simp [first, second, third, Defect.setting, Setting.name]
    · simp [first, second, Defect.setting, Setting.name]
  · simp [first, Defect.setting, Setting.name]

theorem defect?_eq_none_iff {policy : Policy} :
    policy.defect? = none ↔ ∀ setting, policy.Meets setting := by
  have same := policy.map_setting_defect?
  rw [← unmet?_eq_none_iff]
  constructor
  · intro sound
    rw [sound] at same
    exact Option.map_eq_none_iff.mp same.symm
  · intro met
    rw [met] at same
    exact Option.map_eq_none_iff.mp same

theorem defect?_of_parse {format : DocumentFormat} {path content : String} {policy : Policy}
    (parsed : parse format path content = .ok policy) : policy.defect? = none := by
  unfold parse at parsed
  split at parsed
  · cases parsed
  · split at parsed
    · cases parsed
    · cases parsed
      assumption

theorem defect?_of_load {view : FileView} {path : String} {policy : Policy}
    (loaded : load view path = .ok policy) : policy.defect? = none := by
  unfold load at loaded
  split at loaded
  · cases loaded
  · dsimp only at loaded
    split at loaded
    · cases loaded
    · exact defect?_of_parse loaded

/-- Under a path to JSON, what is loaded is what the text is parsed as. -/
theorem load_json {view : FileView} {path text : String}
    (found : view path = .ok (.file (some text)))
    (extension : Path.extension? path = some "json") :
    load view path = parse .json path text := by
  rw [load, found, ok_bind, Entry.read, extension]
  rfl

theorem parse_of_givenBy {policy : Policy} {chosen : Setting → Bool}
    {members : List (String × Json)} {text : String} (path : String)
    (given : policy.GivenBy chosen members) (spelled : (Json.record members).WrittenAs text) :
    ((policy.only chosen).unmet? = none →
      parse .json path text = .ok (policy.only chosen)) ∧
    ∀ setting ∈ (policy.only chosen).unmet?, ∃ defect,
      parse .json path text = .error (.defective defect) ∧ defect.setting = setting.name := by
  have read : DocumentFormat.json.read shape text = .ok (policy.only chosen) := by
    unfold DocumentFormat.read
    dsimp only
    rw [Json.parse_of_writtenAs spelled, read_of_givenBy given spelled.1]
    rfl
  have same := (policy.only chosen).map_setting_defect?
  rw [parse, read]
  dsimp only
  constructor
  · intro met
    rw [defect?_eq_none_iff.mpr (unmet?_eq_none_iff.mp met)]
  · rintro setting unmet
    rw [Option.mem_def.mp unmet] at same
    obtain ⟨defect, reported, named⟩ := Option.map_eq_some_iff.mp same
    rw [reported]
    exact ⟨defect, rfl, named⟩

theorem only_all (policy : Policy) : policy.only (fun _ => true) = policy :=
  rfl

def members (policy : Policy) : List (String × Json) :=
  Setting.all.map fun setting => (setting.name, setting.toJson (policy.value setting))

theorem toJson_eq_record (policy : Policy) : policy.toJson = .record policy.members :=
  rfl

theorem givenBy_members (policy : Policy) : policy.GivenBy (fun _ => true) policy.members where
  count setting := by
    have names : policy.members.map Prod.fst = Setting.all.map Setting.name := rfl
    rw [names, if_pos rfl]
    exact List.count_eq_one_of_mem Setting.nodup_names (List.mem_map_of_mem setting.mem_all)
  writes setting json present := by
    obtain ⟨other, -, written⟩ := List.mem_map.mp present
    obtain ⟨named, rfl⟩ := Prod.mk.inj written
    obtain rfl := Setting.name_injective named
    exact Setting.writes_toJson _

theorem spellable_toJson (policy : Policy) :
    policy.toJson.Spellable Json.Numeral.WritesInteger := by
  rw [toJson_eq_record]
  refine Json.spellable_record.mpr ?_
  exact List.forall_mem_map.mpr fun setting _ => Setting.spellable_toJson _

/-- A document gives some settings of a policy.  What is loaded has these settings and
the standard ones besides; but if that is unusable, the first setting that makes it so is
named.  No unusable policy is ever loaded, from no document, and a usable one that is
printed as JSON is loaded again. -/
theorem load_overrides :
    (∀ (policy : Policy) (chosen : Setting → Bool) (members : List (String × Json))
      (text : String) (view : FileView) (path : String),
      policy.GivenBy chosen members → (Json.record members).WrittenAs text →
      view path = .ok (.file (some text)) → Path.extension? path = some "json" →
        ((policy.only chosen).unmet? = none → load view path = .ok (policy.only chosen)) ∧
        ∀ setting ∈ (policy.only chosen).unmet?, ∃ defect,
          load view path = .error (.defective defect) ∧ defect.setting = setting.name) ∧
    (∀ (view : FileView) (path : String) (policy : Policy),
      load view path = .ok policy → ∀ setting, policy.Meets setting) ∧
    ∀ (policy : Policy) (view : FileView) (path text : String),
      (∀ setting, policy.Meets setting) →
      text = policy.toJson.compact ∨ text = policy.toJson.pretty →
      view path = .ok (.file (some text)) → Path.extension? path = some "json" →
        load view path = .ok policy := by
  refine ⟨?_, ?_, ?_⟩
  · intro policy chosen members text view path given spelled found extension
    rw [load_json found extension]
    exact parse_of_givenBy path given spelled
  · intro view path policy loaded
    exact defect?_eq_none_iff.mp (defect?_of_load loaded)
  · intro policy view path text usable printed found extension
    have spelled : policy.toJson.WrittenAs text := by
      rcases printed with rfl | rfl
      · exact Json.writtenAs_compact policy.spellable_toJson
      · exact Json.writtenAs_pretty policy.spellable_toJson
    have parsed := (parse_of_givenBy path policy.givenBy_members spelled).1
    rw [load_json found extension, parsed (unmet?_eq_none_iff.mpr usable), only_all]

/-- A policy with other hashes, which two of its settings make unusable. -/
def oddPolicy : Policy :=
  { standard with
    bitAlignment := 0
    acceptedHashIdentifiers := .ofList ["SHA-384", "SHA-512"]
    secureSourceSymbols := .empty }

/-- Members that give its hashes, with a note that comes twice. -/
def hashMembers : List (String × Json) := [
  ("note", .null),
  ("accepted_hash_identifiers", .list (["SHA-512", "SHA-384", "SHA-512"].map .ofText)),
  ("note", .list [])]

/-- Members that give its sources and its alignment. -/
def brokenMembers : List (String × Json) :=
  [("secure_source_symbols", .list []), ("bit_alignment", .ofInt 0)]

theorem load_overrides_oddPolicy :
    let hashes : Setting → Bool := (· = .acceptedHashIdentifiers)
    let demands : Setting → Bool := (· ∈ [Setting.secureSourceSymbols, .bitAlignment])
    let view : Json → FileView := fun json _ => .ok (.file (some json.compact))
    oddPolicy.GivenBy hashes hashMembers ∧ oddPolicy.GivenBy demands brokenMembers ∧
      load (view (.record hashMembers)) "a.json" =
        .ok { standard with acceptedHashIdentifiers := .ofList ["SHA-384", "SHA-512"] } ∧
      (∃ defect, load (view (.record brokenMembers)) "a.json" = .error (.defective defect) ∧
        defect.setting = "bit_alignment") ∧
      (∀ setting, standard.Meets setting) ∧
      load (view standard.toJson) "a.json" = .ok standard := by
  intro hashes demands view
  have givenHashes : oddPolicy.GivenBy hashes hashMembers := by
    refine ⟨fun setting => by cases setting <;> decide, fun setting json present => ?_⟩
    cases setting with
    | acceptedHashIdentifiers =>
        refine ⟨["SHA-512", "SHA-384", "SHA-512"], by simpa [hashMembers, Setting.name]
          using present, fun name => ?_⟩
        refine Iff.trans ?_ (SymbolSet.mem_ofList _ name).symm
        grind
    | _ => simp [hashMembers, Setting.name] at present
  have givenDemands : oddPolicy.GivenBy demands brokenMembers := by
    refine ⟨fun setting => by cases setting <;> decide, fun setting json present => ?_⟩
    cases setting with
    | secureSourceSymbols =>
        exact ⟨[], by simpa [brokenMembers, Setting.name] using present, fun _ => Iff.rfl⟩
    | bitAlignment =>
        obtain rfl : json = .ofInt 0 := by simpa [brokenMembers, Setting.name] using present
        rfl
    | _ => simp [brokenMembers, Setting.name] at present
  have writtenHashes : (Json.record hashMembers).WrittenAs (Json.record hashMembers).compact :=
    Json.writtenAs_compact (Json.spellable_record.mpr (by
      simp [hashMembers, Json.Spellable, Json.SpellableItems]))
  have zero : (Json.ofInt 0).Spellable Json.Numeral.WritesInteger := ⟨0, rfl⟩
  have writtenDemands :
      (Json.record brokenMembers).WrittenAs (Json.record brokenMembers).compact :=
    Json.writtenAs_compact (Json.spellable_record.mpr (by
      simp [brokenMembers, Json.Spellable, Json.SpellableItems, zero]))
  have extension : Path.extension? "a.json" = some "json" := by decide
  have usable : ∀ setting, standard.Meets setting := by
    intro setting
    cases setting <;> decide
  have overrides := load_overrides
  refine ⟨givenHashes, givenDemands, ?_, ?_, usable, ?_⟩
  · exact (overrides.1 _ _ _ _ (view (.record hashMembers)) "a.json" givenHashes writtenHashes
      rfl extension).1 (by decide)
  · exact (overrides.1 _ _ _ _ (view (.record brokenMembers)) "a.json" givenDemands
      writtenDemands rfl extension).2 .bitAlignment (by decide)
  · exact overrides.2.2 standard (view standard.toJson) "a.json" _ usable (.inl rfl) rfl extension

end Policy

end RsaAudit
