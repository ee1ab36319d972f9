import RsaAudit.Loading
import RsaAudit.Proofs.Document.InstructionReading

/-!
# Programs in JSON documents

A program that is written as JSON is read back unless its brackets are nested too
deep.  Nothing that is read becomes deeper when it is written, so a program from
any document survives being written and read again.
-/

namespace RsaAudit

/-- A writer and a reader of a part of a document agree.  What is written is read
back if it fits into the levels, and what is read is written within them. -/
structure Agree {Item : Type} (levels : Nat) (write : Item → Json)
    (read : Json → Except Reason Item) : Prop where
  read_write : ∀ item, read (write item) = Json.ifFits (write item).depth levels item
  depth_le : ∀ json item, read json = .ok item → (write item).depth ≤ levels

namespace Agree

variable {Item : Type} {levels : Nat} {write : Item → Json}
  {read : Json → Except Reason Item}

theorem mapM_write (agree : Agree levels write read) (items : List Item) :
    (items.map write).mapM read =
      Json.ifFits (Json.itemsDepth (items.map write)) levels items := by
  induction items with
  | nil => rfl
  | cons item rest ih =>
      rw [List.map_cons, List.mapM_cons, agree.read_write, Json.itemsDepth]
      apply Json.ifFits_bind
      rw [ih]
      exact Json.ifFits_map (item :: ·) _ _ _

theorem list (agree : Agree levels write read) :
    Agree (levels + 1) (fun items => .list (items.map write)) (Readable.list read) where
  read_write items := by
    rw [Json.depth, Json.ifFits_succ]
    exact agree.mapM_write items
  depth_le json items accepted := by
    rw [Json.depth_list_map_le_iff]
    intro item member
    cases json with
    | list nodes =>
        obtain ⟨node, -, ofNode⟩ := exists_of_mapM_eq_ok accepted member
        exact agree.depth_le node item ofNode
    | _ => cases accepted

end Agree

theorem Instruction.agree :
    Agree (Json.partLevels + 1) Instruction.toJson Instruction.read where
  read_write := read_toJson
  depth_le _ _ := depth_toJson_le

theorem Block.depth_toJson (block : Block) :
    block.toJson.depth =
      (Json.list (block.instructions.map Instruction.toJson)).depth + 1 := by
  simp [toJson, Json.record, Json.depth, Json.membersDepth]

theorem Block.agree : Agree (Json.partLevels + 3) Block.toJson Block.shape.read where
  read_write block := by
    have list := Instruction.agree.list.read_write block.instructions
    rw [block.depth_toJson, Json.ifFits_succ]
    refine (Shape.read_record [some (.list (block.instructions.map Instruction.toJson))]
      rfl (by decide) rfl rfl).trans ?_
    simp only [shape, Shape.storeAll, list, bind_assoc]
    exact Json.ifFits_bind_ok _ _ rfl
  depth_le json block accepted := by
    rw [block.depth_toJson]
    refine Nat.succ_le_succ (Shape.invariant_of_read
      (fun block => (Json.list (block.instructions.map Instruction.toJson)).depth ≤
        Json.partLevels + 2) (Nat.le_add_left 1 _) accepted ?_)
    intro field listed node before after holds stored
    obtain rfl := List.mem_singleton.mp listed
    obtain ⟨instructions, ofNode, rfl⟩ := map_eq_ok_iff.mp stored
    exact Instruction.agree.list.depth_le node instructions ofNode

theorem Function.depth_toJson (function : Function) :
    function.toJson.depth =
      (Json.list (function.blocks.map Block.toJson)).depth + 1 := by
  simp [toJson, Json.record, Json.ofText, Json.depth, Json.membersDepth]

theorem Function.agree : Agree (Json.partLevels + 5) Function.toJson Function.shape.read where
  read_write function := by
    have list := Block.agree.list.read_write function.blocks
    rw [function.depth_toJson, Json.ifFits_succ]
    refine (Shape.read_record
      [some (.ofText function.name), some (.list (function.blocks.map Block.toJson))]
      rfl (by decide) rfl rfl).trans ?_
    simp only [shape, Shape.storeAll, list, bind_assoc]
    exact Json.ifFits_bind_ok _ _ rfl
  depth_le json function accepted := by
    rw [function.depth_toJson]
    refine Nat.succ_le_succ (Shape.invariant_of_read
      (fun function => (Json.list (function.blocks.map Block.toJson)).depth ≤
        Json.partLevels + 4) (Nat.le_add_left 1 _) accepted ?_)
    intro field listed node before after holds stored
    simp only [shape, List.mem_cons, List.not_mem_nil, or_false] at listed
    rcases listed with rfl | rfl
    · obtain ⟨name, -, rfl⟩ := map_eq_ok_iff.mp stored
      exact holds
    · obtain ⟨blocks, ofNode, rfl⟩ := map_eq_ok_iff.mp stored
      exact Block.agree.list.depth_le node blocks ofNode

theorem Program.depth_toJson (program : Program) :
    program.toJson.depth =
      (Json.list (program.functions.map Function.toJson)).depth + 1 := by
  cases program with
  | mk source functions =>
      cases source <;>
        simp [toJson, Json.record, Json.optionalMember, Json.ofText, Json.depth,
          Json.membersDepth]

theorem Program.agree : Agree Json.maxLevels Program.toJson Program.shape.read where
  read_write program := by
    have list := Function.agree.list.read_write program.functions
    change _ = Json.ifFits program.toJson.depth (Json.partLevels + 7) program
    rw [program.depth_toJson, Json.ifFits_succ]
    cases program with
    | mk source functions =>
        cases source with
        | none =>
            refine (Shape.read_record
              [none, some (.list (functions.map Function.toJson))]
              rfl (by decide) rfl rfl).trans ?_
            simp only [shape, Shape.storeAll, list, bind_assoc]
            exact Json.ifFits_bind_ok _ _ rfl
        | some text =>
            refine (Shape.read_record
              [some (.ofText text), some (.list (functions.map Function.toJson))]
              rfl (by decide) rfl rfl).trans ?_
            simp only [shape, Shape.storeAll, list, bind_assoc]
            exact Json.ifFits_bind_ok _ _ rfl
  depth_le json program accepted := by
    rw [program.depth_toJson]
    refine Nat.succ_le_succ (Shape.invariant_of_read
      (fun program => (Json.list (program.functions.map Function.toJson)).depth ≤
        Json.partLevels + 6) (Nat.le_add_left 1 _) accepted ?_)
    intro field listed node before after holds stored
    simp only [shape, List.mem_cons, List.not_mem_nil, or_false] at listed
    rcases listed with rfl | rfl
    · obtain ⟨source, -, rfl⟩ := map_eq_ok_iff.mp stored
      exact holds
    · obtain ⟨functions, ofNode, rfl⟩ := map_eq_ok_iff.mp stored
      exact Function.agree.list.depth_le node functions ofNode

theorem Program.spellable_toJson {admits : Json.Numeral → Prop}
    (words : Json.AdmitsWords admits) (program : Program) :
    program.toJson.Spellable admits := by
  have instructions (instruction : Instruction) := instruction.spellable_toJson words
  have blocks (block : Block) : block.toJson.Spellable admits := by
    simp [Block.toJson, instructions]
  have functions (function : Function) : function.toJson.Spellable admits := by
    simp [Function.toJson, blocks]
  rw [toJson, Json.spellable_record]
  exact List.forall_mem_append.mpr ⟨Json.spellable_optionalMember, by simp [functions]⟩

namespace Program

theorem parse_toJson (program : Program) (label : String) :
    parse .json label program.toJson.compact =
      if Json.bracketDepth program.toJson.compact ≤ Json.maxLevels then
        .ok (program.withDefaultSource label)
      else .error (.unparsable label .malformed) := by
  have spellable := program.spellable_toJson Json.admitsWords_writesInteger
  have read : DocumentFormat.json.read shape program.toJson.compact =
      Json.ifFits program.toJson.depth Json.maxLevels program := by
    unfold DocumentFormat.read
    dsimp only
    rw [Json.parse_compact spellable, agree.read_write]
    exact Json.ifFits_bind_ok _ _ rfl
  rw [parse, read, Json.bracketDepth_compact spellable, Json.ifFits]
  by_cases fits : program.toJson.depth ≤ Json.maxLevels
  · rw [if_pos fits, if_pos fits]
  · rw [if_neg fits, if_neg fits]

/-- A program from a document can be written within the levels of a document. -/
theorem bracketDepth_toJson_of_parse {text label : String} {program : Program}
    (accepted : parse .json label text = .ok program) :
    Json.bracketDepth program.toJson.compact ≤ Json.maxLevels := by
  unfold parse at accepted
  split at accepted
  · rename_i found read
    cases accepted
    obtain ⟨record, ofRoot, read⟩ := bind_eq_ok_iff.mp read
    split at read
    · cases read
      -- Naming the source adds a member, but no level.
      have bounded := agree.depth_le _ _ ofRoot
      have spellable := (found.withDefaultSource label).spellable_toJson
        Json.admitsWords_writesInteger
      rw [depth_toJson] at bounded
      rw [Json.bracketDepth_compact spellable, depth_toJson]
      exact bounded
    · cases read
  · cases accepted

theorem source_of_parse {format : DocumentFormat} {text label : String}
    {program : Program} (accepted : parse format label text = .ok program) :
    program.source.isSome = true := by
  unfold parse at accepted
  split at accepted
  · cases accepted
    rfl
  · cases accepted

theorem withDefaultSource_of_isSome {program : Program}
    (named : program.source.isSome = true) (label : String) :
    program.withDefaultSource label = program := by
  obtain ⟨source, found⟩ := Option.isSome_iff_exists.mp named
  cases program with
  | mk _ functions =>
      cases found
      rfl

/-- Writing a program and reading it again gives the program, named after the
document if it had no source, unless the brackets of the text are nested too deep.
So a program that any text gives is read again from its own text. -/
theorem parse_compact_toJson :
    (∀ (program : Program) (label : String),
      parse .json label program.toJson.compact =
        if Json.bracketDepth program.toJson.compact ≤ 127 then
          .ok { program with source := some (program.source.getD label) }
        else .error (.unparsable label .malformed)) ∧
    ∀ (text label : String) (program : Program),
      parse .json label text = .ok program →
        ∀ other, parse .json other program.toJson.compact = .ok program := by
  refine ⟨parse_toJson, ?_⟩
  intro text label program accepted other
  rw [parse_toJson, if_pos (bracketDepth_toJson_of_parse accepted),
    withDefaultSource_of_isSome (source_of_parse accepted)]

/-- A document whose records are all written as lists, with a call that has literals and
the result of another call for arguments. -/
def positionalText : String :=
  "[null,[[\"f\",[[[[\"call\",\"rsa.Sign\",[[\"wrapped\",[\"constant\",[\"nil\",null]]]," ++
    "[\"constant\",[\"str\",\"MD5\"]],[\"constant\",[\"int\",-5]]," ++
    "[\"call_result\",\"md5.New\"]],[\"a.go\",3,1]]]]]]]]"

theorem parse_compact_toJson_positionalText :
    let call : Call := {
      callee := "rsa.Sign"
      args := [.wrapped (.constant .nil), .constant (.str "MD5"), .constant (.int (-5)),
        .callResult "md5.New"]
      position := ⟨"a.go", 3, 1⟩
      result := none }
    let program : Program := ⟨some "a.json", [⟨"f", [⟨[.call call]⟩]⟩]⟩
    parse .json "a.json" positionalText = .ok program ∧
      parse .json "b.json" program.toJson.compact = .ok program := by
  intro call program
  have accepted : parse .json "a.json" positionalText = .ok program := by
    decide +kernel
  exact ⟨accepted, parse_compact_toJson.2 positionalText "a.json" program accepted "b.json"⟩

end Program

end RsaAudit
