import RsaAudit.Loading
import RsaAudit.Proofs.Document.InstructionReading

/-!
# All documents of a program are read the same

Programs, functions and blocks are read as they come.  Each of them takes two levels,
for itself and for the list that it holds; the rest is left to the instructions.
-/

namespace RsaAudit

/-- The items of a list are read if they fit into the levels left to them. -/
theorem Readable.list_of_forall₂ {Item : Type} {read : Json → Except Reason Item}
    {writes : Item → Json → Prop} {levels : Nat} {items : List Item} {nodes : List Json}
    (written : List.Forall₂ writes items nodes)
    (shallow : (Json.list nodes).depth ≤ levels + 1)
    (each : ∀ item json, writes item json → json.depth ≤ levels → read json = .ok item) :
    Readable.list read (Json.list nodes) = .ok items :=
  mapM_of_forall₂ written fun item node member writes =>
    each item node writes (Json.depth_le_of_mem_parts shallow member)

theorem Block.read_of_writtenAs {block : Block} {json : Json}
    (written : block.WrittenAs json) (shallow : json.depth ≤ Json.partLevels + 3) :
    shape.read json = .ok block := by
  refine (Shape.fits_single rfl rfl ?_ ?_).read Json.views_id written
    fun part member => Json.depth_le_of_mem_parts shallow member
  · intro empty
    exact ⟨rfl, congrArg Block.mk empty.symm⟩
  · rintro record json shallow ⟨nodes, rfl, written⟩
    have list := Readable.list_of_forall₂ written shallow fun _ _ =>
      Instruction.read_of_writtenAs
    change (Readable.list Instruction.read (Json.list nodes) >>= _) = _
    rw [list]
    rfl

def Function.seenOf (function : Function) (seen : List String) : Function where
  name := whenSeen seen "name" function.name ""
  blocks := whenSeen seen "blocks" function.blocks []

theorem Function.fits (function : Function) :
    Function.shape.Fits id (fun json : Json => json.depth ≤ Json.partLevels + 4)
      function.forms function.seenOf function where
  fields := by
    refine .cons ?_ (.cons ?_ .nil)
    · refine .of_read (fun function name => { function with name }) Readable.text
        function.name rfl False.elim (fun _ _ => rfl) (by simp [seenOf]) ?_
      rintro json - rfl
      rfl
    · refine .of_read (fun function blocks => { function with blocks })
        (Readable.list Block.shape.read) function.blocks rfl (fun _ => rfl) (fun _ _ => rfl)
        (by simp [seenOf]) ?_
      rintro json shallow ⟨nodes, rfl, written⟩
      exact Readable.list_of_forall₂ written shallow fun _ _ => Block.read_of_writtenAs
  distinct := by decide
  blank := rfl
  complete seen complete := by
    obtain ⟨name, blocks⟩ : "name" ∈ seen ∧ (function.blocks = [] ∨ "blocks" ∈ seen) := by
      simpa [forms] using complete
    rw [seenOf, whenSeen_of_complete (.inr name), whenSeen_of_complete blocks]

theorem Function.read_of_writtenAs {function : Function} {json : Json}
    (written : function.WrittenAs json) (shallow : json.depth ≤ Json.partLevels + 5) :
    shape.read json = .ok function :=
  function.fits.read Json.views_id written
    fun _ member => Json.depth_le_of_mem_parts shallow member

namespace Program

def seenOf (program : Program) (seen : List String) : Program where
  source := whenSeen seen "source" program.source none
  functions := whenSeen seen "functions" program.functions []

theorem fits (program : Program) :
    Program.shape.Fits id (fun json : Json => json.depth ≤ Json.partLevels + 6)
      program.forms program.seenOf program where
  fields := by
    refine .cons ?_ (.cons ?_ .nil)
    · refine .of_read (fun program source => { program with source }) Readable.optionalText
        program.source rfl (fun _ => rfl) (fun _ _ => rfl) (by simp [seenOf]) ?_
      rintro json - rfl
      cases program.source <;> rfl
    · refine .of_read (fun program functions => { program with functions })
        (Readable.list Function.shape.read) program.functions rfl (fun _ => rfl)
        (fun _ _ => rfl) (by simp [seenOf]) ?_
      rintro json shallow ⟨nodes, rfl, written⟩
      exact Readable.list_of_forall₂ written shallow fun _ _ => Function.read_of_writtenAs
  distinct := by decide
  blank := rfl
  complete seen complete := by
    obtain ⟨source, functions⟩ : (program.source = none ∨ "source" ∈ seen) ∧
        (program.functions = [] ∨ "functions" ∈ seen) := by
      simpa [forms] using complete
    rw [seenOf, whenSeen_of_complete source, whenSeen_of_complete functions]

theorem read_of_writtenAs {program : Program} {json : Json}
    (written : program.WrittenAs json) (shallow : json.depth ≤ Json.maxLevels) :
    shape.read json = .ok program :=
  program.fits.read Json.views_id written
    fun _ member => Json.depth_le_of_mem_parts shallow member

/-- Whatever value writes a program and whatever text writes the value, the text is read
as the program, named after the document if it had no source. -/
theorem parse_renderings {program : Program} {json : Json} {text : String} (label : String)
    (written : program.WrittenAs json) (spelled : json.WrittenAs text)
    (shallow : Json.bracketDepth text ≤ 127) :
    parse .json label text =
      .ok { program with source := some (program.source.getD label) } := by
  rw [Json.bracketDepth_of_writtenAs spelled] at shallow
  have read : DocumentFormat.json.read shape text = .ok program := by
    unfold DocumentFormat.read
    dsimp only
    rw [Json.parse_of_writtenAs spelled, read_of_writtenAs written shallow]
    rfl
  rw [parse, read]
  rfl

/-- A program with an instruction of either kind. -/
def mixedProgram : Program :=
  ⟨none, [⟨"main", [⟨[
    .other none, .call ⟨"f", [.constant (.int 5)], ⟨"a.c", 1, 2⟩, none⟩]⟩]⟩]⟩

/-- A value of its call, without the result. -/
def mixedCall : Json :=
  .list [
    .ofText "call", .ofText "f",
    .list [.record [
      ("value", .record [("value", .ofInt 5), ("type", .ofText "int")]),
      ("kind", .ofText "constant")]],
    .record [("line", .ofNat 1), ("x", .null), ("column", .ofNat 2), ("file", .ofText "a.c")]]

def mixedFunctions : Json :=
  .list [.list [.ofText "main", .list [.record [("instructions", .list [
    .record [("opcode", .null), ("kind", .ofText "other")], mixedCall])]]]]

/-- A value of the program, with a note that comes twice: as a number that is out of
range, and as a text without content. -/
def mixedJson : Json :=
  .record [
    ("note", .number ⟨false, Decimal.digits 1, [], some (false, Decimal.digits 999)⟩),
    ("functions", mixedFunctions),
    ("note", .text none)]

/-- A text of that value, with white space and escapes around the functions. -/
def mixedText : String :=
  .ofList ("\x7b\"note\" : 1e999,\n\"\\u0066unctions\":".toList ++
    (mixedFunctions.compactChars ++ ",\"note\":\"\\ud800\"\x7d".toList))

theorem writtenAs_mixedCall :
    (Instruction.call ⟨"f", [.constant (.int 5)], ⟨"a.c", 1, 2⟩, none⟩).WrittenAs
      mixedCall := by
  have literal : (Literal.int 5).WrittenAs
      (.record [("value", .ofInt 5), ("type", .ofText "int")]) := by
    refine .keyed ⟨?_, ?_, ?_, ?_⟩ <;>
      simp [Literal.forms, Literal.typeName, Literal.valueJson]
  have argument : (Argument.constant (.int 5)).WrittenAs (.record [
      ("value", .record [("value", .ofInt 5), ("type", .ofText "int")]),
      ("kind", .ofText "constant")]) := by
    refine .keyed ⟨?_, ?_, ?_, ?_⟩ <;> simp [literal]
  have position : (Position.mk "a.c" 1 2).WrittenAs (.record
      [("line", .ofNat 1), ("x", .null), ("column", .ofNat 2), ("file", .ofText "a.c")]) := by
    refine .keyed ⟨?_, ?_, ?_, ?_⟩ <;> simp [Position.forms, Json.Keepable, Json.Spellable]
  exact .listed (.next rfl (.next rfl (.next ⟨_, rfl, .cons argument .nil⟩
    (.next position (.done (by simp))))))

theorem writtenAs_mixedJson : mixedProgram.WrittenAs mixedJson := by
  have other : (Instruction.other none).WrittenAs
      (.record [("opcode", .null), ("kind", .ofText "other")]) := by
    refine .keyed ⟨?_, ?_, ?_, ?_⟩ <;> simp [Json.ofText?]
  have block : (Block.mk [.other none, .call ⟨"f", [.constant (.int 5)],
      ⟨"a.c", 1, 2⟩, none⟩]).WrittenAs (.record [("instructions", .list [
        .record [("opcode", .null), ("kind", .ofText "other")], mixedCall])]) := by
    refine .keyed ⟨?_, ?_, ?_, ?_⟩ <;> simp [other, writtenAs_mixedCall]
  have functions : (FieldForm.list "functions" Function.WrittenAs
      mixedProgram.functions).writes mixedFunctions :=
    ⟨_, rfl, .cons (.listed (.next rfl (.next ⟨_, rfl, .cons block .nil⟩
      (.done (List.forall_mem_nil _))))) .nil⟩
  have source : mixedProgram.source = none := rfl
  refine .keyed ⟨?_, ?_, ?_, ?_⟩
  · simp [forms]
  · simp [forms, source]
  · simpa [forms] using functions
  · simp [forms, Json.intact]

theorem writtenAs_mixedText : mixedJson.WrittenAs mixedText := by
  have space : ∀ char ∈ [' '], Json.isBlank char = true := List.forall_mem_singleton.mpr rfl
  have newline : ∀ char ∈ ['\n'], Json.isBlank char = true :=
    List.forall_mem_singleton.mpr rfl
  have note := Json.textSpelledBy_spellText "note"
  have number : Json.Numeral.SpelledBy
      ⟨false, Decimal.digits 1, [], some (false, Decimal.digits 999)⟩ "1e999".toList :=
    ⟨Decimal.digits_eq_zero_or 1, [], _, .none,
      .unsigned (.inl rfl) (Decimal.digits_ne_nil 999), rfl⟩
  have escaped : Json.TextPiece.SpelledBy (.unit 0x66) ['\\', 'u', '0', '0', '6', '6'] :=
    @Json.TextPiece.SpelledBy.hex '0' '0' '6' '6' 0 0 6 6 rfl rfl rfl rfl
  have rest : List.Forall₂ Json.TextPiece.SpelledBy ("unctions".toList.map .single)
      ("unctions".toList.map ([·])) := by
    simp [Json.TextPiece.SpelledBy.plain]
  have key : Json.TextSpelledBy (some "functions") "\"\\u0066unctions\"".toList :=
    ⟨_, _, .cons escaped rest, by decide, by decide⟩
  have half : Json.TextPiece.SpelledBy (.unit 0xD800) ['\\', 'u', 'd', '8', '0', '0'] :=
    @Json.TextPiece.SpelledBy.hex 'd' '8' '0' '0' 13 8 0 0 rfl rfl rfl rfl
  have surrogate : Json.TextSpelledBy none "\"\\ud800\"".toList :=
    ⟨_, _, .cons half .nil, by decide, by decide⟩
  have functions : Json.SpelledBy mixedFunctions.tokens mixedFunctions.compactChars := by
    have one : (Json.ofNat 1).Spellable Json.Numeral.WritesInteger := ⟨1, rfl⟩
    have two : (Json.ofNat 2).Spellable Json.Numeral.WritesInteger := ⟨2, rfl⟩
    have five : (Json.ofInt 5).Spellable Json.Numeral.WritesInteger := ⟨5, rfl⟩
    apply Json.spelledBy_compactChars
    simp [mixedFunctions, mixedCall, Json.Spellable, Json.SpellableItems, one, two, five]
  have opening := Json.SpelledBy.cons .leftBrace (.cons (.text note) (.token space .colon
    (.token space (.number number) (.cons .comma (.token newline (.text key)
      (.single .colon))))))
  have closing := Json.SpelledBy.cons .comma (.cons (.text note) (.cons .colon
    (.cons (.text surrogate) (.single .rightBrace))))
  refine ⟨rfl, (congrArg (Json.SpelledBy mixedJson.tokens) ?_).mp
    (opening.append (functions.append closing))⟩
  refine Eq.trans (congrArg₂ (· ++ ·) ?_ (congrArg (mixedFunctions.compactChars ++ ·) ?_))
    String.toList_ofList.symm
  · decide
  · decide

theorem parse_renderings_mixedText :
    mixedProgram.WrittenAs mixedJson ∧ mixedJson.WrittenAs mixedText ∧
      parse .json "b.json" mixedText = .ok { mixedProgram with source := some "b.json" } := by
  have shallow : Json.bracketDepth mixedText ≤ 127 := by
    rw [Json.bracketDepth_of_writtenAs writtenAs_mixedText]
    decide
  exact ⟨writtenAs_mixedJson, writtenAs_mixedText,
    parse_renderings "b.json" writtenAs_mixedJson writtenAs_mixedText shallow⟩

end Program

end RsaAudit
