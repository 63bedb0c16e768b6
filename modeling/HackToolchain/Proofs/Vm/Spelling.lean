import HackToolchain.Proofs.Token.Lines
import HackToolchain.Proofs.Vm.Translation

namespace HackToolchain
namespace Vm

/-!
# Commands as text

Writing commands down, one per line, loses nothing if their names can be spelled and their numbers
are in range.  The text of a command is scanned into its keyword and its operands, and from these the
command is read.  The reader then finds every command on the line that it has in a file of commands
that come from no source.  Commands that cannot be written are not read back, because the reader only
answers names that can be spelled and numbers in range.

What the reader does is told production by production: an operand is read exactly if the cursor goes over
a token that stands for the operand's own.
-/

/-- The name in a command, if there is one, is scanned as one name. -/
def Command.IsNamed (command : Command) : Prop :=
  ∀ name, command.name? = some name -> Dialect.vm.IsIdentifier name

/-- A command as it can be written: its name is no reserved word, and its number can be read. -/
structure Command.IsWritable (command : Command) : Prop where
  named : command.IsNamed
  small : ∀ number ∈ command.number?, number.toNat ≤ maxInteger

/-! ## Tokens of a command -/

/-- The reserved word that a command starts with. -/
def Command.keyword : Command -> Keyword
  | .arithmetic operation => operation.keyword
  | .push _ _ => .push
  | .pop _ _ => .pop
  | .label _ => .label
  | .goto _ => .goto
  | .ifGoto _ => .«if»
  | .function _ _ => .function
  | .call _ _ => .call
  | .«return» => .«return»

/-- What stands behind the word that a command starts with. -/
def Command.operandText : Command -> List Char
  | .arithmetic _ | .«return» => []
  | .push segment index | .pop segment index =>
    ' ' :: (segment.name.toList ++ ' ' :: (toString index.toNat).toList)
  | .label name | .goto name => ' ' :: name.toList
  | .ifGoto name => '-' :: (Keyword.goto.text.toList ++ ' ' :: name.toList)
  | .function name number | .call name number =>
    ' ' :: (name.toList ++ ' ' :: (toString number.toNat).toList)

/-- The tokens of a command's operands. -/
def Command.operands : Command -> List Token
  | .arithmetic _ | .«return» => []
  | .push segment index | .pop segment index => [.ofName segment.name, .ofNumber index.toNat]
  | .label name | .goto name => [.ofName name]
  | .ifGoto name => [.ofMark .minus, .ofKeyword .goto, .ofName name]
  | .function name number | .call name number => [.ofName name, .ofNumber number.toNat]

theorem Command.toList_text (command : Command) :
    command.text.toList = command.keyword.text.toList ++ command.operandText := by
  cases command with
  | arithmetic operation => exact (List.append_nil _).symm
  | «return» => rfl
  | _ => simp [text, keyword, operandText, Keyword.text]

theorem Command.keyword_mem (command : Command) : command.keyword ∈ Dialect.vm.keywords := by
  cases command with
  | arithmetic operation => cases operation <;> decide
  | _ => simp [keyword, Dialect.keywords]

theorem isIdentifier_segment (segment : Segment) : Dialect.vm.IsIdentifier segment.name := by
  cases segment <;> decide +kernel

/-- A word ends in front of a blank, a line end or a hyphen. -/
theorem Command.stops_operandText (command : Command) (behind : List Char) :
    Stops Dialect.vm.continuesName (command.operandText ++ '\n' :: behind) := by
  cases command <;> exact stops_cons.mpr (by decide)

theorem scans_named {name : String} (isIdentifier : Dialect.vm.IsIdentifier name)
    (behind : List Char) : Scans .vm ('\n' :: behind) (' ' :: name.toList) [.ofName name] :=
  .blank rfl (.name isIdentifier (stops_cons.mpr (by decide)))

theorem scans_numbered {name : String} (isIdentifier : Dialect.vm.IsIdentifier name)
    (number : UInt16) (behind : List Char) :
    Scans .vm ('\n' :: behind) (' ' :: (name.toList ++ ' ' :: (toString number.toNat).toList))
      [.ofName name, .ofNumber number.toNat] := by
  have digits : Scans .vm ('\n' :: behind) (toString number.toNat).toList _ :=
    .number number.toNat (stops_cons.mpr (by decide))
  have word : Scans .vm (' ' :: ((toString number.toNat).toList ++ '\n' :: behind)) name.toList _ :=
    .name isIdentifier (stops_cons.mpr (by decide))
  exact .blank rfl (word.spaced digits)

/-- The hyphen of a conditional jump is a token of its own, and so is the word behind it. -/
theorem scans_ifGoto {name : String} (isIdentifier : Dialect.vm.IsIdentifier name)
    (behind : List Char) :
    Scans .vm ('\n' :: behind) ('-' :: (Keyword.goto.text.toList ++ ' ' :: name.toList))
      [.ofMark .minus, .ofKeyword .goto, .ofName name] := by
  have hyphen : Scans .vm (Keyword.goto.text.toList ++ ' ' :: name.toList ++ '\n' :: behind)
      [Mark.minus.character] [.ofMark .minus] := .mark (by decide) (by decide)
  have goto : Scans .vm (' ' :: name.toList ++ '\n' :: behind) Keyword.goto.text.toList
      [.ofKeyword .goto] := .keyword (by decide) (stops_cons.mpr (by decide))
  exact hyphen.append (goto.append (scans_named isIdentifier behind))

theorem Command.scans_operands {command : Command} (writable : command.IsWritable)
    (behind : List Char) :
    Scans .vm ('\n' :: behind) command.operandText command.operands := by
  have named (name : String) (names : command.name? = some name) :=
    writable.named name names
  cases command with
  | arithmetic operation => exact .done
  | «return» => exact .done
  | push segment index => exact scans_numbered (isIdentifier_segment segment) index behind
  | pop segment index => exact scans_numbered (isIdentifier_segment segment) index behind
  | label name => exact scans_named (named name rfl) behind
  | goto name => exact scans_named (named name rfl) behind
  | ifGoto name => exact scans_ifGoto (named name rfl) behind
  | function name number => exact scans_numbered (named name rfl) number behind
  | call name number => exact scans_numbered (named name rfl) number behind

theorem Command.scans_text (command : Command) (writable : command.IsWritable)
    (behind : List Char) :
    Scans .vm ('\n' :: behind) command.text.toList
      (.ofKeyword command.keyword :: command.operands) := by
  rw [toList_text]
  have word := Scans.keyword command.keyword_mem (command.stops_operandText behind)
  exact word.append (scans_operands writable behind)

theorem Command.open_operands (command : Command) :
    ∀ token ∈ Token.ofKeyword command.keyword :: command.operands, token.kind.endsLine = false := by
  cases command <;> simp [operands, Token.ofKeyword, Token.ofName, Token.ofNumber, Token.ofMark,
    TokenKind.endsLine]

/-! ## Reading -/

section Reading

open Production

variable {start last : Cursor}

theorem name_eq_some {name : String} :
    Source.name start = (some name, last) ↔ start.PassesFor [.ofName name] last := by
  have reads : Source.name start = (some name, last) ↔ _ := expectLiteral_eq_some
  rw [reads, ← and_assoc, ← Token.standsFor_ofName]
  exact and_congr_right fun _ => eq_comm

theorem segment_eq_some {segment : Segment} :
    Source.segment start = (some segment, last) ↔ start.PassesFor [.ofName segment.name] last := by
  rw [← name_eq_some]
  constructor
  · intro done
    obtain ⟨name, between, named, looksUp⟩ := andThen_eq_some.mp done
    cases found : Segment.ofName? name with
    | none =>
        rw [found] at looksUp
        cases looksUp
    | some other =>
        rw [found] at looksUp
        obtain ⟨rfl, rfl⟩ := pure_eq_some.mp looksUp
        have same : other.name = name := by simpa using List.find?_some found
        rw [same]
        exact named
  · intro named
    have found : Segment.ofName? segment.name = some segment := by cases segment <;> decide
    have name : expectLiteral .identifier start = (some segment.name, last) := named
    unfold Source.segment
    rw [andThen_eq name, found]
    rfl

theorem number_eq_some {number : UInt16} : Source.number start = (some number, last) ↔
    start.PassesFor [.ofNumber number.toNat] last ∧ number.toNat ≤ maxInteger := by
  constructor
  · intro done
    obtain ⟨⟨⟩, _, expects, rest⟩ := andThen_eq_some.mp done
    obtain ⟨-, rfl⟩ := expect_eq_some.mp expects
    obtain ⟨token, _, reads, answers⟩ := andThen_eq_some.mp rest
    obtain ⟨rfl, rfl⟩ := current_eq_some.mp reads
    cases value : start.advance.current.value? with
    | none =>
        rw [value] at answers
        cases answers
    | some other =>
        rw [value] at answers
        obtain ⟨rfl, rfl⟩ := pure_eq_some.mp answers
        rw [start.advance_current] at value
        obtain ⟨kind, value, small⟩ := Token.value?_eq_some.mp value
        exact ⟨⟨Token.standsFor_ofNumber.mpr ⟨kind, value⟩, rfl⟩, small⟩
  · rintro ⟨⟨stands, rfl⟩, small⟩
    obtain ⟨kind, value⟩ := Token.standsFor_ofNumber.mp stands
    have value := Token.value?_eq_some.mpr ⟨kind, value, small⟩
    unfold Source.number
    rw [andThen_eq (expect_eq_some.mpr ⟨kind, rfl⟩), andThen_eq (current_eq_some.mpr ⟨rfl, rfl⟩),
      start.advance_current, value]
    rfl

/-- One operand is read, and the command made of it. -/
theorem one_eq_some {operand : Production α} {build : α -> β} {value : β} :
    (do return build (← operand) : Production β) start = (some value, last) ↔
      ∃ one, operand start = (some one, last) ∧ build one = value := by
  rw [andThen_eq_some]
  simp only [pure_eq_some]
  constructor
  · rintro ⟨one, between, reads, same, rfl⟩
    exact ⟨one, reads, same⟩
  · rintro ⟨one, reads, same⟩
    exact ⟨one, last, reads, same, rfl⟩

/-- The hyphen and the word behind it are passed over in front of a conditional jump's label. -/
theorem hyphen_eq_some {production : Production α} {value : α} :
    (do
      expect (.mark .minus)
      expect (.keyword .goto)
      production : Production α) start = (some value, last) ↔
      ∃ between, start.PassesFor [.ofMark .minus, .ofKeyword .goto] between ∧
        production between = (some value, last) := by
  constructor
  · intro done
    obtain ⟨⟨⟩, _, minus, rest⟩ := andThen_eq_some.mp done
    obtain ⟨isMinus, rfl⟩ := expect_eq_some.mp minus
    obtain ⟨⟨⟩, _, goto, rest⟩ := andThen_eq_some.mp rest
    obtain ⟨isGoto, rfl⟩ := expect_eq_some.mp goto
    exact ⟨_, ⟨Token.standsFor_ofMark.mpr isMinus, Token.standsFor_ofKeyword.mpr isGoto, rfl⟩, rest⟩
  · rintro ⟨_, ⟨minus, goto, rfl⟩, rest⟩
    rw [andThen_eq (expect_eq_some.mpr ⟨Token.standsFor_ofMark.mp minus, rfl⟩),
      andThen_eq (expect_eq_some.mpr ⟨Token.standsFor_ofKeyword.mp goto, rfl⟩)]
    exact rest

/-- A segment or a name is read together with the number behind it. -/
theorem numbered_eq_some {operand : Production α} {build : α -> UInt16 -> β} {written : α -> Token}
    {value : β}
    (reads : ∀ {one between}, operand start = (some one, between) ↔
      start.PassesFor [written one] between) :
    (do return build (← operand) (← Source.number) : Production β) start = (some value, last) ↔
      ∃ one number, start.PassesFor [written one, .ofNumber number.toNat] last ∧
        number.toNat ≤ maxInteger ∧ build one number = value := by
  rw [andThen_eq_some]
  simp only [one_eq_some]
  constructor
  · rintro ⟨one, between, first, number, digits, same⟩
    obtain ⟨digits, small⟩ := number_eq_some.mp digits
    exact ⟨one, number, Cursor.passesFor_cons.mpr ⟨between, reads.mp first, digits⟩, small, same⟩
  · rintro ⟨one, number, passes, small, same⟩
    obtain ⟨between, first, digits⟩ := Cursor.passesFor_cons.mp passes
    exact ⟨one, between, reads.mpr first, number, number_eq_some.mpr ⟨digits, small⟩, same⟩

theorem named_eq_some {build : String -> α} {value : α} :
    (do return build (← Source.name) : Production α) start = (some value, last) ↔
      ∃ name, start.PassesFor [.ofName name] last ∧ build name = value := by
  simp only [one_eq_some, name_eq_some]

/-- What is read behind the word that a command starts with. -/
theorem command_eq_some {command : Command} : Source.command start = (some command, last) ↔
    start.current.kind = .keyword command.keyword ∧ start.PassesFor command.operands last ∧
      ∀ number ∈ command.number?, number.toNat ≤ maxInteger := by
  have single {number : UInt16} (small : number.toNat ≤ maxInteger) :
      ∀ other ∈ some number, other.toNat ≤ maxInteger := by
    rintro _ ⟨⟩
    exact small
  unfold Source.command
  rw [andThen_eq (current_eq_some.mpr ⟨rfl, rfl⟩)]
  generalize start.current.kind = kind
  constructor
  · intro done
    split at done
    · obtain ⟨segment, number, passes, small, rfl⟩ := (numbered_eq_some segment_eq_some).mp done
      exact ⟨rfl, passes, single small⟩
    · obtain ⟨segment, number, passes, small, rfl⟩ := (numbered_eq_some segment_eq_some).mp done
      exact ⟨rfl, passes, single small⟩
    · obtain ⟨name, passes, rfl⟩ := named_eq_some.mp done
      exact ⟨rfl, passes, nofun⟩
    · obtain ⟨name, passes, rfl⟩ := named_eq_some.mp done
      exact ⟨rfl, passes, nofun⟩
    · obtain ⟨between, hyphen, rest⟩ := hyphen_eq_some.mp done
      obtain ⟨name, ⟨label, passed⟩, rfl⟩ := named_eq_some.mp rest
      obtain ⟨minus, goto, rfl⟩ := hyphen
      exact ⟨rfl, ⟨minus, goto, label, passed⟩, nofun⟩
    · obtain ⟨name, number, passes, small, rfl⟩ := (numbered_eq_some name_eq_some).mp done
      exact ⟨rfl, passes, single small⟩
    · obtain ⟨name, number, passes, small, rfl⟩ := (numbered_eq_some name_eq_some).mp done
      exact ⟨rfl, passes, single small⟩
    · obtain ⟨rfl, rfl⟩ := pure_eq_some.mp done
      exact ⟨rfl, rfl, nofun⟩
    · generalize found : Operation.ofKeyword? _ = operation at done
      split at done
      · obtain ⟨rfl, rfl⟩ := pure_eq_some.mp done
        have same := List.find?_some found
        exact ⟨congrArg _ (beq_iff_eq.mp same).symm, rfl, nofun⟩
      · cases done
    · cases done
  · rintro ⟨rfl, passes, small⟩
    cases command with
    | arithmetic operation =>
        cases passes
        cases operation <;> rfl
    | «return» =>
        cases passes
        rfl
    | push segment index =>
        exact (numbered_eq_some segment_eq_some).mpr ⟨segment, index, passes, small index rfl, rfl⟩
    | pop segment index =>
        exact (numbered_eq_some segment_eq_some).mpr ⟨segment, index, passes, small index rfl, rfl⟩
    | label name => exact named_eq_some.mpr ⟨name, passes, rfl⟩
    | goto name => exact named_eq_some.mpr ⟨name, passes, rfl⟩
    | ifGoto name =>
        obtain ⟨minus, goto, label⟩ := passes
        exact hyphen_eq_some.mpr ⟨_, ⟨minus, goto, rfl⟩, named_eq_some.mpr ⟨name, label, rfl⟩⟩
    | function name number =>
        exact (numbered_eq_some name_eq_some).mpr ⟨name, number, passes, small number rfl, rfl⟩
    | call name number =>
        exact (numbered_eq_some name_eq_some).mpr ⟨name, number, passes, small number rfl, rfl⟩

theorem Command.readsLine (command : Command) (writable : command.IsWritable) :
    Source.command.ReadsLine (.ofKeyword command.keyword) command.operands command :=
  fun _ _ here passes _ =>
    command_eq_some.mpr ⟨congrArg Token.kind here, passes.passesFor, writable.small⟩

end Reading

/-! ## Sources -/

/-- Commands that were written down are read back, each on the line where it was written. -/
theorem parse_sourceText {commands : List Command}
    (writable : ∀ command ∈ commands, command.IsWritable) (name : String) :
    parse (sourceText commands) = .ok (File.ofCommands name commands).commands := by
  have read : parse (sourceText commands) = .ok _ :=
    readLines_closedLines fun command member behind =>
      HoldsLine.item (command.scans_text (writable command member) behind) command.open_operands
        (command.readsLine (writable command member))
  rw [read]
  exact congrArg Except.ok List.filterMap_some

/-- Commands of sources have names that are no reserved words, and small numbers. -/
theorem finds_writable : Source.command.Finds (Token.Identifies .vm) Command.IsWritable :=
  (finds_command_of fun _ identifies kind => identifies kind).mono fun _ found => ⟨found.2, found.1⟩

/-- Exactly the lists of commands that can be written are read back from their text, each command on the
line of its own number. -/
theorem parse_sourceText_eq_ok_iff (commands : List Command) :
    parse (sourceText commands) =
        .ok (commands.mapIdx fun index command => ⟨command, index + 1⟩) ↔
      ∀ command ∈ commands, command.IsWritable := by
  constructor
  · intro read command member
    obtain ⟨index, inside, rfl⟩ := List.mem_iff_getElem.mp member
    exact mem_readLines_identifier finds_writable read ⟨commands[index], index + 1⟩
      (List.mem_mapIdx.mpr ⟨index, inside, rfl⟩)
  · exact fun writable => parse_sourceText writable ""

end Vm
end HackToolchain
