import HackToolchain.Proofs.Hack.Binding
import HackToolchain.Proofs.Hack.Recovery
import HackToolchain.Proofs.Token.Lines

namespace HackToolchain
namespace Hack

/-!
# Listings as text

A listing and its text say the same to the assembler.  The text of an entry is scanned into tokens
that the reader of assembly makes the entry of again.  For compute instructions the reader puts the
tokens together and reads the fields from the resulting text; what it is scanned into does not matter
then, as long as nothing of it is lost.

Comments are not read, but they take up a line.  So the entries that are read have the lines that they
have in the listing, and the assembler gives the same image, or the same error, for both.
-/

/-- An entry that can be written down: numbers are in range, names are those of assembly, there is a
word for the computation, and comments do not go beyond their line. -/
def Instruction.IsWritable : Instruction -> Prop
  | .value number => number.toNat ≤ maxInteger
  | .symbol name | .label name => Dialect.asm.IsWord name.toList
  | .compute _ computation _ => computation ∈ Computation.all
  | .comment text => ∀ character ∈ text.toList, Lexeme.breaksLine character = false

instance : DecidablePred Instruction.IsWritable
  | .value number => inferInstanceAs (Decidable (number.toNat ≤ maxInteger))
  | .symbol name => inferInstanceAs (Decidable (Dialect.asm.IsWord name.toList))
  | .label name => inferInstanceAs (Decidable (Dialect.asm.IsWord name.toList))
  | .compute _ computation _ => inferInstanceAs (Decidable (computation ∈ Computation.all))
  | .comment text => List.decidableBAll _ text.toList

/-- Assembly reserves no words. -/
theorem isIdentifier_of_isWord {name : String} (isWord : Dialect.asm.IsWord name.toList) :
    Dialect.asm.IsIdentifier name :=
  ⟨isWord, rfl⟩

/-! ## Fields -/

theorem splitAtFirst_eq_some {separator : Char} {text front behind : String}
    (spelled : text.toList = front.toList ++ separator :: behind.toList)
    (free : separator ∉ front.toList) : splitAtFirst separator text = some (front, behind) := by
  have stops : Stops (fun character => character != separator) (separator :: behind.toList) :=
    stops_cons.mpr (by simp)
  have inFront : ∀ character ∈ front.toList, (character != separator) = true := by
    intro character member
    exact bne_iff_ne.mpr fun same => free (same ▸ member)
  unfold splitAtFirst
  dsimp only
  rw [spelled, takeWhile_of_stops stops, dropWhile_of_stops stops,
    List.takeWhile_eq_self_iff.mpr inFront, List.dropWhile_eq_nil_iff.mpr inFront]
  simp

theorem splitAtFirst_eq_none {separator : Char} {text : String} (free : separator ∉ text.toList) :
    splitAtFirst separator text = none := by
  have passed : text.toList.dropWhile (fun character => character != separator) = [] := by
    rw [List.dropWhile_eq_nil_iff]
    intro character member
    exact bne_iff_ne.mpr fun same => free (same ▸ member)
  unfold splitAtFirst
  dsimp only
  rw [passed]

theorem Destination.ofText_text {destination : Destination}
    (somewhere : destination.isNowhere = false) :
    Destination.ofText destination.text = .ok destination := by
  rcases destination with ⟨address, data, memory⟩
  cases address <;> cases data <;> cases memory <;> first | rfl | exact absurd somewhere (by decide)

theorem Computation.ofText_text {computation : Computation} (listed : computation ∈ all) :
    Computation.ofText computation.text = .ok computation := by
  simp only [all, List.mem_cons, List.not_mem_nil, or_false] at listed
  rcases listed with rfl | rfl | rfl | rfl | rfl | rfl | rfl | rfl | rfl | rfl | rfl | rfl | rfl |
    rfl | rfl | rfl | rfl | rfl | rfl | rfl | rfl | rfl | rfl | rfl | rfl | rfl | rfl | rfl
  all_goals rfl

theorem Jump.ofText_text (jump : Jump) : Jump.ofText jump.text = .ok jump := by
  cases jump <;> rfl

/-- The characters that the fields of a compute instruction are written with. -/
def fieldCharacters : List Char :=
  ['A', 'D', 'M', '0', '1', '+', '-', '&', '|', '!', 'J', 'G', 'T', 'E', 'Q', 'L', 'N', 'P']

theorem Destination.mem_text {destination : Destination} {character : Char}
    (member : character ∈ destination.text.toList) : character ∈ fieldCharacters := by
  have known : destination.text.toList.all fieldCharacters.contains = true := by
    rcases destination with ⟨address, data, memory⟩
    cases address <;> cases data <;> cases memory <;> decide
  exact List.contains_iff_mem.mp (List.all_eq_true.mp known character member)

theorem Computation.mem_text {computation : Computation} {character : Char}
    (member : character ∈ computation.text.toList) : character ∈ fieldCharacters := by
  have operand (operand : Operand) : operand.character ∈ fieldCharacters := by
    cases operand <;> decide
  have operator (operator : Operator) : operator.character ∈ fieldCharacters := by
    cases operator <;> decide
  cases computation with
  | operand x =>
      simp only [text, String.toList_ofList, List.mem_cons, List.not_mem_nil, or_false] at member
      rcases member with rfl
      exact operand x
  | unary sign x =>
      simp only [text, String.toList_ofList, List.mem_cons, List.not_mem_nil, or_false] at member
      rcases member with rfl | rfl
      · exact operator sign
      · exact operand x
  | binary left sign right =>
      simp only [text, String.toList_ofList, List.mem_cons, List.not_mem_nil, or_false] at member
      rcases member with rfl | rfl | rfl
      · exact operand left
      · exact operator sign
      · exact operand right

theorem Jump.mem_text {jump : Jump} {character : Char} (member : character ∈ jump.text.toList) :
    character ∈ fieldCharacters := by
  have known : jump.text.toList.all fieldCharacters.contains = true := by cases jump <;> decide
  exact List.contains_iff_mem.mp (List.all_eq_true.mp known character member)

/-- What stands behind the destination. -/
def operationText (computation : Computation) (jump : Option Jump) : String :=
  computation.text ++
    match jump with
    | some jump => ";" ++ jump.text
    | none => ""

theorem text_compute (destination : Destination) (computation : Computation) (jump : Option Jump) :
    Instruction.text (.compute destination computation jump) =
      (if destination.isNowhere then "" else destination.text ++ "=") ++
        operationText computation jump :=
  String.append_assoc

theorem mem_operationText {computation : Computation} {jump : Option Jump} {character : Char}
    (member : character ∈ (operationText computation jump).toList) :
    character ∈ ';' :: fieldCharacters := by
  unfold operationText at member
  rw [String.toList_append, List.mem_append] at member
  rcases member with inComputation | inJump
  · exact List.mem_cons_of_mem _ (Computation.mem_text inComputation)
  · cases jump with
    | none => cases inJump
    | some jump =>
        rw [String.toList_append, List.mem_append] at inJump
        rcases inJump with separator | inJump
        · exact List.mem_cons.mpr (.inl (List.mem_singleton.mp separator))
        · exact List.mem_cons_of_mem _ (Jump.mem_text inJump)

/-- Read what stands behind the destination. -/
def operationOfText (destination : Destination) (text : String) : Except FieldError Instruction := do
  let (computation, jump) ← match splitAtFirst ';' text with
    | some (computation, jump) => pure (computation, some (← Jump.ofText jump))
    | none => pure (text, none)
  return .compute destination (← Computation.ofText computation) jump

theorem operationOfText_text (destination : Destination) {computation : Computation}
    (jump : Option Jump) (listed : computation ∈ Computation.all) :
    operationOfText destination (operationText computation jump) =
      .ok (.compute destination computation jump) := by
  have free : ';' ∉ computation.text.toList := fun member =>
    absurd (Computation.mem_text member) (by decide)
  unfold operationOfText
  cases jump with
  | none =>
      have whole : operationText computation none = computation.text := String.append_empty
      rw [whole, splitAtFirst_eq_none free]
      change (Computation.ofText computation.text >>= fun computation =>
        pure (Instruction.compute destination computation none)) = _
      rw [Computation.ofText_text listed]
      rfl
  | some jump =>
      have spelled : (operationText computation (some jump)).toList =
          computation.text.toList ++ ';' :: jump.text.toList := by
        simp [operationText]
      rw [splitAtFirst_eq_some spelled free]
      dsimp only
      rw [Jump.ofText_text]
      change (Computation.ofText computation.text >>= fun computation =>
        pure (Instruction.compute destination computation (some jump))) = _
      rw [Computation.ofText_text listed]
      rfl

/-- The fields of a compute instruction are read back from its text. -/
theorem computeOfText_text (destination : Destination) {computation : Computation}
    (jump : Option Jump) (listed : computation ∈ Computation.all) :
    computeOfText (Instruction.text (.compute destination computation jump)) =
      .ok (.compute destination computation jump) := by
  rw [← operationOfText_text destination jump listed]
  unfold computeOfText
  cases nowhere : destination.isNowhere with
  | true =>
      have same : destination = .nowhere := by
        rcases destination with ⟨address, data, memory⟩
        revert nowhere
        cases address <;> cases data <;> cases memory <;> decide +kernel
      have whole : Instruction.text (.compute destination computation jump) =
          operationText computation jump := by
        rw [text_compute, if_pos nowhere, String.empty_append]
      have free : '=' ∉ (operationText computation jump).toList := fun member =>
        absurd (mem_operationText member) (by decide)
      rw [whole, splitAtFirst_eq_none free, same]
      rfl
  | false =>
      have spelled : (Instruction.text (.compute destination computation jump)).toList =
          destination.text.toList ++ '=' :: (operationText computation jump).toList := by
        rw [text_compute, nowhere, if_neg Bool.false_ne_true, String.toList_append,
          String.toList_append, List.append_assoc]
        rfl
      have free : '=' ∉ destination.text.toList := fun member =>
        absurd (Destination.mem_text member) (by decide)
      rw [splitAtFirst_eq_some spelled free]
      dsimp only
      rw [Destination.ofText_text nowhere]
      rfl

/-! ## Compute instructions -/

/-- The characters that compute instructions start with. -/
def startCharacters : List Char := ['A', 'D', 'M', '0', '1', '-', '!']

theorem Destination.text_cons {destination : Destination}
    (somewhere : destination.isNowhere = false) :
    ∃ first ∈ startCharacters, ∃ rest, destination.text.toList = first :: rest := by
  rcases destination with ⟨address, data, memory⟩
  cases address <;> cases data <;> cases memory <;>
    first
    | exact absurd somewhere (by decide)
    | exact ⟨_, by decide, _, rfl⟩

theorem Computation.text_cons {computation : Computation} (listed : computation ∈ all) :
    ∃ first ∈ startCharacters, ∃ rest, computation.text.toList = first :: rest := by
  simp only [all, List.mem_cons, List.not_mem_nil, or_false] at listed
  rcases listed with rfl | rfl | rfl | rfl | rfl | rfl | rfl | rfl | rfl | rfl | rfl | rfl | rfl |
    rfl | rfl | rfl | rfl | rfl | rfl | rfl | rfl | rfl | rfl | rfl | rfl | rfl | rfl | rfl
  all_goals exact ⟨_, by decide, _, rfl⟩

theorem text_compute_cons (destination : Destination) {computation : Computation}
    (jump : Option Jump) (listed : computation ∈ Computation.all) :
    ∃ first ∈ startCharacters, ∃ rest,
      (Instruction.text (.compute destination computation jump)).toList = first :: rest := by
  rw [text_compute]
  cases nowhere : destination.isNowhere with
  | true =>
      obtain ⟨first, starts, rest, spelled⟩ := Computation.text_cons listed
      rw [if_pos rfl, String.empty_append]
      unfold operationText
      rw [String.toList_append, spelled]
      exact ⟨first, starts, _, List.cons_append⟩
  | false =>
      obtain ⟨first, starts, rest, spelled⟩ := Destination.text_cons nowhere
      rw [if_neg Bool.false_ne_true, String.toList_append, String.toList_append, spelled,
        List.append_assoc]
      exact ⟨first, starts, _, List.cons_append⟩

/-- No character of a compute instruction is a blank or starts a comment or a string. -/
theorem isPlain_text_compute {destination : Destination} {computation : Computation}
    {jump : Option Jump} {character : Char}
    (member : character ∈ (Instruction.text (.compute destination computation jump)).toList) :
    IsPlain character := by
  have known : character ∈ '=' :: ';' :: fieldCharacters := by
    rw [text_compute, String.toList_append, List.mem_append] at member
    rcases member with inFront | inOperation
    · split at inFront
      · cases inFront
      · rw [String.toList_append, List.mem_append] at inFront
        rcases inFront with inDestination | equals
        · exact List.mem_cons_of_mem _ (List.mem_cons_of_mem _ (Destination.mem_text inDestination))
        · exact List.mem_cons.mpr (.inl (List.mem_singleton.mp equals))
    · exact List.mem_cons_of_mem _ (mem_operationText inOperation)
  exact isPlain_of_test (List.contains_iff_mem.mpr known) (by decide)

/-- What a token can be that a compute instruction starts with. -/
def startKinds : List TokenKind := [.identifier, .integer, .mark .minus, .unknown]

theorem kind_of_start {first : Char} (starts : first ∈ startCharacters) (rest : List Char) :
    (Lexeme.ofText .asm first rest).kind ∈ startKinds := by
  simp only [startCharacters, List.mem_cons, List.not_mem_nil, or_false] at starts
  rcases starts with rfl | rfl | rfl | rfl | rfl | rfl | rfl
  iterate 3 · exact (by decide : TokenKind.identifier ∈ startKinds)
  iterate 2 · exact (by decide : TokenKind.integer ∈ startKinds)
  · exact (by decide : TokenKind.mark .minus ∈ startKinds)
  · exact (by decide : TokenKind.unknown ∈ startKinds)

section Reading

open Production

variable {start last : Cursor} {first : Token} {others : List Token}

/-- A cursor that passes the rest of a line takes the literals of the tokens on it. -/
theorem restOfLine_of_passes (passes : start.Passes others last)
    (open_ : ∀ token ∈ others, token.kind.endsLine = false)
    (ends : last.lookahead.kind.endsLine = true) (text : String) :
    Source.restOfLine start text =
      (text ++ String.ofList (literals others), last) := by
  have unplaced :
      (start.stream.tail.tokens.takeWhile fun token => !token.kind.endsLine).map Token.unplaced =
        others := passes.takeWhile open_ ends
  rw [Source.restOfLine_of_following rfl, ← literals_unplaced, ← List.length_map Token.unplaced,
    unplaced, passes.advanceBy]

theorem compute_eq_some {instruction : Instruction} (here : start.current.unplaced = first)
    (passes : start.Passes others last) (open_ : ∀ token ∈ others, token.kind.endsLine = false)
    (ends : last.lookahead.kind.endsLine = true)
    (read : computeOfText (String.ofList (literals (first :: others))) = .ok instruction) :
    Source.compute start = (some instruction, last) := by
  have literal : start.current.literal = first.literal := by
    rw [← here]
    rfl
  unfold Source.compute
  rw [restOfLine_of_passes passes open_ ends, literal, ← ofList_literals_cons]
  dsimp only
  rw [read]

/-- A line with a compute instruction is read from its text, whatever its tokens are. -/
theorem readsLine_compute {instruction : Instruction} (starts : first.kind ∈ startKinds)
    (open_ : ∀ token ∈ others, token.kind.endsLine = false)
    (read : computeOfText (String.ofList (literals (first :: others))) = .ok instruction) :
    Source.instruction.ReadsLine first others instruction := by
  intro start last here passes ends
  have kind : start.current.kind = first.kind := by
    rw [← here]
    rfl
  have computed := compute_eq_some here passes open_ ends read
  unfold Source.instruction
  rw [andThen_eq (current_eq_some.mpr ⟨rfl, rfl⟩), kind]
  simp only [startKinds, List.mem_cons, List.not_mem_nil, or_false] at starts
  rcases starts with isKind | isKind | isKind | isKind <;> rw [isKind] <;> exact computed

/-! ## Addresses and labels -/

/-- Behind an at sign one token is the rest of the line. -/
theorem readsLine_address {operand : Token} {instruction : Instruction}
    (answers : ∀ start : Cursor, start.lookahead.unplaced = operand ->
      Source.address start = (some instruction, start.advance)) :
    Source.instruction.ReadsLine (.ofMark .at) [operand] instruction := by
  intro start last here passes ends
  obtain ⟨-, spelled, rfl⟩ := passes
  have kind : start.current.kind = .mark .at := congrArg Token.kind here
  unfold Source.instruction
  rw [andThen_eq (current_eq_some.mpr ⟨rfl, rfl⟩), kind]
  exact answers start spelled

theorem readsLine_value {number : UInt16} (small : number.toNat ≤ maxInteger) :
    Source.instruction.ReadsLine (.ofMark .at) [.ofNumber number.toNat] (.value number) := by
  apply readsLine_address
  intro start spelled
  have next : start.lookahead.kind = .integer := congrArg Token.kind spelled
  have value := Token.value?_of_unplaced spelled small
  unfold Source.address
  rw [andThen_eq (lookahead_eq_some.mpr ⟨rfl, rfl⟩), next]
  dsimp only
  rw [andThen_eq (advance_eq_some.mpr rfl), value]
  rfl

theorem readsLine_symbol (name : String) :
    Source.instruction.ReadsLine (.ofMark .at) [.ofName name] (.symbol name) := by
  apply readsLine_address
  intro start spelled
  have next : start.lookahead.kind = .identifier := congrArg Token.kind spelled
  have literal : start.lookahead.literal = name := congrArg Token.literal spelled
  unfold Source.address
  rw [andThen_eq (lookahead_eq_some.mpr ⟨rfl, rfl⟩), next]
  dsimp only
  rw [andThen_eq (advance_eq_some.mpr rfl), literal]
  rfl

theorem readsLine_label (name : String) :
    Source.instruction.ReadsLine (.ofMark .leftParen) [.ofName name, .ofMark .rightParen]
      (.label name) := by
  intro start last here passes ends
  obtain ⟨-, spelled, -, closed, rfl⟩ := passes
  have kind : start.current.kind = .mark .leftParen := congrArg Token.kind here
  have next : start.lookahead.kind = .identifier := congrArg Token.kind spelled
  have literal : start.lookahead.literal = name := congrArg Token.literal spelled
  have closes : start.advance.lookahead.kind = .mark .rightParen := congrArg Token.kind closed
  unfold Source.instruction
  rw [andThen_eq (current_eq_some.mpr ⟨rfl, rfl⟩), kind]
  dsimp only
  unfold Source.label
  rw [andThen_eq (expectLiteral_eq_some.mpr ⟨next, literal, rfl⟩),
    andThen_eq (expect_eq_some.mpr ⟨closes, rfl⟩)]
  rfl

end Reading

/-! ## Sources -/

/-- Whether an entry is a line for the reader. -/
def Instruction.isComment : Instruction -> Bool
  | .comment _ => true
  | _ => false

/-- What the reader makes of an entry's line. -/
def Instruction.content? (entry : Instruction) : Option Instruction :=
  if entry.isComment then none else some entry

section Lines

variable (behind : List Char)

/-- An address is written behind a sign that ends nothing and starts no name. -/
theorem holdsLine_address {text : String} {token : Token} {instruction : Instruction}
    (scans : Scans .asm ('\n' :: behind) text.toList [token]) (open_ : token.kind.endsLine = false)
    (reads : Source.instruction.ReadsLine (.ofMark .at) [token] instruction) :
    HoldsLine .asm Source.instruction behind ("@" ++ text).toList (some instruction) := by
  have sign : Scans .asm (text.toList ++ '\n' :: behind) [Mark.at.character] [.ofMark .at] :=
    .mark (by decide) (by decide)
  rw [String.toList_append]
  refine .item (sign.append scans) ?_ reads
  exact List.forall_mem_cons.mpr ⟨rfl, List.forall_mem_singleton.mpr open_⟩

theorem holdsLine_label {name : String} (isWord : Dialect.asm.IsWord name.toList) :
    HoldsLine .asm Source.instruction behind (Instruction.label name).text.toList
      (some (.label name)) := by
  have closed : Scans .asm ('\n' :: behind) [Mark.rightParen.character] [.ofMark .rightParen] :=
    .mark (by decide) (by decide)
  have word : Scans .asm (')' :: '\n' :: behind) name.toList [.ofName name] :=
    .name (isIdentifier_of_isWord isWord) (stops_cons.mpr (by decide))
  have inside : Scans .asm ('\n' :: behind) (name.toList ++ [')']) [.ofName name, .ofMark .rightParen] :=
    word.append closed
  have opened : Scans .asm (name.toList ++ [')'] ++ '\n' :: behind) [Mark.leftParen.character]
      [.ofMark .leftParen] := .mark (by decide) (by decide)
  unfold Instruction.text
  rw [String.toList_append, String.toList_append, List.append_assoc]
  refine .item (opened.append inside) ?_ (readsLine_label name)
  exact List.forall_mem_cons.mpr ⟨rfl, List.forall_mem_cons.mpr ⟨rfl, List.forall_mem_singleton.mpr rfl⟩⟩

theorem holdsLine_compute (destination : Destination) {computation : Computation}
    (jump : Option Jump) (listed : computation ∈ Computation.all) :
    HoldsLine .asm Source.instruction behind
      (Instruction.text (.compute destination computation jump)).toList
      (some (.compute destination computation jump)) := by
  obtain ⟨first, starts, rest, spelled⟩ := text_compute_cons destination jump listed
  have plain (character : Char) (member : character ∈ first :: rest) : IsPlain character :=
    isPlain_text_compute (spelled ▸ member)
  obtain ⟨tokens, scans, open_, whole⟩ := Scans.plain .asm behind plain
  rw [spelled]
  cases tokens with
  | nil => cases whole
  | cons head others =>
      have kind := scans.kind_head (plain first List.mem_cons_self).notBlank
      refine .item scans open_ (readsLine_compute ?_ ?_ ?_)
      · rw [kind]
        exact kind_of_start starts _
      · exact fun token member => open_ token (List.mem_cons_of_mem head member)
      · rw [literals, whole, ← spelled, String.ofList_toList]
        exact computeOfText_text destination jump listed

theorem holdsLine_comment {text : String}
    (oneLine : ∀ character ∈ text.toList, Lexeme.breaksLine character = false) :
    HoldsLine .asm Source.instruction behind (Instruction.comment text).text.toList none := by
  have inside : ∀ character ∈ ' ' :: text.toList, Lexeme.breaksLine character = false :=
    List.forall_mem_cons.mpr ⟨by decide, oneLine⟩
  unfold Instruction.text
  rw [String.toList_append]
  exact .comment (.comment inside (stops_cons.mpr (by decide))) rfl

/-- The line of an entry is scanned and read. -/
theorem Instruction.holdsLine {entry : Instruction} (writable : entry.IsWritable) :
    HoldsLine .asm Source.instruction behind entry.text.toList entry.content? := by
  cases entry with
  | value number =>
      have digits : Scans .asm ('\n' :: behind) (toString number.toNat).toList _ :=
        .number number.toNat (stops_cons.mpr (by decide))
      exact holdsLine_address behind digits rfl (readsLine_value writable)
  | symbol name =>
      have word : Scans .asm ('\n' :: behind) name.toList _ :=
        .name (isIdentifier_of_isWord writable) (stops_cons.mpr (by decide))
      exact holdsLine_address behind word rfl (readsLine_symbol name)
  | label name => exact holdsLine_label behind writable
  | compute destination computation jump => exact holdsLine_compute behind destination jump writable
  | comment text => exact holdsLine_comment behind writable

end Lines

/-- A written listing is read back without its comments, every entry on its line. -/
theorem parse_text {listing : Listing} (writable : ∀ entry ∈ listing, entry.IsWritable) :
    parse (Listing.text listing) =
      .ok ((located listing).filter fun entry => !entry.item.isComment) := by
  have read : parse (Listing.text listing) = .ok _ :=
    readLines_closedLines fun entry member behind => Instruction.holdsLine behind (writable entry member)
  have content (line : Located Instruction) :
      (line.item.content?.map fun item => (⟨item, line.line⟩ : Located Instruction)) =
        Option.guard (fun entry => !entry.item.isComment) line := by
    unfold Instruction.content? Option.guard
    cases comment : line.item.isComment <;> simp [comment]
  rw [read, funext content, List.filterMap_eq_filter]
  rfl

/-- Comments bind no labels. -/
theorem bindLabels_filter (count : Nat) (table : SymbolTable) (program : List (Located Instruction)) :
    bindLabels count table (program.filter fun entry => !entry.item.isComment) =
      bindLabels count table program := by
  induction program generalizing count table with
  | nil => rfl
  | cons entry rest inductionHypothesis =>
      rcases entry with ⟨item, line⟩
      cases item with
      | comment text => exact inductionHypothesis count table
      | label name =>
          rw [List.filter_cons_of_pos rfl]
          unfold bindLabels
          split
          · split
            · exact inductionHypothesis count _
            · rfl
          · rfl
      | value number => exact inductionHypothesis (count + 1) table
      | symbol name => exact inductionHypothesis (count + 1) table
      | compute destination computation jump => exact inductionHypothesis (count + 1) table

/-- Comments make no words. -/
theorem encodeAll_filter (table : SymbolTable) (image : Array UInt16)
    (program : List (Located Instruction)) :
    encodeAll table image (program.filter fun entry => !entry.item.isComment) =
      encodeAll table image program := by
  induction program generalizing table image with
  | nil => rfl
  | cons entry rest inductionHypothesis =>
      rcases entry with ⟨item, line⟩
      cases item with
      | comment text => exact inductionHypothesis table image
      | label name => exact inductionHypothesis table image
      | value number => exact inductionHypothesis table _
      | symbol name => exact inductionHypothesis _ _
      | compute destination computation jump => exact inductionHypothesis table _

/-- The assembler gives the same image or the same error for a listing and for its text. -/
theorem assembleSource_text {listing : Listing}
    (writable : ∀ entry ∈ listing, entry.IsWritable) :
    assembleSource (Listing.text listing) = assemble listing := by
  unfold assembleSource assemble assembleLocated
  rw [parse_text writable]
  dsimp only
  rw [bindLabels_filter]
  simp only [encodeAll_filter]
  rfl

/-- A listing whose entries can be written down and its text are interchangeable.  Reading the text
gives all entries but the comments, in order and with their places in the listing as lines, so that
the assembler gives the same words for both, or the same error with the same label, line and count. -/
theorem text_interchangeable {listing : Listing} (writable : ∀ entry ∈ listing, entry.IsWritable) :
    parse (Listing.text listing) =
        .ok ((located listing).filter fun entry => !entry.item.isComment) ∧
      assembleSource (Listing.text listing) = assemble listing :=
  ⟨parse_text writable, assembleSource_text writable⟩

/-- A loop that counts a cell down, with a comment in front of it. -/
def countdown : Listing :=
  [.comment "count down", .label "LOOP", .symbol ".n$0", .compute .m (.binary .m .minus .one) none,
    .compute .d (.operand .m) none, .symbol "LOOP", .compute .nowhere (.operand .d) (some .greater),
    .value 24576, .compute { data := true, memory := true } (.unary .not .m) (some .always)]

theorem countdown_interchangeable :
    (∀ entry ∈ countdown, entry.IsWritable) ∧
      parse (Listing.text countdown) = .ok [⟨.label "LOOP", 2⟩, ⟨.symbol ".n$0", 3⟩,
        ⟨.compute .m (.binary .m .minus .one) none, 4⟩, ⟨.compute .d (.operand .m) none, 5⟩,
        ⟨.symbol "LOOP", 6⟩, ⟨.compute .nowhere (.operand .d) (some .greater), 7⟩, ⟨.value 24576, 8⟩,
        ⟨.compute { data := true, memory := true } (.unary .not .m) (some .always), 9⟩] ∧
      assembleSource (Listing.text countdown) = assemble countdown := by
  have writable : ∀ entry ∈ countdown, entry.IsWritable := by decide +kernel
  exact ⟨writable, text_interchangeable writable⟩

end Hack
end HackToolchain
