import HackToolchain.Proofs.Attempts
import HackToolchain.Proofs.Hack.Recovery
import HackToolchain.Proofs.Hack.Spelling
import HackToolchain.Proofs.Token.Literals
import HackToolchain.Proofs.Token.Rows

namespace HackToolchain
namespace Hack

/-!
# The grammar of assembly

A line of assembly is an instruction if it is spelled as one.  The grammar says how, without blanks:
an at sign with a number or a symbol, a label in parentheses, or a computation with a destination in
front and a jump behind.

A number, a symbol or a label is read token by token, so nothing else is on its line.  The fields of a
compute instruction are read from the literals of the tokens instead, and those of strings leave out
the quotes.  So the quotes on such a line are not seen.  Without them the line is spelled as the
grammar says, and no other character of any line is passed over.
-/

/-! ## Spellings of instructions -/

/-- Letters that name the registers of a destination, in any order and each of them once. -/
structure Destination.SpelledAs (destination : Destination) (letters : List Char) : Prop where
  distinct : letters.Nodup
  known : ∀ letter ∈ letters, letter ∈ ['A', 'D', 'M']
  address : destination.address = true ↔ 'A' ∈ letters
  data : destination.data = true ↔ 'D' ∈ letters
  memory : destination.memory = true ↔ 'M' ∈ letters

/-- What stands in front of a computation: nothing, or letters and an equals sign. -/
inductive Destination.InFront : Destination -> List Char -> Prop where
  | nowhere : InFront .nowhere []
  | stores {destination : Destination} {letters : List Char} (nonempty : letters ≠ [])
      (spelled : destination.SpelledAs letters) : InFront destination (letters ++ ['='])

/-- The grammar of a line of assembly without blanks and comments. -/
inductive Instruction.SpelledAs : Instruction -> List Char -> Prop where
  | value {digits : List Char} (nonempty : digits ≠ [])
      (decimal : ∀ digit ∈ digits, digit.isDigit = true) (small : decimalValue digits ≤ maxInteger) :
      SpelledAs (.value (.ofNat (decimalValue digits))) ('@' :: digits)
  | symbol {name : String} (isWord : Dialect.asm.IsWord name.toList) :
      SpelledAs (.symbol name) ('@' :: name.toList)
  | label {name : String} (isWord : Dialect.asm.IsWord name.toList) :
      SpelledAs (.label name) ('(' :: (name.toList ++ [')']))
  | compute {destination : Destination} {computation : Computation} {jump : Option Jump}
      {front : List Char} (inFront : destination.InFront front)
      (listed : computation ∈ Computation.all) :
      SpelledAs (.compute destination computation jump)
        (front ++ (operationText computation jump).toList)

/-- Whether an entry is a compute instruction. -/
def Instruction.IsCompute : Instruction -> Prop
  | .compute _ _ _ => True
  | _ => False

/-- The characters of the grammar. -/
def Instruction.characters : List Char := ['@', '(', ')', '=', ';'] ++ fieldCharacters

theorem Destination.InFront.mem {destination : Destination} {front : List Char} {character : Char}
    (inFront : destination.InFront front) (member : character ∈ front) :
    character ∈ Instruction.characters := by
  cases inFront with
  | nowhere => cases member
  | stores nonempty spelled =>
      rcases List.mem_append.mp member with letter | equals
      · have known : ['A', 'D', 'M'] ⊆ Instruction.characters := by decide
        exact known (spelled.known character letter)
      · rw [List.mem_singleton.mp equals]
        decide

/-- An instruction is spelled with the characters of the grammar and those of names and numbers. -/
theorem Instruction.SpelledAs.mem {instruction : Instruction} {text : List Char} {character : Char}
    (spelled : instruction.SpelledAs text) (member : character ∈ text) :
    Dialect.asm.continuesName character = true ∨ character ∈ characters := by
  cases spelled with
  | value nonempty decimal small =>
      rcases List.mem_cons.mp member with rfl | digit
      · exact .inr (by decide)
      · left
        simp [Dialect.continuesName, Char.isAlphanum, decimal character digit]
  | symbol isWord =>
      rcases List.mem_cons.mp member with rfl | inName
      · exact .inr (by decide)
      · exact .inl (isWord.continues character inName)
  | label isWord =>
      rcases List.mem_cons.mp member with rfl | inside
      · exact .inr (by decide)
      · rcases List.mem_append.mp inside with inName | closing
        · exact .inl (isWord.continues character inName)
        · rw [List.mem_singleton.mp closing]
          exact .inr (by decide)
  | compute inFront listed =>
      rcases List.mem_append.mp member with front | operation
      · exact .inr (inFront.mem front)
      · exact .inr (List.mem_append_right ['@', '(', ')', '='] (mem_operationText operation))

/-- The grammar has no place for quotes. -/
theorem Instruction.SpelledAs.noQuote {instruction : Instruction} {text : List Char}
    (spelled : instruction.SpelledAs text) : '"' ∉ text :=
  fun quote => absurd (spelled.mem quote) (by decide)

/-! ## Fields -/

/-- What was split at a separator is put together with it again. -/
theorem splitAtFirst_sound {separator : Char} {text front behind : String}
    (found : splitAtFirst separator text = some (front, behind)) :
    text.toList = front.toList ++ separator :: behind.toList := by
  unfold splitAtFirst at found
  dsimp only at found
  split at found
  · cases found
  · rename_i stopped rest left
    cases found
    have stops := List.head?_dropWhile_not (fun character => character != separator) text.toList
    rw [left] at stops
    have same : stopped = separator := by simpa using stops
    subst same
    rw [String.toList_ofList, String.toList_ofList, ← left, List.takeWhile_append_dropWhile]

/-- A new letter adds its register. -/
theorem Destination.SpelledAs.append {destination next : Destination} {letters : List Char}
    {letter : Char} (spelled : destination.SpelledAs letters) (known : letter ∈ ['A', 'D', 'M'])
    (fresh : letter ∉ letters) (address : next.address = (destination.address || letter == 'A'))
    (data : next.data = (destination.data || letter == 'D'))
    (memory : next.memory = (destination.memory || letter == 'M')) :
    next.SpelledAs (letters ++ [letter]) where
  distinct := by
    refine List.nodup_append.mpr ⟨spelled.distinct, List.pairwise_singleton _ _, ?_⟩
    intro other member _ last same
    exact fresh (List.mem_singleton.mp last ▸ same ▸ member)
  known := List.forall_mem_append.mpr ⟨spelled.known, List.forall_mem_singleton.mpr known⟩
  address := by
    rw [address, Bool.or_eq_true, spelled.address, beq_iff_eq, List.mem_append, List.mem_singleton,
      eq_comm]
  data := by
    rw [data, Bool.or_eq_true, spelled.data, beq_iff_eq, List.mem_append, List.mem_singleton,
      eq_comm]
  memory := by
    rw [memory, Bool.or_eq_true, spelled.memory, beq_iff_eq, List.mem_append, List.mem_singleton,
      eq_comm]

theorem Destination.SpelledAs.include? {destination next : Destination} {letters : List Char}
    {letter : Char} (spelled : destination.SpelledAs letters)
    (included : destination.include? letter = some next) : next.SpelledAs (letters ++ [letter]) := by
  unfold Destination.include? at included
  split at included
  · rename_i free
    obtain ⟨rfl, free⟩ := free
    cases included
    refine spelled.append (by decide) (fun member => ?_) (by simp) (by simp) (by simp)
    rw [spelled.address.mpr member] at free
    cases free
  split at included
  · rename_i free
    obtain ⟨rfl, free⟩ := free
    cases included
    refine spelled.append (by decide) (fun member => ?_) (by simp) (by simp) (by simp)
    rw [spelled.data.mpr member] at free
    cases free
  split at included
  · rename_i free
    obtain ⟨rfl, free⟩ := free
    cases included
    refine spelled.append (by decide) (fun member => ?_) (by simp) (by simp) (by simp)
    rw [spelled.memory.mpr member] at free
    cases free
  · cases included

/-- Letters are read one by one, and each of them must be new. -/
theorem Destination.spelledAs_of_foldlM {letters : List Char} {destination : Destination}
    (read : letters.foldlM include? nowhere = some destination) : destination.SpelledAs letters := by
  induction letters using List.reverseRecOn generalizing destination with
  | nil =>
      cases read
      exact ⟨List.nodup_nil, nofun, by decide, by decide, by decide⟩
  | append_singleton front last inductionHypothesis =>
      rw [List.foldlM_append, Option.bind_eq_bind, Option.bind_eq_some_iff] at read
      obtain ⟨before, first, added⟩ := read
      rw [List.foldlM_cons, Option.bind_eq_bind, Option.bind_eq_some_iff] at added
      obtain ⟨next, included, same⟩ := added
      cases same
      exact (inductionHypothesis first).include? included

theorem Destination.spelledAs_of_ofText {text : String} {destination : Destination}
    (read : Destination.ofText text = .ok destination) :
    text.toList ≠ [] ∧ destination.SpelledAs text.toList := by
  unfold Destination.ofText at read
  split at read
  · cases read
  · rename_i nonempty
    split at read
    · rename_i found
      cases read
      refine ⟨?_, spelledAs_of_foldlM found⟩
      simpa using nonempty
    · cases read

theorem Computation.text_of_ofText {text : String} {computation : Computation}
    (read : Computation.ofText text = .ok computation) :
    computation ∈ all ∧ computation.text = text := by
  unfold Computation.ofText at read
  split at read
  · rename_i found
    cases read
    have same := List.find?_some found
    exact ⟨List.mem_of_find?_eq_some found, beq_iff_eq.mp same⟩
  · cases read

theorem Jump.text_of_ofText {text : String} {jump : Jump} (read : Jump.ofText text = .ok jump) :
    jump.text = text := by
  unfold Jump.ofText at read
  split at read
  · rename_i found
    cases read
    have same := List.find?_some found
    exact beq_iff_eq.mp same
  · cases read

theorem spelledAs_of_operation {destination : Destination} {front : List Char} {text : String}
    {instruction : Instruction} (inFront : destination.InFront front)
    (read : operationOfText destination text = .ok instruction) :
    instruction.SpelledAs (front ++ text.toList) ∧ instruction.IsCompute := by
  unfold operationOfText at read
  cases split : splitAtFirst ';' text with
  | none =>
      rw [split] at read
      obtain ⟨_, ⟨⟩, read⟩ := bind_eq_ok.mp read
      obtain ⟨computation, found, made⟩ := bind_eq_ok.mp read
      cases made
      obtain ⟨listed, rfl⟩ := Computation.text_of_ofText found
      have whole : operationText computation none = computation.text := String.append_empty
      exact ⟨whole ▸ .compute inFront listed, True.intro⟩
  | some parts =>
      rw [split] at read
      obtain ⟨jump, jumps, read⟩ := bind_eq_ok.mp read
      obtain ⟨_, ⟨⟩, read⟩ := bind_eq_ok.mp read
      obtain ⟨computation, found, made⟩ := bind_eq_ok.mp read
      cases made
      obtain ⟨listed, spelled⟩ := Computation.text_of_ofText found
      have whole : (operationText computation (some jump)).toList = text.toList := by
        rw [splitAtFirst_sound split, ← spelled, ← Jump.text_of_ofText jumps]
        simp [operationText]
      exact ⟨whole ▸ .compute inFront listed, True.intro⟩

/-- The fields of a compute instruction are read from a text that is spelled as one. -/
theorem spelledAs_of_computeOfText {text : String} {instruction : Instruction}
    (read : computeOfText text = .ok instruction) :
    instruction.SpelledAs text.toList ∧ instruction.IsCompute := by
  unfold computeOfText at read
  cases split : splitAtFirst '=' text with
  | none =>
      rw [split] at read
      exact spelledAs_of_operation .nowhere read
  | some parts =>
      rw [split] at read
      obtain ⟨destination, found, read⟩ := bind_eq_ok.mp read
      obtain ⟨nonempty, spelled⟩ := Destination.spelledAs_of_ofText found
      have operation := spelledAs_of_operation (.stores nonempty spelled) read
      rw [splitAtFirst_sound split]
      simpa using operation

/-! ## Lines -/

/-- The literals of a line's tokens spell an instruction.  Unless it is a compute instruction, all of
them are kept as they stand in the source. -/
structure Instruction.ReadFrom (instruction : Instruction) (tokens : List Token) : Prop where
  spelled : instruction.SpelledAs (literals tokens)
  verbatim : instruction.IsCompute ∨ ∀ token ∈ tokens, token.kind ≠ .string ∧ token.kind ≠ .illegal

section Lines

open Production

variable {cursor last : Cursor} {first ending : Token} {rest : List Token} {instruction : Instruction}

/-- A lookahead that does not end the line is the line's next token. -/
theorem next_of_standsOn (stands : cursor.StandsOn ⟨first :: rest, ending⟩)
    (wellFormed : TokenLine.WellFormed ⟨first :: rest, ending⟩)
    (open_ : cursor.lookahead.kind.endsLine = false) :
    ∃ others, rest = cursor.lookahead :: others ∧
      TokenLine.WellFormed ⟨cursor.lookahead :: others, ending⟩ := by
  rcases rest with _ | ⟨second, others⟩
  · have ends : ending.kind.endsLine = true := wellFormed.ends
    rw [stands.lookahead, List.headD_nil, ends] at open_
    cases open_
  · refine ⟨others, by rw [stands.lookahead]; rfl, ?_⟩
    rw [stands.lookahead]
    exact wellFormed.drop (Nat.one_lt_succ_succ _)

/-- A lookahead that ends the line stands behind the line's last token. -/
theorem last_of_standsOn (stands : cursor.StandsOn ⟨first :: rest, ending⟩)
    (wellFormed : TokenLine.WellFormed ⟨first :: rest, ending⟩)
    (ends : cursor.lookahead.kind.endsLine = true) : rest = [] := by
  rcases rest with _ | ⟨second, others⟩
  · rfl
  · have open_ := wellFormed.inside second (List.mem_cons_of_mem _ List.mem_cons_self)
    rw [stands.lookahead, List.headD_cons, open_] at ends
    cases ends

theorem address_eq_some (read : Source.address cursor = (some instruction, last)) :
    cursor.advance = last ∧
      (cursor.lookahead.kind = .integer ∧ (∃ value, cursor.lookahead.value? = some value ∧
          instruction = .value value) ∨
        cursor.lookahead.kind = .identifier ∧ instruction = .symbol cursor.lookahead.literal) := by
  unfold Source.address at read
  obtain ⟨token, between, looks, read⟩ := andThen_eq_some.mp read
  obtain ⟨rfl, rfl⟩ := lookahead_eq_some.mp looks
  cases kind : cursor.lookahead.kind with
  | integer =>
      simp only [kind] at read
      obtain ⟨_, moved, moves, read⟩ := andThen_eq_some.mp read
      cases advance_eq_some.mp moves
      cases found : cursor.lookahead.value? with
      | some value =>
          rw [found] at read
          obtain ⟨rfl, rfl⟩ := pure_eq_some.mp read
          exact ⟨rfl, .inl ⟨rfl, value, rfl, rfl⟩⟩
      | none =>
          rw [found] at read
          cases read
  | identifier =>
      simp only [kind] at read
      obtain ⟨_, moved, moves, read⟩ := andThen_eq_some.mp read
      cases advance_eq_some.mp moves
      obtain ⟨rfl, rfl⟩ := pure_eq_some.mp read
      exact ⟨rfl, .inr ⟨rfl, rfl⟩⟩
  | _ =>
      simp only [kind] at read
      cases read

theorem label_eq_some (read : Source.label cursor = (some instruction, last)) :
    cursor.lookahead.kind = .identifier ∧
      cursor.advance.lookahead.kind = .mark .rightParen ∧ cursor.advance.advance = last ∧
      instruction = .label cursor.lookahead.literal := by
  unfold Source.label at read
  obtain ⟨name, named, names, read⟩ := andThen_eq_some.mp read
  obtain ⟨kind, rfl, rfl⟩ := expectLiteral_eq_some.mp names
  obtain ⟨_, closed, closes, read⟩ := andThen_eq_some.mp read
  obtain ⟨closing, rfl⟩ := expect_eq_some.mp closes
  obtain ⟨rfl, rfl⟩ := pure_eq_some.mp read
  exact ⟨kind, closing, rfl, rfl⟩

/-- The first token of a line tells what is read from it. -/
theorem instruction_eq_some (read : Source.instruction cursor = (some instruction, last)) :
    cursor.current.kind = .mark .at ∧ Source.address cursor = (some instruction, last) ∨
      cursor.current.kind = .mark .leftParen ∧ Source.label cursor = (some instruction, last) ∨
      Source.compute cursor = (some instruction, last) := by
  obtain ⟨token, between, here, read⟩ := andThen_eq_some.mp read
  obtain ⟨rfl, rfl⟩ := current_eq_some.mp here
  cases kind : cursor.current.kind with
  | mark mark =>
      simp only [kind] at read
      cases mark with
      | «at» => exact .inl ⟨rfl, read⟩
      | leftParen => exact .inr (.inl ⟨rfl, read⟩)
      | minus => exact .inr (.inr read)
      | _ => cases read
  | identifier | integer | unknown =>
      simp only [kind] at read
      exact .inr (.inr read)
  | _ =>
      simp only [kind] at read
      cases read

theorem readFrom_address (stands : cursor.StandsOn ⟨first :: rest, ending⟩)
    (wellFormed : TokenLine.WellFormed ⟨first :: rest, ending⟩)
    (kept : ∀ token ∈ first :: rest, Dialect.asm.Keeps token.kind token.literal.toList)
    (kind : first.kind = .mark .at) (read : Source.address cursor = (some instruction, last))
    (ends : last.lookahead.kind.endsLine = true) : instruction.ReadFrom (first :: rest) := by
  obtain ⟨rfl, cases⟩ := address_eq_some read
  have open_ : cursor.lookahead.kind.endsLine = false := by
    rcases cases with ⟨isNumber, -⟩ | ⟨isName, -⟩
    · rw [isNumber]
      rfl
    · rw [isName]
      rfl
  obtain ⟨others, rfl, behind⟩ := next_of_standsOn stands wellFormed open_
  cases last_of_standsOn stands.advance behind ends
  have atSign : first.literal.toList = ['@'] := by
    have keeps := kept first List.mem_cons_self
    rwa [kind] at keeps
  have keeps := kept cursor.lookahead (List.mem_cons_of_mem _ List.mem_cons_self)
  have text : literals [first, cursor.lookahead] = '@' :: cursor.lookahead.literal.toList := by
    simp [literals, atSign]
  rcases cases with ⟨isNumber, value, denotes, rfl⟩ | ⟨isName, rfl⟩
  · rw [isNumber] at keeps
    obtain ⟨-, same, small⟩ := Token.value?_eq_some.mp denotes
    refine ⟨?_, .inr ?_⟩
    · have spelled := Instruction.SpelledAs.value keeps.1 keeps.2 (same ▸ small)
      rwa [same, UInt16.ofNat_toNat, ← text] at spelled
    · simp [kind, isNumber]
  · rw [isName] at keeps
    refine ⟨?_, .inr ?_⟩
    · rw [text]
      exact .symbol keeps
    · simp [kind, isName]

theorem readFrom_label (stands : cursor.StandsOn ⟨first :: rest, ending⟩)
    (wellFormed : TokenLine.WellFormed ⟨first :: rest, ending⟩)
    (kept : ∀ token ∈ first :: rest, Dialect.asm.Keeps token.kind token.literal.toList)
    (kind : first.kind = .mark .leftParen) (read : Source.label cursor = (some instruction, last))
    (ends : last.lookahead.kind.endsLine = true) : instruction.ReadFrom (first :: rest) := by
  obtain ⟨isName, isClosing, rfl, rfl⟩ := label_eq_some read
  obtain ⟨others, rfl, behind⟩ := next_of_standsOn stands wellFormed (by rw [isName]; rfl)
  obtain ⟨others, rfl, further⟩ := next_of_standsOn stands.advance behind (by rw [isClosing]; rfl)
  cases last_of_standsOn stands.advance.advance further ends
  have opening : first.literal.toList = ['('] := by
    have keeps := kept first List.mem_cons_self
    rwa [kind] at keeps
  have isWord : Dialect.asm.IsWord cursor.lookahead.literal.toList := by
    have keeps := kept cursor.lookahead (List.mem_cons_of_mem _ List.mem_cons_self)
    rwa [isName] at keeps
  have closing : cursor.advance.lookahead.literal.toList = [')'] := by
    have keeps := kept cursor.advance.lookahead (by simp)
    rwa [isClosing] at keeps
  refine ⟨?_, .inr ?_⟩
  · have text : literals [first, cursor.lookahead, cursor.advance.lookahead] =
        '(' :: (cursor.lookahead.literal.toList ++ [')']) := by
      simp [literals, opening, closing]
    rw [text]
    exact .label isWord
  · simp [kind, isName, isClosing]

/-- A compute instruction takes all tokens of its line, and is complained of where they begin. -/
theorem compute_of_standsOn (stands : cursor.StandsOn ⟨first :: rest, ending⟩)
    (wellFormed : TokenLine.WellFormed ⟨first :: rest, ending⟩) :
    Source.compute cursor =
      match computeOfText (String.ofList (literals (first :: rest))) with
      | .ok instruction => (some instruction, cursor.advanceBy rest.length)
      | .error error => (none, (cursor.advanceBy rest.length).complain first.position
          (.remark error.message)) := by
  unfold Source.compute
  cases fields : computeOfText (String.ofList (literals (first :: rest))) with
  | ok instruction =>
      rw [Source.restOfLine_of_standsOn wellFormed stands]
      dsimp only
      rw [fields]
  | error error =>
      rw [Source.restOfLine_of_standsOn wellFormed stands]
      dsimp only
      rw [fields, stands.current]

theorem readFrom_compute (stands : cursor.StandsOn ⟨first :: rest, ending⟩)
    (wellFormed : TokenLine.WellFormed ⟨first :: rest, ending⟩)
    (read : Source.compute cursor = (some instruction, last)) :
    instruction.ReadFrom (first :: rest) := by
  rw [compute_of_standsOn stands wellFormed] at read
  split at read
  · rename_i found
    cases read
    obtain ⟨spelled, isCompute⟩ := spelledAs_of_computeOfText found
    rw [String.toList_ofList] at spelled
    exact ⟨spelled, .inl isCompute⟩
  · cases read

/-- What is read from a line is spelled by the literals of its tokens. -/
theorem readFrom_of_verdict {line : TokenLine} (wellFormed : line.WellFormed)
    (kept : ∀ token ∈ line.tokens, Dialect.asm.Keeps token.kind token.literal.toList)
    {entry : Located Instruction} (accepted : Source.instruction.verdict line = .ok entry) :
    entry.item.ReadFrom line.tokens ∧ entry.line = line.number := by
  obtain ⟨⟨last, read, ends⟩, number⟩ := verdict_eq_ok_iff.mp accepted
  refine ⟨?_, number⟩
  rcases line with ⟨_ | ⟨first, rest⟩, ending⟩
  · exact absurd rfl wellFormed.nonempty
  · have stands := Cursor.standsOn_alone ⟨first :: rest, ending⟩
    have current := stands.current
    rcases instruction_eq_some read with ⟨kind, read⟩ | ⟨kind, read⟩ | read
    · exact readFrom_address stands wellFormed kept (current ▸ kind) read ends
    · exact readFrom_label stands wellFormed kept (current ▸ kind) read ends
    · exact readFrom_compute stands wellFormed read

end Lines

/-! ## Accepted sources -/

/-- A row of a source is spelled as an instruction, or it is spelled so but for quotes. -/
inductive Instruction.StandsOn (instruction : Instruction) (row : List Piece) : Prop where
  | exactly (spelled : instruction.SpelledAs (Piece.rowText row))
  | butForQuotes (quoted : '"' ∈ Piece.rowText row) (isCompute : instruction.IsCompute)
      (spelled : instruction.SpelledAs ((Piece.rowText row).filter (· ≠ '"')))

theorem Instruction.ReadFrom.standsOn {instruction : Instruction} {row : List Piece}
    (read : instruction.ReadFrom (row.map Piece.token))
    (inLine : ∀ piece ∈ row, piece.token.kind.endsLine = false) : instruction.StandsOn row := by
  have text : literals (row.map Piece.token) =
      row.flatMap fun piece => piece.token.literal.toList := List.flatMap_map ..
  have spelled := read.spelled
  have noQuote := spelled.noQuote
  rw [text] at spelled noQuote
  have without : (Piece.rowText row).filter (· ≠ '"') =
      row.flatMap fun piece => piece.token.literal.toList := by
    rw [Piece.rowText, List.filter_flatMap]
    apply List.flatMap_congr
    intro piece member
    apply Piece.filter_spelling _ (inLine piece member)
    exact fun quote => noQuote (List.mem_flatMap.mpr ⟨piece, member, quote⟩)
  by_cases quoted : '"' ∈ Piece.rowText row
  · rcases read.verbatim with isCompute | verbatim
    · exact .butForQuotes quoted isCompute (without ▸ spelled)
    · refine absurd ?_ noQuote
      obtain ⟨piece, member, quote⟩ := List.mem_flatMap.mp quoted
      obtain ⟨notString, notIllegal⟩ := verbatim _ (List.mem_map_of_mem member)
      rw [Piece.spelling_eq_literal (inLine piece member) notString notIllegal] at quote
      exact List.mem_flatMap.mpr ⟨piece, member, quote⟩
  · have same : (Piece.rowText row).filter (· ≠ '"') = Piece.rowText row := by
      rw [List.filter_eq_self]
      exact fun character member => decide_eq_true fun quote => quoted (quote ▸ member)
    rw [same] at without
    exact .exactly (without ▸ spelled)

/-- Take a source of assembly that is read.  It is cut into pieces, those of its tokens, with blanks in
front of them and at the end.  The rows that hold more than comments have the instructions that are
answered, one each and in order, and every row is spelled as its instruction.  Only quotes are passed
over, and only on the row of a compute instruction. -/
theorem accepted_rows_are_spelled {source : String} {program : List (Located Instruction)}
    (accepted : parse source = .ok program) :
    ∃ (pieces : List Piece) (blanks : List Char),
      source.toList = Piece.texts pieces ++ blanks ∧
      (∀ character ∈ blanks, Scanner.isBlank character = true) ∧
      pieces.map Piece.token =
        (Scanner.ofSource .asm Scanner.defaultTabWidth source).stream.tokens ∧
      List.Forall₂ (fun row entry => entry.item.StandsOn row ∧
          row.head?.map (fun piece => piece.token.position.line) = some entry.line)
        (Piece.filledRows pieces) program := by
  obtain ⟨pieces, blanks, covers⟩ :=
    (Scanner.ofSource .asm Scanner.defaultTabWidth source).exists_covers
  refine ⟨pieces, blanks, covers.text, covers.blank, covers.tokens.symm, ?_⟩
  have judged : List.Forall₂ (fun line entry => Source.instruction.verdict line = .ok entry)
      (sourceLines .asm source) program := by
    unfold parse at accepted
    rwa [readLines_eq_ok_iff .asm source Source.keepsToLine_instruction, ← List.forall₂_eq_eq_eq,
      List.forall₂_map_left_iff, List.forall₂_map_right_iff] at accepted
  have known : ∀ line ∈ sourceLines .asm source, line.WellFormed ∧
      ∀ token ∈ line.tokens, Dialect.asm.Keeps token.kind token.literal.toList := by
    intro line member
    refine ⟨wellFormed_of_mem_sourceLines member, fun token inLine => ?_⟩
    exact Reading.keeps_of_mem (mem_of_mem_sourceLines member inLine)
  have spelled : List.Forall₂ (fun tokens entry => (∀ token ∈ tokens, token.kind.endsLine = false) ∧
      entry.item.ReadFrom tokens ∧
      tokens.head?.map (fun token => token.position.line) = some entry.line)
      ((sourceLines .asm source).map TokenLine.tokens) program := by
    rw [List.forall₂_map_left_iff]
    refine ((List.forall₂_and_left _ _).mpr ⟨known, judged⟩).imp fun line entry both => ?_
    obtain ⟨⟨wellFormed, kept⟩, accepted⟩ := both
    obtain ⟨read, number⟩ := readFrom_of_verdict wellFormed kept accepted
    refine ⟨wellFormed.inside, read, ?_⟩
    rcases line with ⟨_ | ⟨first, rest⟩, ending⟩
    · exact absurd rfl wellFormed.nonempty
    · exact congrArg some number.symm
  rw [Piece.sourceLines_rows covers.tokens, List.forall₂_map_left_iff] at spelled
  refine spelled.imp fun row entry known => ?_
  obtain ⟨inLine, read, number⟩ := known
  refine ⟨read.standsOn fun piece member => inLine _ (List.mem_map_of_mem member), ?_⟩
  rw [List.head?_map, Option.map_map] at number
  exact number

/-- A comment and the blanks in an instruction are passed over. -/
theorem rows_with_blanks_are_spelled :
    let source := "@7 // seven\nAM = M - 1;JNE\n"
    let program : List (Located Instruction) :=
      [⟨.value 7, 1⟩, ⟨.compute ⟨true, false, true⟩ (.binary .m .minus .one) (some .notEqual), 2⟩]
    parse source = .ok program ∧
    ∃ (pieces : List Piece) (blanks : List Char),
      source.toList = Piece.texts pieces ++ blanks ∧
      (∀ character ∈ blanks, Scanner.isBlank character = true) ∧
      pieces.map Piece.token =
        (Scanner.ofSource .asm Scanner.defaultTabWidth source).stream.tokens ∧
      List.Forall₂ (fun row entry => entry.item.StandsOn row ∧
          row.head?.map (fun piece => piece.token.position.line) = some entry.line)
        (Piece.filledRows pieces) program := by
  intro source program
  have accepted : parse source = .ok program := by decide +kernel
  exact ⟨accepted, accepted_rows_are_spelled accepted⟩

/-- A computation in quotes is read like one without, though no instruction is spelled with them. -/
theorem quoted_computation_is_read :
    parse "D=\"A\"" = .ok [⟨.compute .d (.operand .a) none, 1⟩] ∧
      ∀ instruction : Instruction, ¬instruction.SpelledAs "D=\"A\"".toList :=
  ⟨by decide +kernel, fun _ spelled => spelled.noQuote (by decide)⟩

end Hack
end HackToolchain
