import HackToolchain.Proofs.Token.Complaints
import HackToolchain.Proofs.Token.Literals
import HackToolchain.Proofs.Token.Pieces

namespace HackToolchain

/-!
# Texts on one line

Where several texts are put on lines of their own, splitting the whole into lines gives them back if
each of them is one line: it holds no line feed and does not end in a carriage return, which would be
taken for a part of the line end.

A message that shows a token quotes its text, and a quoted text holds neither of both, whatever the
token is.  Names and numbers may be shown as they are, because they end with their line.
-/

/-! ## Texts without line ends -/

/-- A text in which no line ends. -/
def IsOneLine (text : List Char) : Prop :=
  ∀ character ∈ text, Lexeme.breaksLine character = false

instance : DecidablePred IsOneLine := fun text => List.decidableBAll _ text

theorem IsOneLine.append {front behind : List Char} (first : IsOneLine front)
    (second : IsOneLine behind) : IsOneLine (front ++ behind) :=
  List.forall_mem_append.mpr ⟨first, second⟩

theorem IsOneLine.closed {text : List Char} (oneLine : IsOneLine text) : '\n' ∉ text :=
  fun newline => absurd (oneLine _ newline) (by decide)

theorem IsOneLine.ending {text : List Char} (oneLine : IsOneLine text) :
    text.getLast? ≠ some '\r' :=
  fun last => absurd (oneLine _ (List.mem_of_getLast? last)) (by decide)

theorem IsPlain.notBreak {character : Char} (plain : IsPlain character) :
    Lexeme.breaksLine character = false := by
  simp [Lexeme.breaksLine, plain.notNewline, plain.notReturn]

theorem Dialect.IsWord.isOneLine {dialect : Dialect} {word : List Char}
    (isWord : dialect.IsWord word) : IsOneLine word := fun character member =>
  (Dialect.isPlain_of_continuesName (isWord.continues character member)).notBreak

theorem isOneLine_toString (number : Nat) : IsOneLine (toString number).toList :=
  fun _ member => (isPlain_of_isDigit (isDigit_of_mem_toString member)).notBreak

/-- What is kept for a token goes beyond its line only for line ends themselves, for comments and for
what could not be made a token of. -/
theorem Dialect.Keeps.isOneLine {dialect : Dialect} {kind : TokenKind} {literal : List Char}
    (keeps : dialect.Keeps kind literal) (notNewline : kind ≠ .newline)
    (notComment : ∀ form, kind ≠ .comment form) (notIllegal : kind ≠ .illegal) :
    IsOneLine literal := by
  cases kind with
  | newline => exact absurd rfl notNewline
  | comment form => exact absurd rfl (notComment form)
  | illegal => exact absurd rfl notIllegal
  | integer => exact fun character member => (isPlain_of_isDigit (keeps.2 character member)).notBreak
  | identifier => exact Dialect.IsWord.isOneLine keeps
  | keyword word => exact Dialect.IsWord.isOneLine keeps
  | string => exact keeps
  | mark sign =>
      cases keeps
      cases sign <;> decide
  | unknown =>
      obtain ⟨character, rfl, notBreak⟩ := keeps
      exact List.forall_mem_singleton.mpr notBreak
  | endOfFile =>
      cases keeps
      exact nofun

/-! ## Lines of joined texts -/

/-- A text that is shown as one line. -/
structure IsLine (text : List Char) : Prop where
  nonempty : text ≠ []
  closed : '\n' ∉ text
  ending : text.getLast? ≠ some '\r'

theorem IsOneLine.isLine {text : List Char} (oneLine : IsOneLine text) (nonempty : text ≠ []) :
    IsLine text := ⟨nonempty, oneLine.closed, oneLine.ending⟩

/-- What stands in front of a line may hold anything but line feeds. -/
theorem IsLine.append {front behind : List Char} (closed : '\n' ∉ front) (isLine : IsLine behind) :
    IsLine (front ++ behind) where
  nonempty := List.append_ne_nil_of_right_ne_nil front isLine.nonempty
  closed := fun newline => (List.mem_append.mp newline).elim closed isLine.closed
  ending := by
    rw [List.getLast?_append_of_ne_nil front isLine.nonempty]
    exact isLine.ending

namespace Text

/-- Without line feeds, characters are collected. -/
theorem linesFrom_append {text : List Char} (closed : '\n' ∉ text) (current : List Char)
    (before : List (List Char)) (rest : List Char) :
    linesFrom current before (text ++ rest) = linesFrom (text.reverse ++ current) before rest := by
  induction text generalizing current with
  | nil => rfl
  | cons first text inductionHypothesis =>
      rw [List.mem_cons, not_or] at closed
      obtain ⟨different, closed⟩ := closed
      rw [List.cons_append, linesFrom, inductionHypothesis closed, List.reverse_cons,
        List.append_assoc]
      · rfl
      · exact fun same => different same.symm

theorem closeLine_reverse {text : List Char} (ending : text.getLast? ≠ some '\r') :
    closeLine text.reverse = text := by
  unfold closeLine
  split
  · rename_i others reversed
    rw [← List.head?_reverse, reversed] at ending
    exact absurd rfl ending
  · exact List.reverse_reverse text

theorem linesFrom_joined (texts : List (List Char)) (each : ∀ text ∈ texts, IsLine text)
    (before : List (List Char)) :
    linesFrom [] before (['\n'].intercalate texts) = before.reverse ++ texts := by
  induction texts generalizing before with
  | nil => simp [linesFrom]
  | cons first others inductionHypothesis =>
      obtain ⟨isLine, each⟩ := List.forall_mem_cons.mp each
      cases others with
      | nil =>
          have nonempty : ¬first.reverse.isEmpty = true := by simpa using isLine.nonempty
          have collected := linesFrom_append isLine.closed [] before []
          rw [List.append_nil, List.append_nil] at collected
          rw [List.intercalate_singleton, collected, linesFrom, if_neg nonempty, List.reverse_reverse,
            List.reverse_cons]
      | cons second others =>
          rw [List.intercalate_cons_cons, List.append_assoc, linesFrom_append isLine.closed,
            List.append_nil, List.singleton_append, linesFrom, inductionHypothesis each,
            closeLine_reverse isLine.ending, List.reverse_cons, List.append_assoc]
          rfl

/-- Texts that are one line each are the lines of the text that they are joined to. -/
theorem lines_joinLines {texts : List String} (each : ∀ text ∈ texts, IsLine text.toList) :
    lines (joinLines texts) = texts := by
  rw [lines, joinLines, String.toList_intercalate]
  change (linesFrom [] [] (['\n'].intercalate _)).map _ = _
  rw [linesFrom_joined]
  · simp
  · simpa using each

/-- What a line is closed with does not stand in it. -/
theorem closed_linesFrom {current : List Char} (closed : '\n' ∉ current) {before : List (List Char)}
    (finished : ∀ line ∈ before, '\n' ∉ line) (text : List Char) :
    ∀ line ∈ linesFrom current before text, '\n' ∉ line := by
  fun_induction linesFrom current before text with
  | case1 current before =>
      intro line member
      rw [List.mem_reverse] at member
      split at member
      · exact finished line member
      · rcases List.mem_cons.mp member with rfl | earlier
        · rwa [List.mem_reverse]
        · exact finished line earlier
  | case2 current before rest inductionHypothesis =>
      have line : '\n' ∉ closeLine current := by
        unfold closeLine
        split
        · rw [List.mem_reverse]
          exact fun newline => closed (List.mem_cons_of_mem _ newline)
        · rwa [List.mem_reverse]
      exact inductionHypothesis List.not_mem_nil (List.forall_mem_cons.mpr ⟨line, finished⟩)
  | case3 current before character rest notNewline inductionHypothesis =>
      have different : '\n' ≠ character := fun same => notNewline same.symm
      exact inductionHypothesis (List.not_mem_cons_of_ne_of_not_mem different closed) finished

/-- No line of a text holds a line feed. -/
theorem closed_of_mem_lines {text line : String} (member : line ∈ lines text) : '\n' ∉ line.toList := by
  obtain ⟨characters, inside, rfl⟩ := List.mem_map.mp member
  rw [String.toList_ofList]
  exact closed_linesFrom List.not_mem_nil (List.forall_mem_nil _) _ characters inside

/-! ## Quoted texts -/

theorem isOneLine_toDigits (number : Nat) : IsOneLine (Nat.toDigits 16 number) := by
  have digit : ∀ digit < 16, Lexeme.breaksLine digit.digitChar = false := by decide
  induction number using Nat.strongRecOn with
  | ind number inductionHypothesis =>
      rw [Nat.toDigits_eq_if (by decide)]
      split
      · rename_i small
        exact List.forall_mem_singleton.mpr (digit number small)
      · have front := inductionHypothesis (number / 16) (by omega)
        exact front.append (List.forall_mem_singleton.mpr (digit _ (Nat.mod_lt _ (by decide))))

theorem isOneLine_escapedCodePoint (character : Char) : IsOneLine (escapedCodePoint character) :=
  .append (.append (by decide) (isOneLine_toDigits _)) (by decide)

theorem isOneLine_escapeCharacter (style : EscapeStyle) (leads : Bool) (character : Char) :
    IsOneLine (escapeCharacter style leads character) := by
  unfold escapeCharacter
  split
  · decide
  split
  · decide
  split
  · decide
  rename_i notNewline
  split
  · decide
  rename_i notReturn
  have shown : Lexeme.breaksLine character = false := by
    simp [Lexeme.breaksLine, notNewline, notReturn]
  split
  · exact List.forall_mem_cons.mpr ⟨by decide, List.forall_mem_singleton.mpr shown⟩
  split
  · exact isOneLine_escapedCodePoint character
  split
  · exact List.forall_mem_singleton.mpr shown
  · exact isOneLine_escapedCodePoint character

theorem isOneLine_quoted (text : String) : IsOneLine (quoted text).toList := by
  have escaped : IsOneLine (escapeCharacters .string text.toList) := by
    unfold escapeCharacters
    split
    · exact List.forall_mem_nil _
    · refine .append (isOneLine_escapeCharacter _ _ _) fun character member => ?_
      obtain ⟨source, -, inside⟩ := List.mem_flatMap.mp member
      exact isOneLine_escapeCharacter _ _ source character inside
  unfold quoted escape
  simp only [String.toList_append, String.toList_ofList]
  exact .append (.append (by decide) escaped) (by decide)

theorem isOneLine_quotedCharacter (character : Char) :
    IsOneLine (quotedCharacter character).toList := by
  unfold quotedCharacter
  simp only [String.toList_append, String.toList_ofList]
  exact .append (.append (by decide) (isOneLine_escapeCharacter _ _ _)) (by decide)

end Text

/-! ## Wordings -/

theorem TokenKind.isOneLine_text (kind : TokenKind) : IsOneLine kind.text.toList := by
  cases kind with
  | keyword word => cases word <;> decide
  | mark sign => cases sign <;> decide
  | comment form => exact (by decide : IsOneLine "comment".toList)
  | _ => decide

/-- A token is described on one line, whatever it is. -/
theorem Token.isOneLine_describe (token : Token) : IsOneLine token.describe.toList := by
  unfold describe
  split
  · rw [String.toList_append, String.toList_append]
    exact .append (.append token.kind.isOneLine_text (by decide)) (Text.isOneLine_quoted _)
  · exact token.kind.isOneLine_text

namespace Complaint

/-- A complaint that is worded on one line. -/
def IsOneLine (complaint : Complaint) : Prop := HackToolchain.IsOneLine complaint.message.toList

theorem isOneLine_anomaly (found : Token) : (anomaly found).IsOneLine := found.isOneLine_describe

theorem isOneLine_nextIsNot {expected : String}
    (fixed : HackToolchain.IsOneLine expected.toList) (found : Token) :
    (nextIsNot expected found).IsOneLine := by
  unfold IsOneLine message
  simp only [String.toList_append]
  exact .append (.append (.append (.append (by decide) fixed) (by decide)) found.isOneLine_describe)
    (by decide)

theorem isOneLine_currentIsNot {expected : String}
    (fixed : HackToolchain.IsOneLine expected.toList) (found : Token) :
    (currentIsNot expected found).IsOneLine := by
  unfold IsOneLine message
  simp only [String.toList_append]
  exact .append (.append (.append (.append (by decide) fixed) (by decide)) found.isOneLine_describe)
    (by decide)

theorem isOneLine_unexpected (found : Token) : (unexpected found).IsOneLine := by
  unfold IsOneLine message
  rw [String.toList_append]
  exact .append (by decide) found.isOneLine_describe

theorem isOneLine_outOfRange {role literal : String} (fixed : HackToolchain.IsOneLine role.toList)
    (shown : HackToolchain.IsOneLine literal.toList) : (outOfRange role literal).IsOneLine := by
  unfold IsOneLine message
  simp only [String.toList_append]
  exact .append (.append (.append (.append fixed (by decide)) shown) (by decide))
    (isOneLine_toString _)

end Complaint

/-- A diagnostic is shown as one line if its message could be. -/
theorem Diagnostic.isLine_text {diagnostic : Diagnostic}
    (closed : '\n' ∉ diagnostic.message.toList)
    (ending : diagnostic.message.toList.getLast? ≠ some '\r') : IsLine diagnostic.text.toList := by
  have place : IsLine ("parsing error (line " ++ toString diagnostic.position.line ++ ", col " ++
      toString diagnostic.position.column ++ "): ").toList := by
    simp only [String.toList_append]
    refine IsOneLine.isLine ?_ (by simp)
    exact .append (.append (.append (.append (by decide) (isOneLine_toString _)) (by decide))
      (isOneLine_toString _)) (by decide)
  unfold text
  rw [String.toList_append]
  by_cases nonempty : diagnostic.message.toList = []
  · rw [nonempty, List.append_nil]
    exact place
  · exact .append place.closed ⟨nonempty, closed, ending⟩

end HackToolchain
