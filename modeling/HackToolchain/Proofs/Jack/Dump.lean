import Mathlib.Data.Set.List
import HackToolchain.Jack.TokenDump
import HackToolchain.Proofs.Text.Escaped
import HackToolchain.Proofs.Text.Numbered
import HackToolchain.Proofs.Token.Lines
import HackToolchain.Proofs.Token.Truncation

namespace HackToolchain

/-!
# Token dumps are lossless

A dump names a token by a word for its class, and one word stands for all keywords, one for all marks and
one for all comments.  Which of them the token is, is told by its literal.  The literal is escaped, so it
ends with the line that it stands on and can be read back.

The words are not free of blanks, so a line is not cut at its blanks.  It is cut behind the numbers, and
then no word starts like another one.
-/

/-! ## Classes told by literals -/

/-- The keyword that is written as the text, in whatever language it is one. -/
def Keyword.ofText? (text : String) : Option Keyword :=
  (Dialect.jack.keywords ++ Dialect.vm.keywords).find? fun keyword => keyword.text == text

theorem Keyword.ofText?_text (keyword : Keyword) : ofText? keyword.text = some keyword := by
  cases keyword <;> decide

theorem Mark.ofCharacter?_character (mark : Mark) : ofCharacter? mark.character = some mark := by
  cases mark <;> decide

namespace Lexeme

/-- The form of a comment, told by its text. -/
def commentForm : List Char -> CommentKind
  | '/' :: '*' :: body => blockKind body
  | _ => .line

/-- A comment between delimiters ends in the second one. -/
theorem splitComment_closed {seen text spelling rest : List Char}
    (found : splitComment seen text = some (spelling, rest)) :
    ∃ inside, spelling = seen.reverse ++ (inside ++ ['*', '/']) ∧
      text = inside ++ ['*', '/'] ++ rest := by
  fun_induction splitComment seen text with
  | case1 seen behind =>
      cases found
      exact ⟨[], by simp, rfl⟩
  | case2 seen character behind notEnd inductionHypothesis =>
      obtain ⟨inside, kept, lossless⟩ := inductionHypothesis found
      exact ⟨character :: inside, by simp [kept], by rw [lossless]; rfl⟩
  | case3 => cases found

/-- What follows a comment does not matter to its form. -/
theorem blockKind_closed (inside rest : List Char) :
    blockKind (inside ++ ['*', '/'] ++ rest) = blockKind (inside ++ ['*', '/']) := by
  rcases inside with _ | ⟨first, _ | ⟨second, others⟩⟩
  · rfl
  · exact (blockKind_cons_cons first '*' _).trans (blockKind_cons_cons first '*' _).symm
  · exact (blockKind_cons_cons first second _).trans (blockKind_cons_cons first second _).symm

theorem commentForm_slash {rest : List Char} {form : CommentKind}
    (isComment : (slash rest).kind = .comment form) : commentForm (slash rest).literal = form := by
  unfold slash at isComment ⊢
  split at isComment
  · cases isComment
    unfold run verbatim
    dsimp only
    rw [List.takeWhile_cons_of_pos (by decide), List.takeWhile_cons_of_pos (by decide)]
    rfl
  · unfold blockComment at isComment ⊢
    split at isComment
    · rename_i found
      obtain ⟨inside, rfl, rfl⟩ := splitComment_closed found
      cases isComment
      rw [blockKind_closed]
      rfl
    · cases isComment
  · cases isComment

/-- The form of every comment is told by its text. -/
theorem commentForm_ofText {dialect : Dialect} {first : Char} {rest : List Char} {form : CommentKind}
    (isComment : (ofText dialect first rest).kind = .comment form) :
    commentForm (ofText dialect first rest).literal = form := by
  unfold ofText at isComment ⊢
  split at isComment
  · cases isComment
  rename_i notNewline
  split at isComment
  · unfold carriageReturn at isComment
    split at isComment <;> cases isComment
  rename_i notReturn
  split at isComment
  · rename_i isSlash
    rw [if_neg notNewline, if_neg notReturn, if_pos isSlash]
    exact commentForm_slash isComment
  split at isComment
  · unfold string at isComment
    dsimp only at isComment
    split at isComment <;> cases isComment
  split at isComment
  · cases isComment
  split at isComment
  · unfold word verbatim at isComment
    dsimp only at isComment
    split at isComment <;> cases isComment
  split at isComment <;> cases isComment

end Lexeme

/-- A token whose literal tells its class among the keywords, the marks and the comments. -/
structure Token.ToldByLiteral (token : Token) : Prop where
  spells : SpellsClass token.kind token.literal
  form : ∀ form, token.kind = .comment form -> Lexeme.commentForm token.literal.toList = form

theorem Token.toldByLiteral_endOfFile (position : Position) :
    ToldByLiteral ⟨position, .endOfFile, ""⟩ := ⟨True.intro, nofun⟩

theorem Reading.toldByLiteral_of_mem {reading : Reading} {source : String} {token : Token}
    (member : token ∈ (reading.stream source).toList) : token.ToldByLiteral := by
  have forms : ∀ token ∈ (reading.stream source).tokens, ∀ form, token.kind = .comment form ->
      Lexeme.commentForm token.literal.toList = form := by
    refine reading.mem_stream source fun scanner _ => ?_
    unfold Scanner.next
    dsimp only
    split
    · exact .inl rfl
    · right
      intro form isComment
      rw [String.toList_ofList]
      exact Lexeme.commentForm_ofText isComment
  rcases List.mem_append.mp member with inside | atEnd
  · exact ⟨(reading.proper_stream source token inside).spells, forms token inside⟩
  · rw [List.mem_singleton.mp atEnd]
    exact Token.toldByLiteral_endOfFile _

namespace Jack

/-! ## Words for classes -/

/-- The words that a dump has for classes. -/
def categories : List String :=
  ["keyword", "symbol", "comment", "identifier", "integer constant", "string constant", "newline",
    "end of file", "unknown character", "illegal token"]

theorem category_mem (kind : TokenKind) : category kind ∈ categories := by
  cases kind <;> simp [category, categories, TokenKind.text]

/-- A word for a class holds two characters that no other one starts with. -/
theorem take_category {word other : String} (listed : word ∈ categories) (listed' : other ∈ categories) :
    1 < word.toList.length ∧ (word.toList.take 2 = other.toList.take 2 -> word = other) := by
  have all : ∀ word ∈ categories, ∀ other ∈ categories,
      1 < word.toList.length ∧ (word.toList.take 2 = other.toList.take 2 -> word = other) := by decide
  exact all word listed other listed'

/-- The word that a text starts with is told by the text. -/
theorem category_append_inj {kind other : TokenKind} {behind behind' : List Char}
    (same : (category kind).toList ++ behind = (category other).toList ++ behind') :
    category kind = category other ∧ behind = behind' := by
  obtain ⟨long, told⟩ := take_category (category_mem kind) (category_mem other)
  obtain ⟨long', -⟩ := take_category (category_mem other) (category_mem kind)
  have front := congrArg (List.take 2) same
  rw [List.take_append_of_le_length long, List.take_append_of_le_length long'] at front
  have word := told front
  rw [word] at same
  exact ⟨word, List.append_cancel_left same⟩

/-- The classes that have a word of their own. -/
def plainKinds : List TokenKind :=
  [.unknown, .illegal, .endOfFile, .newline, .integer, .string, .identifier]

/-- The class that a word and a literal tell together. -/
def readKind (word literal : String) : Option TokenKind :=
  if word = "keyword" then (Keyword.ofText? literal).map .keyword
  else if word = "symbol" then (literal.toList.head?.bind Mark.ofCharacter?).map .mark
  else if word = "comment" then some (.comment (Lexeme.commentForm literal.toList))
  else plainKinds.find? fun kind => kind.text == word

theorem readKind_category {token : Token} (told : token.ToldByLiteral) :
    readKind (category token.kind) token.literal = some token.kind := by
  obtain ⟨position, kind, literal⟩ := token
  obtain ⟨spells, formed⟩ := told
  cases kind with
  | keyword keyword =>
      cases spells
      exact congrArg (Option.map TokenKind.keyword) keyword.ofText?_text
  | mark mark =>
      cases spells
      change (((String.ofList [mark.character]).toList.head?.bind Mark.ofCharacter?).map _) = _
      rw [String.toList_ofList]
      exact congrArg (Option.map TokenKind.mark) mark.ofCharacter?_character
  | comment form => exact congrArg (fun form => some (TokenKind.comment form)) (formed form rfl)
  | _ => rfl

/-! ## Lines -/

/-- The line of one token, if literals are escaped in some way. -/
def dumpLineWith (escape : List Char -> List Char) (token : Token) : String :=
  toString token.position.line ++ ":" ++ toString token.position.column ++ " " ++
    category token.kind ++ " " ++ String.ofList (escape token.literal.toList)

/-- All tokens of a source, comments and line ends included, up to the end-of-file token. -/
def sourceTokens (source : String) : List Token :=
  (({ dialect := .jack } : Reading).stream source).toList

/-- The lines of all tokens of a source, if literals are escaped in some way. -/
def dumpTokensWith (escape : List Char -> List Char) (source : String) : String :=
  Text.closedLines ((sourceTokens source).map (dumpLineWith escape))

theorem toList_dumpLineWith (escape : List Char -> List Char) (token : Token) :
    (dumpLineWith escape token).toList = (toString token.position.line).toList ++
      ':' :: ((toString token.position.column).toList ++
        ' ' :: ((category token.kind).toList ++ ' ' :: escape token.literal.toList)) := by
  simp [dumpLineWith]

/-- The line of a token is one line of text. -/
theorem isOneLine_dumpLineWith {escape : List Char -> List Char}
    (closed : ∀ text, IsOneLine (escape text)) (token : Token) :
    IsOneLine (dumpLineWith escape token).toList := by
  have word : ∀ word ∈ categories, IsOneLine word.toList := by decide
  simp only [dumpLineWith, String.toList_append, String.toList_ofList]
  exact .append (.append (.append (.append (.append (.append (isOneLine_toString _) (by decide))
    (isOneLine_toString _)) (by decide)) (word _ (category_mem _))) (by decide)) (closed _)

/-- A token is told by its line. -/
theorem dumpLineWith_inj {escape : List Char -> List Char} (injective : Function.Injective escape)
    {token other : Token} (told : token.ToldByLiteral) (told' : other.ToldByLiteral)
    (same : (dumpLineWith escape token).toList = (dumpLineWith escape other).toList) :
    token = other := by
  rw [toList_dumpLineWith, toList_dumpLineWith] at same
  have noColon (number : Nat) : ':' ∉ (toString number).toList := notMem_digits (by decide) number
  have noBlank (number : Nat) : ' ' ∉ (toString number).toList := notMem_digits (by decide) number
  obtain ⟨line, behind⟩ := cons_append_inj (noColon _) (noColon _) same
  obtain ⟨column, behind⟩ := cons_append_inj (noBlank _) (noBlank _) behind
  obtain ⟨word, behind⟩ := category_append_inj behind
  have literal : token.literal = other.literal :=
    String.toList_injective (injective (List.cons.inj behind).2)
  have kind : token.kind = other.kind := by
    have read := readKind_category told
    rw [word, literal, readKind_category told'] at read
    exact (Option.some.inj read).symm
  have sameLine := toString_inj line
  have sameColumn := toString_inj column
  rcases token with ⟨⟨_, _⟩, _, _⟩
  rcases other with ⟨⟨_, _⟩, _, _⟩
  cases sameLine
  cases sameColumn
  cases kind
  cases literal
  rfl

/-! ## Dumps -/

/-- Lines that are closed one by one are split again. -/
theorem splitOn_closedLines {lines : List (List Char)} (closed : ∀ line ∈ lines, '\n' ∉ line) :
    (lines.flatMap fun line => line ++ ['\n']).splitOn '\n' = lines ++ [[]] := by
  induction lines with
  | nil => rfl
  | cons line lines inductionHypothesis =>
      obtain ⟨first, rest⟩ := List.forall_mem_cons.mp closed
      have inside : ∀ character ∈ line, (character == '\n') = false := by
        intro character member
        exact beq_false_of_ne fun same => first (same ▸ member)
      rw [List.flatMap_cons, List.append_assoc, List.singleton_append, List.splitOn,
        List.splitOnP_append_cons_of_forall_mem inside '\n' rfl]
      exact congrArg (line :: ·) (inductionHypothesis rest)

/-- A dump is split at its line feeds into one line per token, and nothing is left behind the last. -/
theorem splitOn_dumpTokensWith {escape : List Char -> List Char}
    (closed : ∀ text, IsOneLine (escape text)) (source : String) :
    (dumpTokensWith escape source).toList.splitOn '\n' =
      (sourceTokens source).map (fun token => (dumpLineWith escape token).toList) ++ [[]] := by
  have lines : ∀ line ∈ (sourceTokens source).map fun token => (dumpLineWith escape token).toList,
      '\n' ∉ line := by
    intro line member
    obtain ⟨token, -, rfl⟩ := List.mem_map.mp member
    exact (isOneLine_dumpLineWith closed token).closed
  rw [← splitOn_closedLines lines, dumpTokensWith, Text.toList_closedLines, List.flatMap_map,
    List.flatMap_map]

/-- Sources with the same dump have the same tokens. -/
theorem dumpTokensWith_inj {escape : List Char -> List Char} (injective : Function.Injective escape)
    (closed : ∀ text, IsOneLine (escape text)) {source other : String}
    (same : dumpTokensWith escape source = dumpTokensWith escape other) :
    sourceTokens source = sourceTokens other := by
  have lines : (sourceTokens source).map (fun token => (dumpLineWith escape token).toList) =
      (sourceTokens other).map fun token => (dumpLineWith escape token).toList := by
    have split := splitOn_dumpTokensWith closed source
    rw [same, splitOn_dumpTokensWith closed other] at split
    exact (List.append_cancel_right split).symm
  have told (source : String) : ∀ token ∈ sourceTokens source, token.ToldByLiteral :=
    fun _ member => Reading.toldByLiteral_of_mem member
  have told' := told other
  specialize told source
  generalize sourceTokens source = tokens at lines told ⊢
  generalize sourceTokens other = others at lines told' ⊢
  lift tokens to List { token : Token // token.ToldByLiteral } using told
  lift others to List { token : Token // token.ToldByLiteral } using told'
  rw [List.map_map, List.map_map] at lines
  refine congrArg _ (List.map_injective_iff.mpr ?_ lines)
  exact fun token other same => Subtype.ext (dumpLineWith_inj injective token.2 other.2 same)

/-- The dump of a source is lossless, whatever further characters are escaped by their code points, and
wherever they are.  It has one closed line for every token up to and including the end of the file, in
their order, and two sources have the same dump just if they have the same tokens at the same places. -/
theorem dumpTokens_lossless (further : Bool -> Char -> Bool) :
    (∀ source, (dumpTokensWith (Text.listedFrom further true) source).toList.splitOn '\n' =
      (sourceTokens source).map
        (fun token => (dumpLineWith (Text.listedFrom further true) token).toList) ++ [[]]) ∧
    (∀ source, ∃ (tokens : List Token) (finish : Position),
      (∀ token ∈ tokens, token.kind ≠ .endOfFile) ∧
        sourceTokens source = tokens ++ [⟨finish, .endOfFile, ""⟩]) ∧
    (∀ source other, dumpTokensWith (Text.listedFrom further true) source =
      dumpTokensWith (Text.listedFrom further true) other ↔ sourceTokens source = sourceTokens other) ∧
    dumpTokens = dumpTokensWith (Text.listedFrom Text.isShownByCodePoint true) := by
  have closed : ∀ text, IsOneLine (Text.listedFrom further true text) :=
    fun text => Text.isOneLine_listedFrom further true text
  have injective : Function.Injective (Text.listedFrom further true) :=
    fun _ _ same => Text.listedFrom_inj same
  refine ⟨splitOn_dumpTokensWith closed, ?ending, fun source other => ⟨?told, ?same⟩, ?standard⟩
  case ending =>
    intro source
    have proper := Reading.proper_stream { dialect := .jack } source
    exact ⟨_, _, fun token member => (proper token member).notEnd, rfl⟩
  case told => exact dumpTokensWith_inj injective closed
  case same =>
    intro same
    unfold dumpTokensWith
    rw [same]
  case standard =>
    funext source
    unfold dumpTokens dumpTokensWith
    refine congrArg Text.closedLines (List.map_congr_left fun token _ => ?_)
    unfold dumpLine dumpLineWith Text.escape
    rw [Text.escapeCharacters_listing]

example : dumpTokens "let // \t" =
    "1:1 keyword let\n1:5 comment // \\t\n1:12 end of file \n" := by decide +kernel

end Jack
end HackToolchain
