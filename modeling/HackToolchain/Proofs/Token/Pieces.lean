import Mathlib.Data.List.TakeWhile
import HackToolchain.Proofs.Text.Numbered
import HackToolchain.Proofs.Token.Names
import HackToolchain.Proofs.Token.Scanning

namespace HackToolchain

/-!
# Words, numbers, marks and comments

What a source spells is put together from a few kinds of pieces.  Each of them is scanned into the
one token that it was written for, provided that it does not run on into the text behind it.
-/

/-- What passes the test ends in front of the list. -/
def Stops (test : α -> Bool) (behind : List α) : Prop :=
  ∀ first ∈ behind.head?, test first = false

theorem stops_cons {test : α -> Bool} {first : α} {rest : List α} :
    Stops test (first :: rest) ↔ test first = false := by
  unfold Stops
  simp

theorem takeWhile_of_stops {test : α -> Bool} {behind : List α} (stops : Stops test behind)
    (text : List α) : (text ++ behind).takeWhile test = text.takeWhile test := by
  induction text with
  | nil =>
      cases behind with
      | nil => rfl
      | cons first rest => exact List.takeWhile_cons_of_neg (by simp [stops_cons.mp stops])
  | cons first rest inductionHypothesis =>
      rw [List.cons_append, List.takeWhile_cons, List.takeWhile_cons, inductionHypothesis]

theorem dropWhile_of_stops {test : α -> Bool} {behind : List α} (stops : Stops test behind)
    (text : List α) : (text ++ behind).dropWhile test = text.dropWhile test ++ behind := by
  induction text with
  | nil =>
      cases behind with
      | nil => rfl
      | cons first rest => exact List.dropWhile_cons_of_neg (by simp [stops_cons.mp stops])
  | cons first rest inductionHypothesis =>
      rw [List.cons_append, List.dropWhile_cons, List.dropWhile_cons, inductionHypothesis]
      split <;> rfl

/-! ## Characters -/

theorem notDigit_of_isAlpha {character : Char} (isAlpha : character.isAlpha = true) :
    character.isDigit = false := by
  have letter : (decide (65 ≤ character.val ∧ character.val ≤ 90) ||
      (decide (97 ≤ character.val) && decide (character.val ≤ 122))) = true := isAlpha
  have spelled : character.isDigit =
      (decide (48 ≤ character.val) && decide (character.val ≤ 57)) := rfl
  simp [spelled, UInt32.le_iff_toNat_le] at letter ⊢
  omega

theorem Dialect.notDigit_of_startsName {dialect : Dialect} {first : Char}
    (starts : dialect.startsName first = true) : first.isDigit = false := by
  simp only [startsName, Bool.or_eq_true, beq_iff_eq, Bool.and_eq_true, List.contains_iff_mem]
    at starts
  rcases starts with (isAlpha | rfl) | ⟨rfl, mark⟩
  · exact notDigit_of_isAlpha isAlpha
  · decide
  · exact Bool.eq_false_iff.mpr (List.any_eq_false.mp (by decide) first mark)

/-- The characters that are blank or start a comment, a string or a new line. -/
def specialCharacters : List Char := [' ', '\t', '\x0b', '\x0c', '\n', '\r', '/', '"']

/-- Where a character stands that is neither blank nor starts a comment, a string or a new line, the
scanner looks for a number, a name or a mark. -/
structure IsPlain (character : Char) : Prop where
  notBlank : Scanner.isBlank character = false
  notNewline : character ≠ '\n'
  notReturn : character ≠ '\r'
  notSlash : character ≠ '/'
  notQuote : character ≠ '"'

theorem isPlain_of_notMem {character : Char} (notMem : character ∉ specialCharacters) :
    IsPlain character := by
  simp only [specialCharacters, List.mem_cons, not_or, List.not_mem_nil, not_false_eq_true, and_true] at notMem
  obtain ⟨space, tab, vertical, feed, newline, carriage, slash, quote⟩ := notMem
  refine ⟨?_, newline, carriage, slash, quote⟩
  simp [Scanner.isBlank, space, tab, vertical, feed]

theorem isPlain_of_test {test : Char -> Bool} {character : Char} (passes : test character = true)
    (fails : specialCharacters.any test = false) : IsPlain character :=
  isPlain_of_notMem fun member => List.any_eq_false.mp fails character member passes

theorem Dialect.isPlain_of_startsName {dialect : Dialect} {first : Char}
    (starts : dialect.startsName first = true) : IsPlain first :=
  isPlain_of_test starts (by cases dialect <;> decide)

theorem Dialect.isPlain_of_continuesName {dialect : Dialect} {character : Char}
    (continues : dialect.continuesName character = true) : IsPlain character :=
  isPlain_of_test continues (by cases dialect <;> decide)

theorem isPlain_of_isDigit {character : Char} (digit : character.isDigit = true) :
    IsPlain character :=
  isPlain_of_test digit (by decide)

theorem Dialect.continuesName_digit {dialect : Dialect} {number : Nat} :
    ∀ character ∈ (toString number).toList, dialect.continuesName character = true := by
  intro character member
  simp [continuesName, Char.isAlphanum, isDigit_of_mem_toString member]

/-! ## Lexemes -/

namespace Lexeme

theorem ofText_plain {dialect : Dialect} {first : Char} (plain : IsPlain first) (rest : List Char) :
    ofText dialect first rest =
      if first.isDigit then run .integer Char.isDigit (first :: rest)
      else if dialect.startsName first then word dialect first rest
      else match Mark.ofCharacter? first with
        | some mark => verbatim (.mark mark) [first] rest
        | none => verbatim .unknown [first] rest := by
  exact (if_neg plain.notNewline).trans ((if_neg plain.notReturn).trans
    ((if_neg plain.notSlash).trans (if_neg plain.notQuote)))

theorem ofText_word {dialect : Dialect} {first : Char} (starts : dialect.startsName first = true)
    (rest : List Char) : ofText dialect first rest = word dialect first rest := by
  rw [ofText_plain (dialect.isPlain_of_startsName starts),
    if_neg (by simp [dialect.notDigit_of_startsName starts]), if_pos starts]

/-- A plain character and those that its token goes on with are kept as they are spelled.  No token of
this kind goes beyond its line. -/
theorem ofText_verbatim (dialect : Dialect) {first : Char} (plain : IsPlain first) :
    ∃ test : Char -> Bool, test '\n' = false ∧ ∀ rest, ∃ kind : TokenKind, kind.endsLine = false ∧
      ofText dialect first rest =
        verbatim kind (first :: rest.takeWhile test) (rest.dropWhile test) := by
  by_cases digit : first.isDigit = true
  · refine ⟨Char.isDigit, by decide, fun rest => ⟨.integer, rfl, ?_⟩⟩
    rw [ofText_plain plain, if_pos digit]
    unfold run
    rw [List.takeWhile_cons_of_pos digit, List.dropWhile_cons_of_pos digit]
  · by_cases starts : dialect.startsName first = true
    · refine ⟨dialect.continuesName, by cases dialect <;> decide, fun rest => ?_⟩
      rw [ofText_word starts]
      refine ⟨_, ?_, rfl⟩
      split <;> rfl
    · refine ⟨fun _ => false, rfl, fun rest => ?_⟩
      have nothing : rest.takeWhile (fun _ => false) = [] := by cases rest <;> rfl
      have everything : rest.dropWhile (fun _ => false) = rest := by cases rest <;> rfl
      rw [ofText_plain plain, if_neg digit, if_neg starts, nothing, everything]
      split
      · exact ⟨_, rfl, rfl⟩
      · exact ⟨_, rfl, rfl⟩

end Lexeme

/-! ## Pieces -/

/-- The token of a number. -/
def Token.ofNumber (number : Nat) : Token := ⟨.start, .integer, toString number⟩

theorem decimalValue_toString (number : Nat) : decimalValue (toString number).toList = number := by
  have sameStep : decimalValue (toString number).toList =
      Nat.ofDigitChars 10 (toString number).toList 0 := by
    rw [Nat.ofDigitChars_eq_foldl]
    unfold decimalValue
    simp only [Nat.mul_comm 10]
  rw [sameStep, Nat.toString_eq_repr, Nat.toList_repr, Nat.ofDigitChars_ten_toDigits]

theorem Token.standsFor_ofNumber {token : Token} {number : Nat} :
    token.StandsFor (.ofNumber number) ↔
      token.kind = .integer ∧ decimalValue token.literal.toList = number := by
  have written : decimalValue (ofNumber number).literal.toList = number := decimalValue_toString number
  constructor
  · exact fun stands => ⟨stands.kind, (stands.value rfl).trans written⟩
  · exact fun same => ⟨same.1, nofun, fun _ => same.2.trans written.symm⟩

/-- A word that was written as a number has its value if it is in range. -/
theorem Token.value?_of_unplaced {token : Token} {word : UInt16}
    (unplaced : token.unplaced = .ofNumber word.toNat) (small : word.toNat ≤ maxInteger) :
    token.value? = some word := by
  obtain ⟨kind, value⟩ := standsFor_ofNumber.mp (standsFor_of_unplaced unplaced)
  exact value?_eq_some.mpr ⟨kind, value, small⟩

namespace Scans

variable {dialect : Dialect} {behind : List Char}

/-- A blank between two pieces separates them. -/
theorem spaced {text more : List Char} {tokens others : List Token}
    (front : Scans dialect (' ' :: (more ++ behind)) text tokens)
    (back : Scans dialect behind more others) :
    Scans dialect behind (text ++ ' ' :: more) (tokens ++ others) :=
  front.append (.blank rfl back)

theorem newline_notMem_of_plain {text : List Char}
    (plain : ∀ character ∈ text, IsPlain character) : '\n' ∉ text :=
  fun member => (plain _ member).notNewline rfl

/-- A word is scanned as one token, whose class tells whether it is reserved. -/
theorem word {text : List Char} (isWord : dialect.IsWord text)
    (stops : Stops dialect.continuesName behind) :
    Scans dialect behind text [⟨.start,
      match dialect.keyword? (String.ofList text) with
      | some keyword => .keyword keyword
      | none => .identifier, String.ofList text⟩] := by
  cases text with
  | nil => exact isWord.elim
  | cons first rest =>
      have plain : ∀ character ∈ first :: rest, IsPlain character :=
        List.forall_mem_cons.mpr ⟨dialect.isPlain_of_startsName isWord.1,
          fun character member => dialect.isPlain_of_continuesName (isWord.2 character member)⟩
      refine .single (plain first List.mem_cons_self).notBlank (newline_notMem_of_plain plain) ?_
      rw [Lexeme.ofText_word isWord.1]
      unfold Lexeme.word
      rw [takeWhile_of_stops stops, dropWhile_of_stops stops, List.takeWhile_eq_self_iff.mpr isWord.2,
        List.dropWhile_eq_nil_iff.mpr isWord.2]
      rfl

theorem name {name : String} (isIdentifier : dialect.IsIdentifier name)
    (stops : Stops dialect.continuesName behind) :
    Scans dialect behind name.toList [.ofName name] := by
  have scans := word isIdentifier.word stops
  rwa [String.ofList_toList, isIdentifier.notKeyword] at scans

/-- Reserved words are words, and each of them is the only one with its text. -/
theorem reserved_word {keyword : Keyword} (reserved : keyword ∈ dialect.keywords) :
    dialect.IsWord keyword.text.toList ∧ dialect.keyword? keyword.text = some keyword := by
  revert keyword
  cases dialect <;> decide +kernel

theorem keyword {keyword : Keyword} (reserved : keyword ∈ dialect.keywords)
    (stops : Stops dialect.continuesName behind) :
    Scans dialect behind keyword.text.toList [.ofKeyword keyword] := by
  obtain ⟨isWord, found⟩ := reserved_word reserved
  have scans := word isWord stops
  rwa [String.ofList_toList, found] at scans

theorem number (number : Nat) (stops : Stops Char.isDigit behind) :
    Scans dialect behind (toString number).toList [.ofNumber number] := by
  have digits : ∀ character ∈ (toString number).toList, character.isDigit = true :=
    fun _ => isDigit_of_mem_toString
  rcases spelled : (toString number).toList with _ | ⟨first, rest⟩
  · rw [Nat.toString_eq_repr, Nat.toList_repr] at spelled
    exact absurd spelled Nat.toDigits_ne_nil
  · rw [spelled] at digits
    have plain := fun character member => isPlain_of_isDigit (digits character member)
    have digit := digits first List.mem_cons_self
    have same : Token.ofNumber number = ⟨.start, .integer, String.ofList (first :: rest)⟩ := by
      rw [← spelled, String.ofList_toList]
      rfl
    rw [same]
    refine .single (plain first List.mem_cons_self).notBlank (newline_notMem_of_plain plain) ?_
    rw [Lexeme.ofText_plain (plain first List.mem_cons_self), if_pos digit]
    unfold Lexeme.run
    rw [← List.cons_append, takeWhile_of_stops stops, dropWhile_of_stops stops,
      List.takeWhile_eq_self_iff.mpr digits, List.dropWhile_eq_nil_iff.mpr digits]
    rfl

/-- A mark is one token, unless it starts names or comments. -/
theorem mark {mark : Mark} (notSlash : mark ≠ .slash)
    (startsNone : dialect.startsName mark.character = false) :
    Scans dialect behind [mark.character] [.ofMark mark] := by
  have plain : IsPlain mark.character :=
    isPlain_of_notMem (by cases mark <;> first | exact absurd rfl notSlash | decide)
  have notDigit : mark.character.isDigit = false := by cases mark <;> decide
  have found : Mark.ofCharacter? mark.character = some mark := by cases mark <;> decide
  refine .single plain.notBlank (newline_notMem_of_plain (by simpa using plain)) ?_
  rw [Lexeme.ofText_plain plain, if_neg (by simp [notDigit]), if_neg (by simp [startsNone]), found]
  rfl

/-- A comment reaches to the end of its line. -/
theorem comment {text : List Char}
    (oneLine : ∀ character ∈ text, Lexeme.breaksLine character = false)
    (stops : Stops (fun character => !Lexeme.breaksLine character) behind) :
    Scans dialect behind ('/' :: '/' :: text)
      [⟨.start, .comment .line, String.ofList ('/' :: '/' :: text)⟩] := by
  have inside : ∀ character ∈ '/' :: '/' :: text, (!Lexeme.breaksLine character) = true :=
    List.forall_mem_cons.mpr ⟨rfl, List.forall_mem_cons.mpr ⟨rfl, by simpa using oneLine⟩⟩
  refine .single (by decide) (fun member => absurd (inside _ member) (by decide)) ?_
  change Lexeme.run _ _ (('/' :: '/' :: text) ++ behind) = _
  unfold Lexeme.run
  rw [takeWhile_of_stops stops, dropWhile_of_stops stops, List.takeWhile_eq_self_iff.mpr inside,
    List.dropWhile_eq_nil_iff.mpr inside]
  rfl

/-- The first token of a piece is told by the piece's first character and what follows it. -/
theorem kind_head {first : Char} {rest : List Char} {token : Token} {tokens : List Token}
    (scans : Scans dialect behind (first :: rest) (token :: tokens))
    (notBlank : Scanner.isBlank first = false) :
    token.kind = (Lexeme.ofText dialect first (rest ++ behind)).kind := by
  cases scans with
  | blank isBlank _ =>
      rw [notBlank] at isBlank
      cases isBlank
  | token _ _ cut _ => rw [List.append_assoc, cut]

/-- Whatever the tokens of a text of plain characters are, none of them ends the line and together they
spell the text. -/
theorem plain (dialect : Dialect) (behind : List Char) {text : List Char}
    (plain : ∀ character ∈ text, IsPlain character) :
    ∃ tokens : List Token, Scans dialect ('\n' :: behind) text tokens ∧
      (∀ token ∈ tokens, token.kind.endsLine = false) ∧
      (tokens.flatMap fun token => token.literal.toList) = text := by
  induction measured : text.length using Nat.strongRecOn generalizing text with
  | ind length inductionHypothesis =>
      cases text with
      | nil => exact ⟨[], .done, nofun, rfl⟩
      | cons first rest =>
          obtain ⟨test, atNewline, cut⟩ :=
            Lexeme.ofText_verbatim dialect (plain first List.mem_cons_self)
          have stops : Stops test ('\n' :: behind) := stops_cons.mpr atNewline
          have split : rest.takeWhile test ++ rest.dropWhile test = rest :=
            List.takeWhile_append_dropWhile
          obtain ⟨kind, notEnd, cut⟩ := cut (rest ++ '\n' :: behind)
          rw [takeWhile_of_stops stops, dropWhile_of_stops stops] at cut
          have left : ∀ character ∈ rest.dropWhile test, IsPlain character := fun character member =>
            plain character (List.mem_cons_of_mem first ((List.dropWhile_suffix test).subset member))
          have shorter : (rest.dropWhile test).length < length := by
            rw [← measured]
            exact Nat.lt_succ_of_le (List.dropWhile_suffix test).length_le
          obtain ⟨tokens, scans, kinds, spelled⟩ := inductionHypothesis _ shorter left rfl
          refine ⟨⟨.start, kind, String.ofList (first :: rest.takeWhile test)⟩ :: tokens, ?_, ?_, ?_⟩
          · have oneLine : '\n' ∉ first :: rest.takeWhile test := by
              refine newline_notMem_of_plain fun character member => plain character ?_
              exact ((List.prefix_cons_inj first).mpr (List.takeWhile_prefix test)).subset member
            have scans := Scans.token (plain first List.mem_cons_self).notBlank oneLine
              (by rw [← List.append_assoc, split]; exact cut) scans
            rwa [split] at scans
          · exact List.forall_mem_cons.mpr ⟨notEnd, kinds⟩
          · rw [List.flatMap_cons, spelled, String.toList_ofList, List.cons_append, split]

end Scans
end HackToolchain
