import HackToolchain.Proofs.Token.OneLine

namespace HackToolchain
namespace Text

/-!
# Reading escaped texts

A listing escapes the backslash, both quotation marks and four controls with a letter or sign behind a
backslash, and some further characters by their code points.  Which ones these are is a matter of what
can be shown and changes with the tables of characters.  It does not matter for the reader of a listing,
who can always tell where one character ends and which one it is.

So escaping is looked at for any set of further characters, which may depend on whether a character is
the first of its text.  Texts that are escaped to the same listing are the same.
-/

/-! ## Code points -/

/-- The value of a hexadecimal digit, if its letters are small. -/
def hexadecimalDigit (digit : Char) : Nat :=
  if digit.isDigit then digit.toNat - '0'.toNat else digit.toNat - 'a'.toNat + 10

/-- The number that hexadecimal digits denote. -/
def hexadecimalValue (digits : List Char) : Nat :=
  digits.foldl (fun value digit => value * 16 + hexadecimalDigit digit) 0

theorem hexadecimalValue_concat (digits : List Char) (digit : Char) :
    hexadecimalValue (digits ++ [digit]) = hexadecimalValue digits * 16 + hexadecimalDigit digit := by
  unfold hexadecimalValue
  rw [List.foldl_append]
  rfl

theorem hexadecimalDigit_digitChar : ∀ digit < 16, hexadecimalDigit digit.digitChar = digit := by decide

theorem hexadecimalValue_toDigits (number : Nat) :
    hexadecimalValue (Nat.toDigits 16 number) = number := by
  induction number using Nat.strongRecOn with
  | ind number inductionHypothesis =>
      rw [Nat.toDigits_eq_if (by decide)]
      split
      · rename_i small
        exact (hexadecimalValue_concat [] _).trans
          ((Nat.zero_add _).trans (hexadecimalDigit_digitChar number small))
      · rw [hexadecimalValue_concat, inductionHypothesis (number / 16) (by omega),
          hexadecimalDigit_digitChar _ (Nat.mod_lt _ (by decide))]
        omega

theorem brace_notMem_toDigits (number : Nat) : '\x7d' ∉ Nat.toDigits 16 number := by
  have noDigit : ∀ digit < 16, Nat.digitChar digit ≠ '\x7d' := by decide
  induction number using Nat.strongRecOn with
  | ind number inductionHypothesis =>
      rw [Nat.toDigits_eq_if (by decide)]
      split
      · rename_i small
        exact fun member => noDigit number small (List.mem_singleton.mp member).symm
      · rw [List.mem_append, not_or]
        refine ⟨inductionHypothesis (number / 16) (by omega), fun member => ?_⟩
        exact noDigit _ (Nat.mod_lt _ (by decide)) (List.mem_singleton.mp member).symm

/-! ## Single characters -/

/-- The four controls that have a letter of their own, each with that letter. -/
def letters : List (Char × Char) := [('\x00', '0'), ('\t', 't'), ('\n', 'n'), ('\r', 'r')]

/-- One character in a listing that writes further characters by their code points. -/
def listedCharacter (further : Bool -> Char -> Bool) (leads : Bool) (character : Char) : List Char :=
  if character = '\x00' then ['\\', '0']
  else if character = '\t' then ['\\', 't']
  else if character = '\n' then ['\\', 'n']
  else if character = '\r' then ['\\', 'r']
  else if character = '\\' || EscapeStyle.listing.marks.contains character then ['\\', character]
  else if further leads character then escapedCodePoint character
  else [character]

/-- The ways in which a character can stand in a listing. -/
inductive IsListed : Char -> List Char -> Prop where
  | letter {character letter : Char} (short : (character, letter) ∈ letters) :
      IsListed character ['\\', letter]
  | sign {character : Char} (isSign : character ∈ ['\\', '"', '\'']) :
      IsListed character ['\\', character]
  | codePoint (character : Char) : IsListed character (escapedCodePoint character)
  | plain {character : Char} (notSign : character ≠ '\\')
      (notBreak : Lexeme.breaksLine character = false) : IsListed character [character]

theorem isListed_listedCharacter (further : Bool -> Char -> Bool) (leads : Bool) (character : Char) :
    IsListed character (listedCharacter further leads character) := by
  unfold listedCharacter
  split
  · rename_i same
    exact .letter (same ▸ by decide)
  split
  · rename_i same
    exact .letter (same ▸ by decide)
  split
  · rename_i same
    exact .letter (same ▸ by decide)
  rename_i notNewline
  split
  · rename_i same
    exact .letter (same ▸ by decide)
  rename_i notReturn
  split
  · rename_i isSign
    refine .sign ?_
    simpa [EscapeStyle.listing] using isSign
  rename_i noSign
  split
  · exact .codePoint character
  · have notSign : character ≠ '\\' := by
      intro same
      simp [same] at noSign
    exact .plain notSign (by simp [Lexeme.breaksLine, notNewline, notReturn])

/-- Read one character of a listing, and what is left behind it. -/
def readListed : List Char -> Option (Char × List Char)
  | '\\' :: '0' :: rest => some ('\x00', rest)
  | '\\' :: 't' :: rest => some ('\t', rest)
  | '\\' :: 'n' :: rest => some ('\n', rest)
  | '\\' :: 'r' :: rest => some ('\r', rest)
  | '\\' :: 'u' :: '\x7b' :: rest =>
    some (Char.ofNat (hexadecimalValue (rest.takeWhile (· != '\x7d'))),
      (rest.dropWhile (· != '\x7d')).tail)
  | '\\' :: sign :: rest => some (sign, rest)
  | character :: rest => some (character, rest)
  | [] => none

/-- A character of a listing is read back in front of whatever follows. -/
theorem IsListed.readListed {character : Char} {listed : List Char} (isListed : IsListed character listed)
    (rest : List Char) : readListed (listed ++ rest) = some (character, rest) := by
  cases isListed with
  | letter short =>
      simp only [letters, List.mem_cons, Prod.mk.injEq, List.not_mem_nil, or_false] at short
      rcases short with ⟨rfl, rfl⟩ | ⟨rfl, rfl⟩ | ⟨rfl, rfl⟩ | ⟨rfl, rfl⟩ <;> rfl
  | sign isSign =>
      simp only [List.mem_cons, List.not_mem_nil, or_false] at isSign
      rcases isSign with rfl | rfl | rfl <;> rfl
  | codePoint =>
      have inside : ∀ digit ∈ Nat.toDigits 16 character.toNat, (digit != '\x7d') = true :=
        fun digit member => bne_iff_ne.mpr fun same => brace_notMem_toDigits _ (same ▸ member)
      have spelled : escapedCodePoint character ++ rest =
          '\\' :: 'u' :: '\x7b' :: (Nat.toDigits 16 character.toNat ++ '\x7d' :: rest) := by
        simp [escapedCodePoint]
      rw [spelled, Text.readListed, List.takeWhile_append_of_pos inside,
        List.dropWhile_append_of_pos inside]
      have front : Nat.toDigits 16 character.toNat ++ ('\x7d' :: rest).takeWhile (· != '\x7d') =
          Nat.toDigits 16 character.toNat := List.append_nil _
      rw [front, hexadecimalValue_toDigits, Char.ofNat_toNat]
      rfl
  | plain notSign =>
      rw [List.singleton_append]
      unfold Text.readListed
      split <;> simp_all

theorem IsListed.isOneLine {character : Char} {listed : List Char}
    (isListed : IsListed character listed) : IsOneLine listed := by
  cases isListed with
  | letter short =>
      simp only [letters, List.mem_cons, Prod.mk.injEq, List.not_mem_nil, or_false] at short
      rcases short with ⟨rfl, rfl⟩ | ⟨rfl, rfl⟩ | ⟨rfl, rfl⟩ | ⟨rfl, rfl⟩ <;> decide
  | sign isSign =>
      simp only [List.mem_cons, List.not_mem_nil, or_false] at isSign
      rcases isSign with rfl | rfl | rfl <;> decide
  | codePoint => exact isOneLine_escapedCodePoint character
  | plain notSign notBreak => exact List.forall_mem_singleton.mpr notBreak

/-! ## Texts -/

/-- A text in a listing.  `leads` tells whether it begins there. -/
def listedFrom (further : Bool -> Char -> Bool) : Bool -> List Char -> List Char
  | _, [] => []
  | leads, first :: rest => listedCharacter further leads first ++ listedFrom further false rest

theorem readListed_listedFrom (further : Bool -> Char -> Bool) (leads : Bool) (first : Char)
    (rest : List Char) : readListed (listedFrom further leads (first :: rest)) =
      some (first, listedFrom further false rest) :=
  (isListed_listedCharacter further leads first).readListed _

/-- Texts with the same listing are the same: both end, or both go on with the character that can be
read there. -/
theorem listedFrom_inj {further : Bool -> Char -> Bool} {leads : Bool} {text other : List Char}
    (same : listedFrom further leads text = listedFrom further leads other) : text = other := by
  induction text generalizing leads other with
  | nil =>
      cases other with
      | nil => rfl
      | cons first rest =>
          have read := readListed_listedFrom further leads first rest
          rw [← same] at read
          cases read
  | cons first text inductionHypothesis =>
      have read := readListed_listedFrom further leads first text
      rw [same] at read
      cases other with
      | nil => cases read
      | cons second other =>
          rw [readListed_listedFrom, Option.some.injEq, Prod.mk.injEq] at read
          rw [read.1, inductionHypothesis read.2.symm]

theorem isOneLine_listedFrom (further : Bool -> Char -> Bool) (leads : Bool) (text : List Char) :
    IsOneLine (listedFrom further leads text) := by
  induction text generalizing leads with
  | nil => exact List.forall_mem_nil _
  | cons first rest inductionHypothesis =>
      exact (isListed_listedCharacter further leads first).isOneLine.append (inductionHypothesis false)

/-! ## The listing style -/

/-- The further characters of a listing: those that cannot be shown, and a combining mark where it would
be drawn over what is in front of the text. -/
def isShownByCodePoint (leads : Bool) (character : Char) : Bool :=
  extendsGrapheme character && leads || !isPrintable character

theorem escapeCharacter_listing (leads : Bool) (character : Char) :
    escapeCharacter .listing leads character = listedCharacter isShownByCodePoint leads character := by
  unfold escapeCharacter listedCharacter isShownByCodePoint
  cases extendsGrapheme character <;> cases isPrintable character <;> cases leads <;> rfl

theorem escapeCharacters_listing (text : List Char) :
    escapeCharacters .listing text = listedFrom isShownByCodePoint true text := by
  have others (rest : List Char) : rest.flatMap (escapeCharacter .listing false) =
      listedFrom isShownByCodePoint false rest := by
    induction rest with
    | nil => rfl
    | cons first rest inductionHypothesis =>
        rw [List.flatMap_cons, inductionHypothesis, escapeCharacter_listing]
        rfl
  cases text with
  | nil => rfl
  | cons first rest =>
      rw [escapeCharacters, others, escapeCharacter_listing]
      rfl

end Text
end HackToolchain
