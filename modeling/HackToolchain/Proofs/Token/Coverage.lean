import Mathlib.Algebra.GroupWithZero.Nat
import Mathlib.Data.List.Induction
import Mathlib.Data.List.TakeWhile
import HackToolchain.Proofs.Token.Scanning

namespace HackToolchain

/-!
# What the tokens of a source cover

A source is its tokens with blanks between them.  Nothing else is in it, and nothing of it is lost: the
source is put together again from the pieces that its tokens were cut from, however malformed they are.
What a token keeps of its piece is told by its class alone, up to the few pieces that are not kept as
they are spelled.

The place of a token was counted on the way there.  Here it is told from the text in front of the
token: the line by the line feeds in it, the column by what stands behind the last of them.  A piece
never starts with a tab, so every token moves the place on, also for a reader to whom tabs have no
width.

Places are counted in words.  A reader gets to the end of a source exactly if the words suffice for the
place behind every beginning of it, and then its places are exact.
-/

/-! ## Places -/

namespace Position

/-- The columns that a character takes up. -/
def width (tabWidth : UInt64) (character : Char) : Nat :=
  if character = '\t' then tabWidth.toNat else 1

/-- The text behind the last line feed. -/
def lastLine (text : List Char) : List Char := (text.reverse.takeWhile (· != '\n')).reverse

/-- The place behind the beginning of a source. -/
def behind (tabWidth : UInt64) (text : List Char) : Position :=
  ⟨1 + text.count '\n', 1 + ((lastLine text).map (width tabWidth)).sum⟩

theorem lastLine_newline (text : List Char) : lastLine (text ++ ['\n']) = [] := by
  unfold lastLine
  rw [List.reverse_append, List.reverse_singleton, List.singleton_append,
    List.takeWhile_cons_of_neg (by decide), List.reverse_nil]

theorem lastLine_append (text : List Char) {last : Char} (sameLine : last ≠ '\n') :
    lastLine (text ++ [last]) = lastLine text ++ [last] := by
  unfold lastLine
  rw [List.reverse_append, List.reverse_singleton, List.singleton_append,
    List.takeWhile_cons_of_pos (by simpa using sameLine), List.reverse_cons]

theorem afterText_append (tabWidth : UInt64) (position : Position) (front back : List Char) :
    position.afterText tabWidth (front ++ back) =
      (position.afterText tabWidth front).afterText tabWidth back := List.foldl_append

/-- Counting on from character to character leads where the text says. -/
theorem afterText_start (tabWidth : UInt64) (text : List Char) :
    start.afterText tabWidth text = behind tabWidth text := by
  induction text using List.reverseRecOn with
  | nil => rfl
  | append_singleton front last inductionHypothesis =>
      have step : start.afterText tabWidth (front ++ [last]) =
          (start.afterText tabWidth front).after tabWidth last := afterText_append ..
      rw [step, inductionHypothesis]
      by_cases newline : last = '\n'
      · subst newline
        rw [behind, behind, lastLine_newline, List.count_append]
        rfl
      · have sameCount : (front ++ [last]).count '\n' = front.count '\n' := by
          rw [List.count_append, List.count_singleton, if_neg (by simpa using newline), Nat.add_zero]
        rw [behind, behind, lastLine_append front newline, sameCount, List.map_append, List.sum_append]
        unfold after width
        rw [if_neg newline]
        split <;> simp [*, Nat.add_assoc]

theorem afterText_tabs (tabWidth : UInt64) (position : Position) (count : Nat) :
    position.afterText tabWidth (List.replicate count '\t') =
      ⟨position.line, position.column + count * tabWidth.toNat⟩ := by
  induction count generalizing position with
  | zero => simp [afterText]
  | succ count inductionHypothesis =>
      rw [List.replicate_succ, afterText, List.foldl_cons]
      refine (inductionHypothesis _).trans ?_
      rw [Nat.succ_mul, Nat.add_comm (count * _), ← Nat.add_assoc]
      rfl

theorem after_behind (tabWidth : UInt64) (front : List Char) (last : Char) :
    (behind tabWidth front).after tabWidth last = behind tabWidth (front ++ [last]) := by
  rw [← afterText_start, ← afterText_start, afterText_append]
  rfl

theorem steps_concat (tabWidth : UInt64) (position : Position) (front : List Char) (last : Char) :
    steps tabWidth position (front ++ [last]) =
      steps tabWidth position front >>= (step tabWidth · last) := by
  unfold steps
  rw [List.foldlM_append]
  refine congrArg _ (funext fun between => ?_)
  rw [List.foldlM_cons]
  cases step tabWidth between last <;> rfl

/-- Counting in words reaches the place behind a source, or fails at the first of its beginnings behind
which there is no place. -/
theorem steps_start (tabWidth : UInt64) (text : List Char) :
    (∀ front, front <+: text -> (behind tabWidth front).Fits) ∧
        steps tabWidth start text = .ok (behind tabWidth text) ∨
      (∃ front, front <+: text ∧ ¬(behind tabWidth front).Fits) ∧
        steps tabWidth start text = .error .overflow := by
  induction text using List.reverseRecOn with
  | nil =>
      refine .inl ⟨fun front isPrefix => ?_, rfl⟩
      rw [List.prefix_nil.mp isPrefix]
      exact (by decide : start.Fits)
  | append_singleton front last inductionHypothesis =>
      rcases inductionHypothesis with ⟨fits, reached⟩ | ⟨⟨earlier, isPrefix, outgrown⟩, failed⟩
      · have stepped : steps tabWidth start (front ++ [last]) =
            if (behind tabWidth (front ++ [last])).Fits then .ok (behind tabWidth (front ++ [last]))
            else .error .overflow := by
          rw [steps_concat, reached, ← after_behind]
          rfl
        rw [stepped]
        by_cases fitsToo : (behind tabWidth (front ++ [last])).Fits
        · refine .inl ⟨fun other isPrefix => ?_, if_pos fitsToo⟩
          rcases List.prefix_concat_iff.mp isPrefix with rfl | shorter
          · exact fitsToo
          · exact fits other shorter
        · exact .inr ⟨⟨_, List.prefix_rfl, fitsToo⟩, if_neg fitsToo⟩
      · refine .inr ⟨⟨earlier, isPrefix.trans (List.prefix_append _ _), outgrown⟩, ?_⟩
        rw [steps_concat, failed]
        rfl

/-- No character moves a place further than by a line, or by the wider of a tab and a column. -/
theorem afterText_le (tabWidth : UInt64) (position : Position) (text : List Char) :
    (position.afterText tabWidth text).line ≤ position.line + text.length ∧
      (position.afterText tabWidth text).column ≤
        max position.column 1 + text.length * max tabWidth.toNat 1 := by
  induction text generalizing position with
  | nil => exact ⟨Nat.le_refl _, (Nat.le_max_left ..).trans (Nat.le_add_right ..)⟩
  | cons first rest inductionHypothesis =>
      obtain ⟨line, column⟩ := inductionHypothesis (position.after tabWidth first)
      have step : (position.after tabWidth first).line ≤ position.line + 1 ∧
          max (position.after tabWidth first).column 1 ≤
            max position.column 1 + max tabWidth.toNat 1 := by
        unfold after
        split
        · dsimp only
          omega
        · split <;> dsimp only <;> omega
      rw [List.length_cons, Nat.succ_mul]
      exact ⟨line.trans (by omega), column.trans (by omega)⟩

/-- One place stands before another: on an earlier line, or further left on the same one. -/
def Before (first second : Position) : Prop :=
  first.line < second.line ∨ first.line = second.line ∧ first.column < second.column

theorem Before.afterText {first second : Position} (before : first.Before second) (tabWidth : UInt64)
    (text : List Char) : first.Before (second.afterText tabWidth text) := by
  induction text generalizing second with
  | nil => exact before
  | cons character rest inductionHypothesis =>
      refine inductionHypothesis ?_
      unfold Before at *
      unfold after
      split
      · dsimp only
        omega
      · split <;> dsimp only <;> omega

/-- A text that does not start with a tab moves the place on. -/
theorem before_afterText (position : Position) (tabWidth : UInt64) {first : Char} (rest : List Char)
    (notTab : first ≠ '\t') : position.Before (position.afterText tabWidth (first :: rest)) := by
  have step : position.Before (position.after tabWidth first) := by
    unfold after
    rw [if_neg notTab]
    split
    · exact .inl (Nat.lt_succ_self _)
    · exact .inr ⟨rfl, Nat.lt_succ_self _⟩
  exact step.afterText tabWidth rest

end Position

/-! ## Spellings -/

/-- How the literal of a token comes from its spelling.  A string leaves out its quotes, an open one
the quote that it starts with, and a line end of two characters is kept as one.  Everything else is
kept as it is spelled. -/
inductive Spells : TokenKind -> (literal spelling : List Char) -> Prop where
  | verbatim {kind : TokenKind} {first : Char} {rest : List Char} (notString : kind ≠ .string)
      (notQuote : first ≠ '"') : Spells kind (first :: rest) (first :: rest)
  | string {literal : List Char}
      (inside : ∀ character ∈ literal, character ≠ '"' ∧ Lexeme.breaksLine character = false) :
      Spells .string literal ('"' :: (literal ++ ['"']))
  | openString {literal : List Char}
      (inside : ∀ character ∈ literal, character ≠ '"' ∧ Lexeme.breaksLine character = false) :
      Spells .illegal literal ('"' :: literal)
  | lineEnd : Spells .newline ['\n'] ['\r', '\n']

/-- Marks are spelled as they are kept. -/
theorem Spells.of_mark {mark : Mark} {literal spelling : List Char}
    (spells : Spells (.mark mark) literal spelling) : spelling = literal := by
  cases spells
  rfl

namespace Lexeme

/-- The lexeme keeps of its spelling what its class says. -/
def IsSpelled (lexeme : Lexeme) : Prop := Spells lexeme.kind lexeme.literal lexeme.spelling

theorem isSpelled_verbatim {kind : TokenKind} {first : Char} {spelling rest : List Char}
    (notString : kind ≠ .string) (notQuote : first ≠ '"') :
    (verbatim kind (first :: spelling) rest).IsSpelled := .verbatim notString notQuote

theorem isSpelled_run {kind : TokenKind} {test : Char -> Bool} {first : Char} (rest : List Char)
    (notString : kind ≠ .string) (notQuote : first ≠ '"') (passes : test first = true) :
    (run kind test (first :: rest)).IsSpelled := by
  unfold run
  rw [List.takeWhile_cons_of_pos passes]
  exact isSpelled_verbatim notString notQuote

theorem isSpelled_carriageReturn (rest : List Char) : (carriageReturn rest).IsSpelled := by
  unfold carriageReturn
  split
  · exact .lineEnd
  · exact isSpelled_verbatim (by decide) (by decide)

theorem isSpelled_slash (rest : List Char) : (slash rest).IsSpelled := by
  unfold slash
  split
  · exact isSpelled_run _ (by decide) (by decide) rfl
  · unfold blockComment
    split
    · rename_i found
      obtain ⟨taken, rfl, -⟩ := splitComment_lossless found
      exact isSpelled_verbatim (by nofun) (by decide)
    · exact isSpelled_verbatim (by decide) (by decide)
  · exact isSpelled_verbatim (by decide) (by decide)

theorem isSpelled_string (text : List Char) : (string text).IsSpelled := by
  have inside : ∀ character ∈ text.takeWhile (fun character => character != '"' && !breaksLine character),
      character ≠ '"' ∧ breaksLine character = false := by
    intro character member
    simpa using List.mem_takeWhile_imp member
  unfold string
  dsimp only
  split
  · exact .string inside
  · exact .openString inside

theorem isSpelled_word (dialect : Dialect) {first : Char} (text : List Char) (notQuote : first ≠ '"') :
    (word dialect first text).IsSpelled := by
  refine isSpelled_verbatim ?_ notQuote
  split <;> exact nofun

/-- Every lexeme keeps of its spelling what its class says. -/
theorem isSpelled_ofText (dialect : Dialect) (first : Char) (rest : List Char) :
    (ofText dialect first rest).IsSpelled := by
  unfold ofText
  split
  · exact isSpelled_verbatim (by decide) (by decide)
  split
  · exact isSpelled_carriageReturn rest
  split
  · exact isSpelled_slash rest
  split
  · exact isSpelled_string rest
  rename_i notQuote
  split
  · rename_i digit
    exact isSpelled_run rest (by decide) notQuote digit
  split
  · exact isSpelled_word dialect rest notQuote
  split
  · exact isSpelled_verbatim nofun notQuote
  · exact isSpelled_verbatim (by decide) notQuote

theorem spelling_ofText (dialect : Dialect) (first : Char) (rest : List Char) :
    ∃ more, (ofText dialect first rest).spelling = first :: more := by
  have cuts := cuts_ofText dialect first rest
  rcases spelled : (ofText dialect first rest).spelling with _ | ⟨head, more⟩
  · exact absurd spelled cuts.nonempty
  · have lossless := cuts.lossless
    rw [spelled] at lossless
    exact ⟨more, congrArg (· :: more) (List.cons.inj lossless).1⟩

end Lexeme

/-! ## Pieces -/

/-- A token with the piece of source that it was cut from, and the blanks in front of that piece. -/
structure Piece where
  blanks : List Char
  first : Char
  rest : List Char
  token : Token
  blank : ∀ character ∈ blanks, Scanner.isBlank character = true
  notBlank : Scanner.isBlank first = false
  spells : Spells token.kind token.literal.toList (first :: rest)
  notEnd : token.kind ≠ .endOfFile

namespace Piece

/-- The source text of a token. -/
def spelling (piece : Piece) : List Char := piece.first :: piece.rest

/-- All that a piece takes up of a source. -/
def text (piece : Piece) : List Char := piece.blanks ++ piece.spelling

/-- The source text of pieces one behind the other. -/
def texts (pieces : List Piece) : List Char := pieces.flatMap text

theorem notTab (piece : Piece) : piece.first ≠ '\t' := by
  intro same
  have notBlank := piece.notBlank
  rw [same] at notBlank
  exact absurd notBlank (by decide)

/-- Every token stands where the text in front of its spelling leads from a place. -/
def Placed (tabWidth : UInt64) (position : Position) (pieces : List Piece) : Prop :=
  ∀ front piece back, pieces = front ++ piece :: back ->
    piece.token.position = position.afterText tabWidth (texts front ++ piece.blanks)

variable {tabWidth : UInt64} {position : Position}

theorem placed_nil : Placed tabWidth position [] := by
  intro front piece back none
  exact absurd none (by simp)

theorem placed_cons {piece : Piece} {pieces : List Piece} :
    Placed tabWidth position (piece :: pieces) ↔
      piece.token.position = position.afterText tabWidth piece.blanks ∧
        Placed tabWidth (position.afterText tabWidth piece.text) pieces := by
  constructor
  · intro placed
    refine ⟨placed [] piece pieces rfl, fun front other back split => ?_⟩
    rw [placed (piece :: front) other back (congrArg (piece :: ·) split), texts, List.flatMap_cons,
      List.append_assoc, Position.afterText_append]
    rfl
  · rintro ⟨first, later⟩ front other back split
    rcases front with _ | ⟨head, front⟩
    · obtain ⟨rfl, -⟩ := List.cons.inj split
      exact first
    · obtain ⟨rfl, inTail⟩ := List.cons.inj split
      rw [texts, List.flatMap_cons, List.append_assoc, Position.afterText_append]
      exact later front other back inTail

/-- A token stands before everything behind it. -/
theorem before_behind {piece : Piece}
    (placed : piece.token.position = position.afterText tabWidth piece.blanks) (more : List Char) :
    piece.token.position.Before (position.afterText tabWidth (piece.text ++ more)) := by
  have cut : piece.text ++ more = piece.blanks ++ (piece.first :: (piece.rest ++ more)) :=
    List.append_assoc ..
  rw [cut, Position.afterText_append, ← placed]
  exact Position.before_afterText _ tabWidth _ piece.notTab

/-- Every token stands before the ones behind it and before the end of the source. -/
theorem Placed.pairwise {pieces : List Piece} (placed : Placed tabWidth position pieces)
    (blanks : List Char) :
    (pieces.map (fun piece => piece.token.position) ++
      [position.afterText tabWidth (texts pieces ++ blanks)]).Pairwise Position.Before := by
  induction pieces generalizing position with
  | nil => exact List.pairwise_singleton ..
  | cons piece pieces inductionHypothesis =>
      obtain ⟨first, later⟩ := placed_cons.mp placed
      have behind (more : List Char) : texts (piece :: pieces) ++ more =
          piece.text ++ (texts pieces ++ more) := by
        rw [texts, List.flatMap_cons, List.append_assoc]
        rfl
      rw [List.map_cons, List.cons_append, List.pairwise_cons]
      constructor
      · intro place member
        rcases List.mem_append.mp member with ofToken | atEnd
        · obtain ⟨other, inside, rfl⟩ := List.mem_map.mp ofToken
          obtain ⟨front, back, split⟩ := List.append_of_mem inside
          rw [later front other back split, ← Position.afterText_append]
          exact before_behind first _
        · rw [List.mem_singleton.mp atEnd, behind]
          exact before_behind first _
      · rw [behind, Position.afterText_append]
        exact inductionHypothesis later

end Piece

namespace Scanner

/-- What a scanner answers when it has been asked a number of times before. -/
def answer : Nat -> Scanner -> Token
  | 0, scanner => scanner.next.1
  | count + 1, scanner => answer count scanner.next.2

/-- A scanner that has only blanks in front of it is at the end of the source. -/
theorem next_of_blank {scanner : Scanner}
    (blank : ∀ character ∈ scanner.rest, isBlank character = true) :
    scanner.next = (⟨scanner.position.afterText scanner.tabWidth scanner.rest, .endOfFile, ""⟩,
      scanner.past scanner.rest []) := by
  have skipped : scanner.skipBlanks = scanner.past scanner.rest [] := by
    unfold skipBlanks past
    rw [List.takeWhile_eq_self_iff.mpr blank, List.dropWhile_eq_nil_iff.mpr blank]
  unfold next
  rw [skipped]
  rfl

/-- A piece is what a scanner cuts off next, and the rest is left behind it. -/
structure CutsOff (scanner : Scanner) (piece : Piece) (rest : List Char) : Prop where
  starts : scanner.rest = piece.text ++ rest
  cut : Lexeme.ofText scanner.dialect piece.first (piece.rest ++ rest) =
    ⟨piece.token.kind, piece.token.literal.toList, piece.spelling, rest⟩
  placed : piece.token.position = scanner.position.afterText scanner.tabWidth piece.blanks

/-- A scanner passes over blanks and answers the lexeme behind them. -/
theorem next_of_blanks {scanner : Scanner} {blanks text : List Char} {first : Char}
    (blank : ∀ character ∈ blanks, isBlank character = true) (notBlank : isBlank first = false)
    (starts : scanner.rest = blanks ++ first :: text) {lexeme : Lexeme}
    (cut : Lexeme.ofText scanner.dialect first text = lexeme) :
    scanner.next = (⟨scanner.position.afterText scanner.tabWidth blanks, lexeme.kind,
        String.ofList lexeme.literal⟩, scanner.past (blanks ++ lexeme.spelling) lexeme.rest) := by
  have stops : ¬ isBlank first = true := by simp [notBlank]
  have front : (blanks ++ first :: text).takeWhile isBlank = blanks := by
    rw [List.takeWhile_append_of_pos blank, List.takeWhile_cons_of_neg stops, List.append_nil]
  have back : (blanks ++ first :: text).dropWhile isBlank = first :: text := by
    rw [List.dropWhile_append_of_pos blank, List.dropWhile_cons_of_neg stops]
  have skipped : scanner.skipBlanks = scanner.past blanks (first :: text) := by
    unfold skipBlanks past
    rw [starts, front, back]
  subst cut
  rw [← past_past scanner blanks _ (first :: text)]
  unfold next
  rw [skipped]
  rfl

/-- The next token of a scanner is that of the piece which it cuts off. -/
theorem CutsOff.next {scanner : Scanner} {piece : Piece} {rest : List Char}
    (cutsOff : scanner.CutsOff piece rest) :
    scanner.next = (piece.token, scanner.past piece.text rest) := by
  have starts : scanner.rest = piece.blanks ++ piece.first :: (piece.rest ++ rest) :=
    cutsOff.starts.trans (List.append_assoc ..)
  have token : ⟨scanner.position.afterText scanner.tabWidth piece.blanks, piece.token.kind,
      String.ofList piece.token.literal.toList⟩ = piece.token := by
    rw [String.ofList_toList, ← cutsOff.placed]
  exact (next_of_blanks piece.blank piece.notBlank starts cutsOff.cut).trans (Prod.ext token rfl)

/-- The stream goes on behind a piece that is cut off. -/
theorem CutsOff.stream {scanner : Scanner} {piece : Piece} {rest : List Char}
    (cutsOff : scanner.CutsOff piece rest) :
    scanner.stream = { (scanner.past piece.text rest).stream with
      tokens := piece.token :: (scanner.past piece.text rest).stream.tokens } := by
  have goesOn : scanner.next.1.kind ≠ .endOfFile := by
    rw [cutsOff.next]
    exact piece.notEnd
  rw [stream_of_next goesOn, cutsOff.next]

/-- A scanner that has more than blanks in front of it cuts off a piece. -/
theorem exists_cutsOff {scanner : Scanner} (more : ∃ character ∈ scanner.rest, isBlank character = false) :
    ∃ piece rest, scanner.CutsOff piece rest := by
  have split : scanner.rest.takeWhile isBlank ++ scanner.rest.dropWhile isBlank = scanner.rest :=
    List.takeWhile_append_dropWhile
  rcases behind : scanner.rest.dropWhile isBlank with _ | ⟨first, text⟩
  · obtain ⟨character, member, notBlank⟩ := more
    have blank := List.dropWhile_eq_nil_iff.mp behind character member
    rw [notBlank] at blank
    cases blank
  · let lexeme := Lexeme.ofText scanner.dialect first text
    have notBlank : isBlank first = false := by
      have stopped := List.head?_dropWhile_not isBlank scanner.rest
      rw [behind] at stopped
      simpa using stopped
    have cuts : lexeme.spelling ++ lexeme.rest = first :: text :=
      (Lexeme.cuts_ofText scanner.dialect first text).lossless
    have spells : Spells lexeme.kind lexeme.literal lexeme.spelling :=
      Lexeme.isSpelled_ofText scanner.dialect first text
    have notEnd : lexeme.kind ≠ .endOfFile := (Lexeme.proper_ofText scanner.dialect first text).2
    obtain ⟨letters, spelled⟩ : ∃ more, lexeme.spelling = first :: more :=
      Lexeme.spelling_ofText scanner.dialect first text
    let piece : Piece :=
      { blanks := scanner.rest.takeWhile isBlank
        first := first
        rest := letters
        token := ⟨scanner.position.afterText scanner.tabWidth (scanner.rest.takeWhile isBlank),
          lexeme.kind, String.ofList lexeme.literal⟩
        blank := List.all_eq_true.mp List.all_takeWhile
        notBlank := notBlank
        spells := by rw [String.toList_ofList, ← spelled]; exact spells
        notEnd := notEnd }
    have text_eq : letters ++ lexeme.rest = text := by
      rw [spelled] at cuts
      exact (List.cons.inj cuts).2
    refine ⟨piece, lexeme.rest, ?starts, ?cut, rfl⟩
    case starts =>
      change scanner.rest = (_ ++ first :: letters) ++ lexeme.rest
      rw [List.append_assoc, ← spelled, cuts, ← behind, split]
    case cut =>
      change Lexeme.ofText scanner.dialect first (letters ++ lexeme.rest) =
        ⟨lexeme.kind, (String.ofList lexeme.literal).toList, first :: letters, lexeme.rest⟩
      rw [text_eq, String.toList_ofList, ← spelled]

/-- A scanner that has more than blanks in front of it is not at the end. -/
theorem next_proper {scanner : Scanner} (more : ∃ character ∈ scanner.rest, isBlank character = false) :
    scanner.next.1.kind ≠ .endOfFile := by
  obtain ⟨piece, rest, cutsOff⟩ := exists_cutsOff more
  rw [cutsOff.next]
  exact piece.notEnd

/-- The stream of a scanner that has only blanks in front of it. -/
theorem stream_of_blank {scanner : Scanner}
    (blank : ∀ character ∈ scanner.rest, isBlank character = true) :
    scanner.stream = ⟨[], scanner.position.afterText scanner.tabWidth scanner.rest⟩ := by
  unfold stream collect
  rw [next_of_blank blank]
  rfl

end Scanner

/-- The pieces are all that a scanner reads up to the end of its text, where only blanks are left. -/
structure Scanner.Covers (scanner : Scanner) (pieces : List Piece) (blanks : List Char) : Prop where
  text : scanner.rest = Piece.texts pieces ++ blanks
  blank : ∀ character ∈ blanks, isBlank character = true
  tokens : scanner.stream.tokens = pieces.map Piece.token
  finish : scanner.stream.finish = scanner.position.afterText scanner.tabWidth scanner.rest
  placed : Piece.Placed scanner.tabWidth scanner.position pieces

/-- The pieces that a scanner cuts off its text one after the other, and the blanks that are left. -/
inductive Scanner.CutInto (blanks : List Char) : Scanner -> List Piece -> Prop where
  | done {scanner : Scanner} (left : scanner.rest = blanks)
      (blank : ∀ character ∈ blanks, isBlank character = true) : CutInto blanks scanner []
  | piece {scanner : Scanner} {piece : Piece} {rest : List Char} {pieces : List Piece}
      (cutsOff : scanner.CutsOff piece rest)
      (behind : CutInto blanks (scanner.past piece.text rest) pieces) :
      CutInto blanks scanner (piece :: pieces)

/-- Every scanner cuts its text into pieces. -/
theorem Scanner.exists_cutInto (scanner : Scanner) : ∃ pieces blanks, scanner.CutInto blanks pieces := by
  induction measured : scanner.rest.length using Nat.strongRecOn generalizing scanner with
  | ind length inductionHypothesis =>
      by_cases blank : ∀ character ∈ scanner.rest, isBlank character = true
      · exact ⟨[], scanner.rest, .done rfl blank⟩
      · have more : ∃ character ∈ scanner.rest, isBlank character = false := by simpa using blank
        obtain ⟨piece, rest, cutsOff⟩ := exists_cutsOff more
        have shorter := scanner.next_shorter (next_proper more)
        rw [cutsOff.next] at shorter
        obtain ⟨pieces, blanks, behind⟩ :=
          inductionHypothesis _ (measured ▸ shorter) (scanner.past piece.text rest) rfl
        exact ⟨piece :: pieces, blanks, .piece cutsOff behind⟩

/-- The pieces that a scanner cuts off cover its text. -/
theorem Scanner.CutInto.covers {scanner : Scanner} {pieces : List Piece} {blanks : List Char}
    (cutInto : scanner.CutInto blanks pieces) : scanner.Covers pieces blanks := by
  induction cutInto with
  | done left blank =>
      subst left
      have stream := stream_of_blank blank
      refine ⟨rfl, blank, ?_, ?_, Piece.placed_nil⟩
      · rw [stream]
        rfl
      · rw [stream]
  | piece cutsOff behind covers =>
      rename_i scanner piece rest pieces
      have stream := cutsOff.stream
      have left : rest = Piece.texts pieces ++ blanks := covers.text
      refine ⟨?text, covers.blank, ?tokens, ?finish,
        Piece.placed_cons.mpr ⟨cutsOff.placed, covers.placed⟩⟩
      case text =>
        rw [cutsOff.starts, left, Piece.texts, Piece.texts, List.flatMap_cons, List.append_assoc]
      case tokens =>
        rw [stream]
        exact congrArg (piece.token :: ·) covers.tokens
      case finish =>
        rw [stream, cutsOff.starts, Position.afterText_append]
        exact covers.finish

/-- Whatever a scanner has in front of it is covered by pieces. -/
theorem Scanner.exists_covers (scanner : Scanner) :
    ∃ pieces blanks, scanner.Covers pieces blanks := by
  obtain ⟨pieces, blanks, cutInto⟩ := scanner.exists_cutInto
  exact ⟨pieces, blanks, cutInto.covers⟩

/-- Asked again and again, a scanner answers the tokens of its stream one by one, and the end of the
source from then on. -/
theorem Scanner.answer_eq (count : Nat) (scanner : Scanner) :
    scanner.answer count = (scanner.stream.tokens[count]?).getD scanner.stream.endToken := by
  induction count generalizing scanner with
  | zero =>
      by_cases blank : ∀ character ∈ scanner.rest, isBlank character = true
      · rw [stream_of_blank blank, answer, next_of_blank blank]
        rfl
      · have more : ∃ character ∈ scanner.rest, isBlank character = false := by simpa using blank
        rw [stream_of_next (next_proper more)]
        rfl
  | succ count inductionHypothesis =>
      rw [answer, inductionHypothesis]
      by_cases blank : ∀ character ∈ scanner.rest, isBlank character = true
      · rw [stream_of_blank blank, next_of_blank blank, stream_of_blank (List.forall_mem_nil _)]
        rfl
      · have more : ∃ character ∈ scanner.rest, isBlank character = false := by simpa using blank
        rw [stream_of_next (next_proper more)]
        rfl

theorem TokenStream.without_eq_self {stream : TokenStream} {hidden : TokenKind -> Bool}
    (shown : ∀ token ∈ stream.tokens, hidden token.kind = false) : stream.without hidden = stream := by
  unfold without
  rw [List.filter_eq_self.mpr fun token member => by rw [shown token member]; rfl]

theorem Reading.hides_nothing (dialect : Dialect) (tabWidth : UInt64) (kind : TokenKind) :
    Reading.hides ⟨dialect, tabWidth, false, false⟩ kind = false := by
  cases kind <;> rfl

/-- Reading a source to its end gives the stream of the source, or fails at a beginning of it behind
which there is no place. -/
theorem Reading.run_cases (reading : Reading) (source : String) :
    (∀ front, front <+: source.toList -> (Position.behind reading.tabWidth front).Fits) ∧
        reading.run source = .ok (reading.stream source) ∨
      (∃ front, front <+: source.toList ∧ ¬(Position.behind reading.tabWidth front).Fits) ∧
        reading.run source = .error .overflow := by
  unfold run
  rcases Position.steps_start reading.tabWidth source.toList with ⟨fits, reached⟩ | ⟨outgrown, failed⟩
  · exact .inl ⟨fits, by rw [reached]; rfl⟩
  · exact .inr ⟨outgrown, by rw [failed]; rfl⟩

/-- A source that is short enough for its tabs is read to its end. -/
theorem Reading.run_of_short (reading : Reading) {source : String}
    (short : source.toList.length * max reading.tabWidth.toNat 1 + 1 < UInt64.size) :
    reading.run source = .ok (reading.stream source) := by
  rcases reading.run_cases source with ⟨-, reached⟩ | ⟨⟨front, isPrefix, outgrown⟩, -⟩
  · exact reached
  · refine absurd ?_ outgrown
    obtain ⟨line, column⟩ := Position.afterText_le reading.tabWidth .start front
    have shorter := Nat.mul_le_mul_right (max reading.tabWidth.toNat 1) isPrefix.length_le
    have fewer := Nat.le_mul_of_pos_right front.length (Nat.le_max_right reading.tabWidth.toNat 1)
    rw [← Position.afterText_start]
    unfold Position.Fits
    change _ ≤ 1 + _ at line
    change _ ≤ 1 + _ at column
    omega

/-- What the tokens of a source cover.  The source is put together from pieces, each a token's spelling
with blanks in front of it, and blanks behind the last one.  Reading the source to its end fails exactly
if there is no place behind some beginning of it.  Otherwise the scanner of the source answers the tokens
of the pieces one by one, asked again and again, and the end of the source from then on; the stream of the
source holds these tokens and one end.  The place of each is told by the text in front of its spelling,
and every token stands behind the ones before it. -/
theorem tokens_cover_source (dialect : Dialect) (tabWidth : UInt64) (source : String) :
    ∃ (pieces : List Piece) (blanks : List Char),
      source.toList = Piece.texts pieces ++ blanks ∧
      (∀ character ∈ blanks, Scanner.isBlank character = true) ∧
      match Reading.run ⟨dialect, tabWidth, false, false⟩ source with
      | .error abort => abort = .overflow ∧
        ∃ front, front <+: source.toList ∧ ¬(Position.behind tabWidth front).Fits
      | .ok stream =>
        (∀ front, front <+: source.toList -> (Position.behind tabWidth front).Fits) ∧
        (∀ front piece back, pieces = front ++ piece :: back ->
          piece.token.position = .behind tabWidth (Piece.texts front ++ piece.blanks)) ∧
        (∀ count, (Scanner.ofSource dialect tabWidth source).answer count =
          ((pieces.map Piece.token)[count]?).getD
            ⟨.behind tabWidth source.toList, .endOfFile, ""⟩) ∧
        stream.toList = pieces.map Piece.token ++ [⟨.behind tabWidth source.toList, .endOfFile, ""⟩] ∧
        (stream.toList.map Token.position).Pairwise Position.Before := by
  let scanner := Scanner.ofSource dialect tabWidth source
  let reading : Reading := ⟨dialect, tabWidth, false, false⟩
  obtain ⟨pieces, blanks, covers⟩ := scanner.exists_covers
  have finish : scanner.stream.endToken = ⟨.behind tabWidth source.toList, .endOfFile, ""⟩ := by
    rw [TokenStream.endToken, covers.finish, ← Position.afterText_start]
    rfl
  have nothingHidden : reading.stream source = scanner.stream :=
    TokenStream.without_eq_self fun token _ => Reading.hides_nothing dialect tabWidth token.kind
  have tokens : scanner.stream.toList =
      pieces.map Piece.token ++ [⟨.behind tabWidth source.toList, .endOfFile, ""⟩] := by
    rw [TokenStream.toList, covers.tokens, finish]
  refine ⟨pieces, blanks, covers.text, covers.blank, ?_⟩
  rcases reading.run_cases source with ⟨fits, reached⟩ | ⟨outgrown, failed⟩
  case inr =>
    rw [failed]
    exact ⟨rfl, outgrown⟩
  rw [reached]
  refine ⟨fits, ?place, ?answers, ?stream, ?increasing⟩
  case place =>
    intro front piece back split
    rw [← Position.afterText_start]
    exact covers.placed front piece back split
  case answers =>
    intro count
    rw [Scanner.answer_eq, covers.tokens, finish]
  case stream => rw [nothingHidden, tokens]
  case increasing =>
    have ordered := covers.placed.pairwise blanks
    rw [nothingHidden, tokens, List.map_append, List.map_map, ← Position.afterText_start]
    rw [← covers.text] at ordered
    exact ordered

/-- A name behind 2049 very wide tabs stands further right than a word can tell, so it is not read. -/
theorem wide_tabs_overflow :
    Position.behind 9007199254740991 (List.replicate 2049 '\t') = ⟨1, 18455751272964290560⟩ ∧
      Reading.run ⟨.jack, 9007199254740991, false, false⟩
        (String.ofList (List.replicate 2049 '\t' ++ ['a'])) = .error .overflow := by
  have place : Position.behind 9007199254740991 (List.replicate 2049 '\t') =
      ⟨1, 18455751272964290560⟩ := by
    rw [← Position.afterText_start, Position.afterText_tabs]
    rfl
  have outgrown : ¬(Position.behind 9007199254740991 (List.replicate 2049 '\t')).Fits := by
    rw [place]
    decide
  refine ⟨place, ?_⟩
  rcases Reading.run_cases ⟨.jack, 9007199254740991, false, false⟩
    (String.ofList (List.replicate 2049 '\t' ++ ['a'])) with ⟨fits, -⟩ | ⟨-, failed⟩
  · refine absurd (fits _ ?_) outgrown
    rw [String.toList_ofList]
    exact List.prefix_append _ _
  · exact failed

end HackToolchain
