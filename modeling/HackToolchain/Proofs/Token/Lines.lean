import HackToolchain.Proofs.Token.Passing
import HackToolchain.Proofs.Token.Pieces

namespace HackToolchain

/-!
# Reading what was written line by line

A text that puts one item on every line is read back into these items, each with the number of its
line.  For this it is enough to look at one line at a time: the line is scanned into tokens that stay
on it, and the production of the items reads them from the first to the last.  A line that holds only
a comment adds no item, but is counted.

The assembler and the reader of the stack language are both instances of this.
-/

namespace Cursor

variable {start last : Cursor} {front : List Token}

/-- Nothing has been recorded, and nothing will be unless a production complains. -/
structure Quiet (cursor : Cursor) : Prop where
  silent : cursor.diagnostics = #[]
  trusting : cursor.reportsAnomalies = false

theorem Quiet.notice (quiet : start.Quiet) (token : Token) : start.notice token = start := by
  unfold Cursor.notice
  rw [quiet.trusting]
  rfl

theorem Quiet.advance (quiet : start.Quiet) : start.advance.Quiet := by
  have moved : Quiet { start with stream := start.stream.tail, moves := start.moves + 1 } :=
    ⟨quiet.silent, quiet.trusting⟩
  unfold Cursor.advance
  rw [moved.notice]
  exact moved

theorem Quiet.passes (quiet : start.Quiet) (passes : start.Passes front last) : last.Quiet := by
  induction front generalizing start with
  | nil =>
      cases passes
      exact quiet
  | cons token rest inductionHypothesis => exact inductionHypothesis quiet.advance passes.2.2

theorem quiet_ofStream (stream : TokenStream) : (ofStream stream false).Quiet := by
  have fresh : Quiet ⟨stream, false, 0, #[]⟩ := ⟨rfl, rfl⟩
  unfold ofStream
  dsimp only
  rw [fresh.notice, fresh.notice]
  exact fresh

/-- What is passed is what is dropped. -/
theorem Passes.drop (passes : start.Passes front last) :
    last.stream.tokens = start.stream.tokens.drop front.length := by
  induction front generalizing start with
  | nil =>
      cases passes
      rfl
  | cons token rest inductionHypothesis =>
      rw [inductionHypothesis passes.2.2, advance_tokens, List.drop_tail]
      rfl

theorem Passes.advanceBy (passes : start.Passes front last) :
    start.advanceBy front.length = last := by
  induction front generalizing start with
  | nil => exact passes.symm
  | cons token rest inductionHypothesis =>
      rw [List.length_cons, advanceBy_succ]
      exact inductionHypothesis passes.2.2

/-- Tokens that do not end the line are passed up to the end of the line. -/
theorem Passes.takeWhile (passes : start.Passes front last)
    (open_ : ∀ token ∈ front, token.kind.endsLine = false)
    (ends : last.lookahead.kind.endsLine = true) :
    (start.stream.tokens.tail.takeWhile fun token => !token.kind.endsLine).map Token.unplaced =
      front := by
  have left : last.stream.tokens.tail = start.stream.tokens.tail.drop front.length := by
    rw [passes.drop, List.tail_drop, List.drop_tail]
  have taken : (start.stream.tokens.tail.take front.length).map Token.unplaced = front := by
    rw [List.map_take, passes.tokens, List.take_left]
  have stops : Stops (fun token : Token => !token.kind.endsLine) last.stream.tokens.tail := by
    intro token member
    rcases tokens : last.stream.tokens.tail with _ | ⟨next, rest⟩
    · rw [tokens] at member
      cases member
    · rw [tokens] at member
      cases member
      rw [lookahead_of_tokens tokens] at ends
      exact congrArg not ends
  have split := List.take_append_drop front.length start.stream.tokens.tail
  rw [← left] at split
  rw [← split, takeWhile_of_stops stops, List.takeWhile_eq_self_iff.mpr, taken]
  intro token member
  have notEnd := open_ token.unplaced (taken ▸ List.mem_map_of_mem member)
  exact congrArg not notEnd

end Cursor

/-! ## Items -/

/-- Standing on the first token of a line, a production reads it to its end. -/
def Production.ReadsLine (item : Production α) (first : Token) (others : List Token) (value : α) :
    Prop :=
  ∀ start last : Cursor, start.current.unplaced = first -> start.Passes others last ->
    last.lookahead.kind.endsLine = true -> item start = (some value, last)

/-- Tokens of a source, line by line from the start or the end of one of its lines, and the items that
are to be read. -/
inductive HoldsLines (item : Production α) : List Token -> List (Located α) -> Prop where
  | done : HoldsLines item [] []
  | newline {token : Token} {tokens : List Token} {items : List (Located α)}
      (isNewline : token.kind = .newline) (rest : HoldsLines item tokens items) :
      HoldsLines item (token :: tokens) items
  | item {first newline : Token} {others tokens : List Token} {value : α} {items : List (Located α)}
      (starts : first.kind.endsLine = false)
      (reads : item.ReadsLine first.unplaced (others.map Token.unplaced) value)
      (isNewline : newline.kind = .newline) (rest : HoldsLines item (newline :: tokens) items) :
      HoldsLines item (first :: (others ++ newline :: tokens))
        (⟨value, first.position.line⟩ :: items)

/-- A production that reads a line succeeds on it together with its end. -/
theorem wholeLine_eq {item : Production α} {first newline : Token} {others tokens : List Token}
    {value : α} (reads : item.ReadsLine first.unplaced (others.map Token.unplaced) value)
    (isNewline : newline.kind = .newline) {cursor : Cursor} (quiet : cursor.Quiet)
    (here : cursor.stream.tokens = first :: (others ++ newline :: tokens)) :
    ∃ behind : Cursor, behind.Quiet ∧ behind.stream.tokens = newline :: tokens ∧
      (do
        let value ← item
        Production.expectEndOfLine
        return value : Production α) cursor = (some value, behind) := by
  have current := Cursor.current_of_tokens here
  have ahead : cursor.stream.tokens.tail.map Token.unplaced =
      others.map Token.unplaced ++ (newline :: tokens).map Token.unplaced := by
    rw [here, List.tail_cons, List.map_append]
  obtain ⟨last, passes, -⟩ := Cursor.exists_passes ahead
  have left : last.stream.tokens.tail = newline :: tokens := by
    rw [passes.drop, here, List.length_map, List.tail_drop, List.drop_succ_cons, List.drop_left]
  have ends : last.lookahead.kind.endsLine = true := by
    rw [Cursor.lookahead_of_tokens left, isNewline]
    rfl
  have whole : (do
      let value ← item
      Production.expectEndOfLine
      return value : Production α) cursor = (some value, last.advance) := by
    rw [Production.andThen_eq (reads cursor last (congrArg Token.unplaced current) passes ends)]
    rw [Production.andThen_eq (Production.expectEndOfLine_eq_some.mpr ⟨ends, rfl⟩)]
    rfl
  exact ⟨last.advance, (quiet.passes passes).advance, Cursor.advance_tokens.trans left, whole⟩

/-- The items are read, and nothing is recorded. -/
theorem readItems_eq {item : Production α} {tokens : List Token} {items : List (Located α)}
    (holds : HoldsLines item tokens items) {cursor : Cursor} (quiet : cursor.Quiet)
    (here : cursor.stream.tokens = tokens) {rounds : Nat} (enough : tokens.length < rounds)
    (before : Array (Located α)) :
    ∃ last : Cursor, last.Quiet ∧
      readItems item rounds cursor before = (before ++ items.toArray, last) := by
  induction holds generalizing cursor rounds before with
  | done =>
      obtain ⟨rounds, rfl⟩ := Nat.exists_eq_succ_of_ne_zero (Nat.ne_zero_of_lt enough)
      have atEnd : cursor.currentIs .endOfFile = true := by
        unfold Cursor.currentIs Cursor.current TokenStream.head
        rw [here]
        rfl
      refine ⟨cursor, quiet, ?_⟩
      unfold readItems
      rw [if_pos atEnd, Array.append_empty]
  | newline isNewline rest inductionHypothesis =>
      rename_i token tokens items
      obtain ⟨rounds, rfl⟩ := Nat.exists_eq_succ_of_ne_zero (Nat.ne_zero_of_lt enough)
      have kind : cursor.current.kind = .newline := by
        rw [Cursor.current_of_tokens here]
        exact isNewline
      have moved : cursor.advance.stream.tokens = tokens := by
        rw [Cursor.advance_tokens, here]
        rfl
      unfold readItems Cursor.currentIs
      rw [kind, if_neg (by decide), if_pos (by decide)]
      exact inductionHypothesis quiet.advance moved (Nat.lt_of_succ_lt_succ enough) before
  | item starts reads isNewline rest inductionHypothesis =>
      rename_i first newline others tokens value items
      obtain ⟨rounds, rfl⟩ := Nat.exists_eq_succ_of_ne_zero (Nat.ne_zero_of_lt enough)
      have current := Cursor.current_of_tokens here
      have notEnd : first.kind ≠ .endOfFile := by
        intro same
        rw [same] at starts
        cases starts
      have notNewline : first.kind ≠ .newline := by
        intro same
        rw [same] at starts
        cases starts
      obtain ⟨behind, stillQuiet, left, whole⟩ := wholeLine_eq reads isNewline quiet here
      have fewer : (newline :: tokens).length < rounds := by
        rw [List.length_cons, List.length_append] at enough
        omega
      obtain ⟨last, lastQuiet, read⟩ := inductionHypothesis stillQuiet left fewer
        (before.push ⟨value, first.position.line⟩)
      refine ⟨last, lastQuiet, ?_⟩
      unfold readItems Cursor.currentIs
      rw [current, if_neg (by simp [notEnd]), if_neg (by simp [notNewline])]
      dsimp only
      rw [whole]
      dsimp only
      rw [read]
      simp

/-! ## Lines of text -/

/-- In front of the text behind its end, a line is scanned into tokens that the production reads to
its value, or holds nothing but a comment. -/
inductive HoldsLine (dialect : Dialect) (item : Production α) (behind text : List Char) :
    Option α -> Prop where
  | item {first : Token} {others : List Token} {value : α}
      (scans : Scans dialect ('\n' :: behind) text (first :: others))
      (open_ : ∀ token ∈ first :: others, token.kind.endsLine = false)
      (reads : item.ReadsLine first others value) : HoldsLine dialect item behind text (some value)
  | comment {comment : Token} {kind : CommentKind}
      (scans : Scans dialect ('\n' :: behind) text [comment]) (isComment : comment.kind = .comment kind) :
      HoldsLine dialect item behind text none

/-- Behind a line and its end the next line begins. -/
theorem Scans.line_past {dialect : Dialect} {behind rest text : List Char} {tokens : List Token}
    (scans : Scans dialect behind text tokens) (scanner : Scanner) :
    (scanner.past (text ++ ['\n']) rest).position.line = scanner.position.line + 1 := by
  rw [← Scanner.past_past scanner text ['\n'] []]
  exact congrArg (· + 1) (Position.line_afterText _ _ scans.oneLine)

/-- The tokens of a line are followed by the token of its end and by what is scanned from the next line
on. -/
theorem Scans.stream_line {dialect : Dialect} {behind text : List Char} {tokens : List Token}
    (scans : Scans dialect ('\n' :: behind) text tokens) {scanner : Scanner}
    (same : scanner.dialect = dialect) (starts : scanner.rest = text ++ '\n' :: behind) :
    ∃ (placed : List Token) (newline : Token), placed.map Token.unplaced = tokens ∧
      (∀ token ∈ placed, token.position.line = scanner.position.line) ∧ newline.kind = .newline ∧
      scanner.stream.tokens =
        placed ++ newline :: (scanner.past (text ++ ['\n']) behind).stream.tokens := by
  obtain ⟨placed, unplaced, lines, streams⟩ := scans.stream same starts
  have cut : Lexeme.ofText (scanner.past text ('\n' :: behind)).dialect '\n' ([] ++ behind) =
      ⟨.newline, ['\n'], ['\n'], behind⟩ := rfl
  have atEnd := Scanner.next_of_cut (by decide) rfl cut
  rw [Scanner.past_past] at atEnd
  have isNewline := congrArg (fun answer => answer.1.kind) atEnd
  dsimp only at isNewline
  have goesOn : (scanner.past text ('\n' :: behind)).next.1.kind ≠ .endOfFile := by
    rw [isNewline]
    exact nofun
  refine ⟨placed, _, unplaced, lines, isNewline, ?_⟩
  rw [streams, Scanner.stream_of_next goesOn, atEnd]

theorem HoldsLine.line_past {dialect : Dialect} {item : Production α} {behind text : List Char}
    {content : Option α} (holds : HoldsLine dialect item behind text content) (scanner : Scanner)
    (rest : List Char) :
    (scanner.past (text ++ ['\n']) rest).position.line = scanner.position.line + 1 := by
  cases holds with
  | item scans _ _ => exact scans.line_past scanner
  | comment scans _ => exact scans.line_past scanner

/-- The tokens that a source of one item per line is read from: all but its comments. -/
def shownTokens (dialect : Dialect) (tokens : List Token) : List Token :=
  tokens.filter fun token => !(lineReading dialect).hides token.kind

theorem shownTokens_comment {dialect : Dialect} {token : Token} {rest : List Token}
    {comment : CommentKind} (isComment : token.kind = .comment comment) :
    shownTokens dialect (token :: rest) = shownTokens dialect rest := by
  apply List.filter_cons_of_neg
  rw [isComment]
  exact nofun

theorem shownTokens_newline {dialect : Dialect} {newline : Token} {rest : List Token}
    (isNewline : newline.kind = .newline) :
    shownTokens dialect (newline :: rest) = newline :: shownTokens dialect rest := by
  apply List.filter_cons_of_pos
  rw [isNewline]
  rfl

/-- Tokens that do not end their line are no comments. -/
theorem shownTokens_open {dialect : Dialect} {line rest : List Token}
    (open_ : ∀ token ∈ line, token.kind.endsLine = false) :
    shownTokens dialect (line ++ rest) = line ++ shownTokens dialect rest := by
  unfold shownTokens
  rw [List.filter_append, List.filter_eq_self.mpr]
  intro token member
  have notEnd := open_ token member
  revert notEnd
  cases token.kind with
  | comment comment => exact nofun
  | newline => exact nofun
  | _ => exact fun _ => rfl

theorem open_of_map {placed tokens : List Token} (unplaced : placed.map Token.unplaced = tokens)
    (open_ : ∀ token ∈ tokens, token.kind.endsLine = false) :
    ∀ token ∈ placed, token.kind.endsLine = false :=
  fun token member => open_ token.unplaced (unplaced ▸ List.mem_map_of_mem member)

/-- The items of numbered lines, each with its number. -/
def itemsOfLines (value : β -> Option α) (lines : List (β × Nat)) : List (Located α) :=
  lines.filterMap fun line => (value line.1).map fun item => ⟨item, line.2⟩

theorem itemsOfLines_some {value : β -> Option α} {entry : β} {item : α} {line : Nat}
    {rest : List (β × Nat)} (has : value entry = some item) :
    itemsOfLines value ((entry, line) :: rest) = ⟨item, line⟩ :: itemsOfLines value rest :=
  List.filterMap_cons_some (by rw [has]; rfl)

theorem itemsOfLines_none {value : β -> Option α} {entry : β} {line : Nat}
    {rest : List (β × Nat)} (has : value entry = none) :
    itemsOfLines value ((entry, line) :: rest) = itemsOfLines value rest :=
  List.filterMap_cons_none (by rw [has]; rfl)

/-- Lines that are numbered from the first one on. -/
theorem itemsOfLines_zipIdx (value : β -> Option α) (entries : List β) :
    itemsOfLines value (entries.zipIdx 1) =
      (entries.mapIdx fun index entry => ⟨entry, index + 1⟩ : List (Located β)).filterMap
        fun line => (value line.item).map fun item => ⟨item, line.line⟩ := by
  unfold itemsOfLines
  rw [List.mapIdx_eq_zipIdx_map, List.filterMap_map, List.zipIdx_succ, List.filterMap_map]
  rfl

variable {dialect : Dialect} {item : Production α} {text : β -> String} {value : β -> Option α}

/-- One line of text is scanned into one line of tokens, in front of those of the next lines. -/
theorem HoldsLine.cons {behind line : List Char} {entry : β} {entries : List (β × Nat)}
    {content : Option α} (holds : HoldsLine dialect item behind line content)
    (has : value entry = content) {scanner : Scanner} (same : scanner.dialect = dialect)
    (starts : scanner.rest = line ++ '\n' :: behind)
    (rest : HoldsLines item (shownTokens dialect (scanner.past (line ++ ['\n']) behind).stream.tokens)
      (itemsOfLines value entries)) :
    HoldsLines item (shownTokens dialect scanner.stream.tokens)
      (itemsOfLines value ((entry, scanner.position.line) :: entries)) := by
  cases holds with
  | item scans open_ reads =>
      rename_i first others item
      obtain ⟨placed, newline, unplaced, lines, isNewline, streams⟩ := scans.stream_line same starts
      cases placed with
      | nil => cases unplaced
      | cons head tail =>
          obtain ⟨rfl, rfl⟩ := List.cons.inj unplaced
          have openPlaced := open_of_map unplaced open_
          rw [itemsOfLines_some has, streams, shownTokens_open openPlaced,
            shownTokens_newline isNewline, ← lines head List.mem_cons_self]
          exact .item (openPlaced head List.mem_cons_self) reads isNewline (.newline isNewline rest)
  | comment scans isComment =>
      obtain ⟨placed, newline, unplaced, -, isNewline, streams⟩ := scans.stream_line same starts
      obtain ⟨head, rfl, rfl⟩ := List.map_eq_singleton_iff.mp unplaced
      have hidden : head.kind = .comment _ := isComment
      rw [itemsOfLines_none has, streams, List.singleton_append, shownTokens_comment hidden,
        shownTokens_newline isNewline]
      exact .newline isNewline rest

/-- Lines of text are scanned into lines of tokens. -/
theorem holdsLines_of_text {entries : List β}
    (holds : ∀ entry ∈ entries, ∀ behind,
      HoldsLine dialect item behind (text entry).toList (value entry))
    {scanner : Scanner} (same : scanner.dialect = dialect)
    (starts : scanner.rest = entries.flatMap fun entry => (text entry).toList ++ ['\n']) :
    HoldsLines item (shownTokens dialect scanner.stream.tokens)
      (itemsOfLines value (entries.zipIdx scanner.position.line)) := by
  induction entries generalizing scanner with
  | nil =>
      rw [Scanner.stream_nil scanner starts]
      exact .done
  | cons entry rest inductionHypothesis =>
      obtain ⟨first, others⟩ := List.forall_mem_cons.mp holds
      rw [List.flatMap_cons, List.append_assoc, List.singleton_append] at starts
      have line := first (rest.flatMap fun entry => (text entry).toList ++ ['\n'])
      have sameBehind : (scanner.past ((text entry).toList ++ ['\n'])
        (rest.flatMap fun entry => (text entry).toList ++ ['\n'])).dialect = dialect := same
      have behind := inductionHypothesis others sameBehind rfl
      rw [line.line_past] at behind
      exact line.cons rfl same starts behind

/-! ## Texts -/

theorem Text.toList_closedLines (texts : List String) :
    (closedLines texts).toList = texts.flatMap fun line => line.toList ++ ['\n'] := by
  have behind (front : String) :
      (texts.foldl (fun text line => text ++ line ++ "\n") front).toList =
        front.toList ++ texts.flatMap fun line => line.toList ++ ['\n'] := by
    induction texts generalizing front with
    | nil => simp
    | cons line rest inductionHypothesis =>
        rw [List.foldl_cons, inductionHypothesis]
        simp
  exact behind ""

/-- What was written line by line is read back, every item with the number of its line. -/
theorem readLines_closedLines {entries : List β}
    (holds : ∀ entry ∈ entries, ∀ behind,
      HoldsLine dialect item behind (text entry).toList (value entry)) :
    readLines dialect item (Text.closedLines (entries.map text)) =
      .ok ((entries.mapIdx fun index entry => ⟨entry, index + 1⟩ : List (Located β)).filterMap
        fun line => (value line.item).map fun item => ⟨item, line.line⟩) := by
  generalize written : Text.closedLines (entries.map text) = source
  have starts : source.toList = entries.flatMap fun entry => (text entry).toList ++ ['\n'] := by
    rw [← written, Text.toList_closedLines, List.flatMap_map]
  have lines := holdsLines_of_text holds
    (rfl : (Scanner.ofSource dialect Scanner.defaultTabWidth source).dialect = dialect) starts
  have here : (Cursor.ofStream ((lineReading dialect).stream source) false).stream.tokens =
      shownTokens dialect (Scanner.ofSource dialect Scanner.defaultTabWidth source).stream.tokens :=
    congrArg TokenStream.tokens (Cursor.ofStream_stream _ _)
  obtain ⟨last, still, read⟩ :=
    readItems_eq lines (Cursor.quiet_ofStream _) here (Nat.lt_succ_self _) #[]
  rw [← here] at read
  have run : runLines dialect item source = (_, last) := read
  unfold readLines Cursor.hasErrors
  rw [run]
  dsimp only
  rw [still.silent, if_neg (by decide), ← itemsOfLines_zipIdx]
  simp [Scanner.ofSource, Position.start]

end HackToolchain
