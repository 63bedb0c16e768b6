import HackToolchain.Proofs.Token.Likeness

namespace HackToolchain

/-!
# Sources that are read alike

Streams of tokens are alike if their tokens are, and they are cut into lines that are alike.  Where a
reader of lines does not tell such lines apart, what comes of the two sources is the same: either the
same items are read from both, or both are refused with diagnostics that correspond one by one.

A source and the same with other line ends have streams that are alike, as long as comments are left
out, and every source is like itself.
-/

/-! ## Outcomes -/

/-- Both readings answer the same value, or both refuse, with diagnostics that are related one by
one. -/
inductive SameOutcome (like : Diagnostic -> Diagnostic -> Prop) :
    Except (List Diagnostic) α -> Except (List Diagnostic) α -> Prop where
  | accepts (value : α) : SameOutcome like (.ok value) (.ok value)
  | refuses {found others : List Diagnostic} (each : List.Forall₂ like found others) :
      SameOutcome like (.error found) (.error others)

/-- Diagnostics at the same place, whatever they say. -/
def Diagnostic.SamePlace (found shown : Diagnostic) : Prop := found.position = shown.position

section

variable {like weaker : Diagnostic -> Diagnostic -> Prop}

theorem SameOutcome.mono {outcome other : Except (List Diagnostic) α}
    (same : SameOutcome like outcome other)
    (implied : ∀ found shown, like found shown -> weaker found shown) :
    SameOutcome weaker outcome other := by
  cases same with
  | accepts value => exact .accepts value
  | refuses each => exact .refuses (each.imp implied)

theorem SameOutcome.complaints {outcome other : Except (List Diagnostic) α}
    (same : SameOutcome like outcome other) :
    List.Forall₂ like (complaintsOf outcome) (complaintsOf other) := by
  cases same with
  | accepts value => exact .nil
  | refuses each => exact each

theorem SameOutcome.values {outcome other : Except (List Diagnostic) α}
    (same : SameOutcome like outcome other) : Option.Rel Eq outcome.toOption other.toOption := by
  cases same with
  | accepts value => exact .some rfl
  | refuses each => exact .none

/-- What is refused like itself is told with messages on one line. -/
theorem SameOutcome.isOneLine {outcome : Except (List Diagnostic) α}
    (alike : SameOutcome Diagnostic.Alike outcome outcome) {found : List Diagnostic}
    (refused : outcome = .error found) :
    ∀ diagnostic ∈ found, IsOneLine diagnostic.message.toList := by
  subst refused
  cases alike with
  | refuses each => exact fun diagnostic member => (List.forall₂_same.mp each diagnostic member).oneLine

/-- Verdicts that are the same one by one are gathered to the same outcome. -/
theorem sameOutcome_gathered {verdicts others : List (Except (List Diagnostic) α)}
    (each : List.Forall₂ (SameOutcome like) verdicts others) :
    SameOutcome like (gathered verdicts) (gathered others) := by
  have complaints : List.Forall₂ like (verdicts.flatMap complaintsOf) (others.flatMap complaintsOf) :=
    List.rel_flatMap each fun _ _ same => same.complaints
  have items : List.Forall₂ Eq (verdicts.filterMap Except.toOption) (others.filterMap Except.toOption) :=
    List.rel_filterMap (fun _ _ same => same.values) each
  rw [List.forall₂_eq_eq_eq] at items
  unfold gathered
  rw [items]
  generalize verdicts.flatMap complaintsOf = found at complaints
  generalize others.flatMap complaintsOf = shown at complaints
  cases complaints with
  | nil => exact .accepts _
  | cons first rest => exact .refuses (.cons first rest)

end

/-- What is refused is told the complaints of all verdicts. -/
theorem gathered_eq_error {verdicts : List (Except (List Diagnostic) α)} {found : List Diagnostic}
    (refused : gathered verdicts = .error found) : found = verdicts.flatMap complaintsOf := by
  unfold gathered at refused
  split at refused
  · cases refused
  · cases refused
    rfl

/-! ## Streams and lines -/

/-- Streams whose tokens are alike one by one. -/
structure TokenStream.Alike (dialect : Dialect) (stream other : TokenStream) : Prop where
  tokens : List.Forall₂ (Token.Alike dialect) stream.tokens other.tokens
  finish : stream.finish = other.finish

/-- Lines whose tokens are alike one by one. -/
structure TokenLine.Alike (dialect : Dialect) (line other : TokenLine) : Prop where
  tokens : List.Forall₂ (Token.Alike dialect) line.tokens other.tokens
  ending : Token.Alike dialect line.ending other.ending

variable {dialect : Dialect}

theorem Reading.alike_self (reading : Reading) (source : String) :
    (reading.stream source).Alike reading.dialect (reading.stream source) :=
  ⟨List.forall₂_same.mpr fun _ member => .refl (Reading.keeps_of_mem member), rfl⟩

/-- Line ends do not matter where comments are left out. -/
theorem Reading.alike_returned (reading : Reading) (skips : reading.skipsComments = true)
    {source : String} (noReturn : '\r' ∉ source.toList) :
    (reading.stream source).Alike reading.dialect (reading.stream (returned source)) := by
  rw [reading.stream_returned noReturn]
  refine ⟨List.forall₂_map_right_iff.mpr (List.forall₂_same.mpr fun token member => ?_), rfl⟩
  refine Token.alike_withReturns (Reading.keeps_of_mem member) fun form isComment => ?_
  have shown := (List.mem_filter.mp member).2
  rw [isComment] at shown
  unfold Reading.hides at shown
  rw [skips] at shown
  cases shown

theorem kinds_of_alike {tokens others : List Token}
    (each : List.Forall₂ (Token.Alike dialect) tokens others) :
    tokens.map Token.kind = others.map Token.kind := by
  rw [← List.forall₂_eq_eq_eq, List.forall₂_map_left_iff, List.forall₂_map_right_iff]
  exact each.imp fun _ _ tokens => tokens.kind

/-- Without malformed tokens, streams that are alike are the same. -/
theorem TokenStream.Alike.eq {stream other : TokenStream} (alike : stream.Alike dialect other)
    (wellFormed : .illegal ∉ stream.tokens.map Token.kind) : stream = other := by
  have each : ∀ token ∈ stream.tokens, token.kind ≠ .illegal := fun token member illegal =>
    wellFormed (List.mem_map.mpr ⟨token, member, illegal⟩)
  have tokens : List.Forall₂ Eq stream.tokens other.tokens :=
    ((List.forall₂_and_left _ _).mpr ⟨each, alike.tokens⟩).imp fun _ _ both => both.2.eq both.1
  rw [List.forall₂_eq_eq_eq] at tokens
  rcases stream with ⟨_, _⟩
  rcases other with ⟨_, _⟩
  cases tokens
  cases alike.finish
  rfl

namespace TokenLine

variable {line other : TokenLine}

theorem Alike.first (alike : line.Alike dialect other) :
    Token.Alike dialect (line.tokens.headD line.ending) (other.tokens.headD other.ending) := by
  rcases line with ⟨tokens, ending⟩
  rcases other with ⟨others, otherEnding⟩
  obtain ⟨each, ends⟩ := alike
  dsimp only at each
  cases each with
  | nil => exact ends
  | cons head tail => exact head

theorem Alike.number (alike : line.Alike dialect other) : line.number = other.number :=
  congrArg Position.line alike.first.position

theorem Alike.isFilled (alike : line.Alike dialect other) : line.isFilled = other.isFilled := by
  have tokens := alike.tokens
  unfold TokenLine.isFilled
  generalize line.tokens = first at tokens
  generalize other.tokens = second at tokens
  cases tokens with
  | nil => rfl
  | cons head tail => rfl

theorem Alike.wellFormed (alike : line.Alike dialect other) (wellFormed : line.WellFormed) :
    other.WellFormed where
  nonempty := by
    rw [← List.length_pos_iff, ← alike.tokens.length_eq, List.length_pos_iff]
    exact wellFormed.nonempty
  inside := by
    have kinds := kinds_of_alike alike.tokens
    have inside : ∀ kind ∈ line.tokens.map Token.kind, kind.endsLine = false :=
      List.forall_mem_map.mpr wellFormed.inside
    rw [kinds] at inside
    exact List.forall_mem_map.mp inside
  ends := alike.ending.kind ▸ wellFormed.ends

/-- Tokens that are alike are cut at the same places. -/
theorem alike_cut {atEnd otherEnd : Token} (ends : Token.Alike dialect atEnd otherEnd)
    {tokens others : List Token} (each : List.Forall₂ (Token.Alike dialect) tokens others) :
    List.Forall₂ (TokenLine.Alike dialect) (cut atEnd tokens) (cut otherEnd others) := by
  induction each with
  | nil => exact .cons ⟨.nil, ends⟩ .nil
  | cons first _ inductionHypothesis =>
      rw [cut, cut, ← first.kind]
      split
      · exact .cons ⟨.nil, first⟩ inductionHypothesis
      · revert inductionHypothesis
        generalize cut atEnd _ = lines
        generalize cut otherEnd _ = otherLines
        intro same
        cases same with
        | nil => exact .nil
        | cons head tail => exact .cons ⟨.cons first head.tokens, head.ending⟩ tail

end TokenLine

/-- Sources with streams that are alike have lines that are alike. -/
theorem alike_sourceLines {source other : String}
    (streams : ((lineReading dialect).stream source).Alike dialect
      ((lineReading dialect).stream other)) :
    List.Forall₂ (TokenLine.Alike dialect) (sourceLines dialect source)
      (sourceLines dialect other) := by
  refine List.rel_filter (fun _ _ alike => Bool.eq_iff_iff.mp alike.isFilled)
    (TokenLine.alike_cut ?_ streams.tokens)
  unfold TokenStream.endToken
  rw [← streams.finish]
  exact Token.alike_atEnd _

/-! ## Readings -/

/-- On lines that are alike, a production has the same to say. -/
theorem Production.Alike.verdict {item : Production α} (alike : Alike dialect Eq item item)
    {line other : TokenLine} (lines : line.Alike dialect other) :
    SameOutcome Diagnostic.Alike (item.verdict line) (item.verdict other) := by
  have cursors : Cursor.Alike dialect (.ofStream line.alone false) (.ofStream other.alone false) :=
    Cursor.alike_ofStream (List.rel_append lines.tokens (.cons lines.ending .nil))
      lines.ending.position false
  obtain ⟨answered, left⟩ := alike_wholeLine alike _ _ cursors
  unfold Production.verdict
  rw [lines.number]
  revert answered left
  rcases item.wholeLine (Cursor.ofStream line.alone false) with ⟨answer, behind⟩
  rcases item.wholeLine (Cursor.ofStream other.alone false) with ⟨otherAnswer, otherBehind⟩
  intro answered left
  cases answered with
  | none => exact .refuses left.recorded
  | some same =>
      cases same
      exact .accepts _

/-- Where lines that are alike have the same verdict, sources that are alike have the same outcome. -/
theorem sameOutcome_readLines {item : Production α} (keeps : item.KeepsToLine)
    {like : Diagnostic -> Diagnostic -> Prop} {source other : String}
    (streams : ((lineReading dialect).stream source).Alike dialect
      ((lineReading dialect).stream other))
    (verdicts : ∀ line ∈ sourceLines dialect source, ∀ otherLine, line.Alike dialect otherLine ->
      SameOutcome like (item.verdict line) (item.verdict otherLine)) :
    SameOutcome like (readLines dialect item source) (readLines dialect item other) := by
  rw [readLines_eq_gathered dialect source keeps, readLines_eq_gathered dialect other keeps]
  apply sameOutcome_gathered
  rw [List.forall₂_map_left_iff, List.forall₂_map_right_iff]
  have lines := (List.forall₂_and_left _ _).mpr ⟨fun _ member => member, alike_sourceLines streams⟩
  exact lines.imp fun line otherLine both => verdicts line both.1 otherLine both.2

end HackToolchain
