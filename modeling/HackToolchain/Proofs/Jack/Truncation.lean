import HackToolchain.Proofs.Jack.Grammar
import HackToolchain.Proofs.Token.Truncation

namespace HackToolchain
namespace Jack

/-!
# Classes that are cut short

A class ends with the brace that closes it, and no class goes on where another one has ended: reading the
members of a class stops at one place, whatever stands behind it.  So the tokens in front of the closing
brace of a class are not a class, nor are fewer of them.

A source that is cut short in front of that brace has such tokens, and maybe one more, of the piece with
the cut in it.  That one is no brace, so it does not end a class either.
-/

/-! ## Spellings -/

/-- No class goes on where another one has ended. -/
theorem Class.nil_of_spelledBy_append {tree longer : Class} {tokens more : List Token}
    (wellFormed : tree.WellFormed) (longerWellFormed : longer.WellFormed)
    (spelled : tree.SpelledBy tokens) (longerSpelled : longer.SpelledBy (tokens ++ more)) :
    more = [] := by
  have plain := Class.map_unplaced_of_spelledBy longerWellFormed longerSpelled
  obtain ⟨members, declarations, subroutines, spells⟩ := spelled
  obtain ⟨others, otherDeclarations, otherSubroutines, longerSpells⟩ := longerSpelled
  let body := members.flatMap memberSpelling ++ [.ofMark .rightBrace]
  let otherBody := others.flatMap memberSpelling ++ [.ofMark .rightBrace]
  have same : body ++ more = otherBody := by
    rw [spells] at longerSpells
    exact (List.cons.inj (List.cons.inj (List.cons.inj longerSpells).2).2).2
  have length : otherBody.length = body.length + more.length := by rw [← same, List.length_append]
  have ahead : otherBody.map Token.unplaced = otherBody := by
    rw [longerSpells] at plain
    exact (List.cons.inj (List.cons.inj (List.cons.inj plain).2).2).2
  let start : Cursor := ⟨⟨.ofMark .leftBrace :: otherBody, .start⟩, false, 0, #[]⟩
  have shorter : start.stream.tokens.tail.map Token.unplaced = body ++ more := ahead.trans same.symm
  have whole : start.stream.tokens.tail.map Token.unplaced = otherBody ++ [] :=
    ahead.trans (List.append_nil _).symm
  obtain ⟨last, passes, left⟩ := Cursor.exists_passes shorter
  obtain ⟨otherLast, otherPasses, otherLeft⟩ := Cursor.exists_passes whole
  obtain ⟨_, _, -, -, done⟩ := members_complete members otherBody.length passes
    (declarations ▸ wellFormed.declarations) (subroutines ▸ wellFormed.subroutines) (by
      rw [length, List.length_append, List.length_singleton]
      omega)
  obtain ⟨_, _, -, -, otherDone⟩ := members_complete others otherBody.length otherPasses
    (otherDeclarations ▸ longerWellFormed.declarations)
    (otherSubroutines ▸ longerWellFormed.subroutines) (by
      rw [List.length_append, List.length_singleton]
      exact Nat.lt_succ_self _)
  -- Both readings start at one place, so they end at one place.
  rw [done] at otherDone
  cases otherDone
  exact left.symm.trans otherLeft

/-- The last token of a class is a closing brace. -/
theorem Class.getLast?_of_spelledBy {tree : Class} {tokens : List Token} (spelled : tree.SpelledBy tokens) :
    tokens.getLast? = some (.ofMark .rightBrace) := by
  obtain ⟨members, -, -, rfl⟩ := spelled
  let front : List Token := .ofKeyword .«class» :: .ofName tree.name :: .ofMark .leftBrace ::
    members.flatMap memberSpelling
  change (front ++ [Token.ofMark .rightBrace]).getLast? = _
  exact List.getLast?_concat

/-! ## Sources -/

/-- The tokens that are left in where class sources are read. -/
def shownTokens (tokens : List Token) : List Token :=
  tokens.filter fun token => !reading.hides token.kind

theorem shownTokens_append (first second : List Token) :
    shownTokens (first ++ second) = shownTokens first ++ shownTokens second := List.filter_append ..

/-- A token is shown or not. -/
theorem shownTokens_toList (torn : Option Token) :
    shownTokens torn.toList = [] ∨ ∃ token ∈ torn, shownTokens torn.toList = [token] := by
  cases torn with
  | none => exact .inl rfl
  | some token =>
      cases hides : reading.hides token.kind with
      | true => exact .inl (List.filter_cons_of_neg (by simp [hides]))
      | false => exact .inr ⟨token, rfl, List.filter_cons_of_pos (by simp [hides])⟩

/-- The place where a class ends in the pieces of its source: behind its closing brace nothing is shown. -/
theorem exists_closing {tree : Class} {pieces : List Piece}
    (spelled : tree.SpelledBy ((shownTokens (pieces.map Piece.token)).map Token.unplaced)) :
    ∃ before closing after, pieces = before ++ closing :: after ∧
      closing.token.unplaced = .ofMark .rightBrace ∧
      shownTokens (pieces.map Piece.token) =
        shownTokens (before.map Piece.token) ++ [closing.token] := by
  let isShown := fun piece : Piece => !reading.hides piece.token.kind
  have onPieces (some : List Piece) :
      shownTokens (some.map Piece.token) = (some.filter isShown).map Piece.token := List.filter_map
  obtain ⟨front, split⟩ := List.getLast?_eq_some_iff.mp (Class.getLast?_of_spelledBy spelled)
  rw [onPieces, List.map_map] at split
  obtain ⟨shown, ends, inOrder, -, last⟩ := List.map_eq_append_iff.mp split
  obtain ⟨closing, rfl, closes⟩ := List.map_eq_singleton_iff.mp last
  obtain ⟨first, rest, rfl, shownFirst, shownRest⟩ := List.filter_eq_append_iff.mp inOrder
  obtain ⟨hidden, after, rfl, notShown, -, none⟩ := List.filter_eq_cons_iff.mp shownRest
  refine ⟨first ++ hidden, closing, after, (List.append_assoc ..).symm, closes, ?_⟩
  have silent : hidden.filter isShown = [] := by
    rw [List.filter_eq_nil_iff]
    exact notShown
  rw [onPieces, onPieces, inOrder, List.filter_append, shownFirst, silent, List.append_nil,
    List.map_append]
  rfl

/-- No class ends with what is left of a source that is cut short in front of its closing brace. -/
theorem not_spelledBy_of_shortened {tree other : Class} (wellFormed : tree.WellFormed)
    (otherWellFormed : other.WellFormed) {before kept : List Piece} {closing : Token}
    {torn : Option Token}
    (spelled : tree.SpelledBy
      ((shownTokens (before.map Piece.token) ++ [closing]).map Token.unplaced))
    (keeps : kept <+: before) (noBrace : ∀ token ∈ torn, token.kind ≠ .mark .rightBrace) :
    ¬ other.SpelledBy ((shownTokens (kept.map Piece.token ++ torn.toList)).map Token.unplaced) := by
  intro otherSpelled
  rw [shownTokens_append, List.map_append] at otherSpelled
  rcases shownTokens_toList torn with nothing | ⟨token, member, one⟩
  · -- The cut is between the tokens that are shown, so what is left goes on to the closing brace.
    obtain ⟨dropped, rfl⟩ := keeps
    rw [nothing, List.map_nil, List.append_nil] at otherSpelled
    have split : shownTokens ((kept ++ dropped).map Piece.token) ++ [closing] =
        shownTokens (kept.map Piece.token) ++ (shownTokens (dropped.map Piece.token) ++ [closing]) := by
      rw [List.map_append, shownTokens_append, List.append_assoc]
    rw [split, List.map_append] at spelled
    have none := Class.nil_of_spelledBy_append otherWellFormed wellFormed otherSpelled spelled
    simp at none
  · have last := Class.getLast?_of_spelledBy otherSpelled
    rw [one, List.map_singleton, List.getLast?_concat] at last
    exact noBrace token member (congrArg Token.kind (Option.some.inj last))

/-- A source of a class goes up to a closing brace, and nothing that ends in front of that brace is the
source of a class.  The brace is the last token of the source. -/
theorem shortened_is_refused {source : String} {tree : Class} (parsed : parse source = .ok tree) :
    ∃ body trailing, source.toList = body ++ Mark.rightBrace.character :: trailing ∧
      (reading.stream source).tokens.getLast? =
        some ⟨.behind Scanner.defaultTabWidth body, .mark .rightBrace, "\x7d"⟩ ∧
      ∀ front, front <+: body ->
        ∃ diagnostics, parse (String.ofList front) = .error diagnostics := by
  let scanner := Scanner.ofSource .jack Scanner.defaultTabWidth source
  obtain ⟨wellFormed, spelled⟩ := parse_sound parsed
  obtain ⟨pieces, blanks, cutInto⟩ := scanner.exists_cutInto
  have covers := cutInto.covers
  have tokens : (reading.stream source).tokens = shownTokens (pieces.map Piece.token) :=
    congrArg shownTokens covers.tokens
  rw [tokens] at spelled ⊢
  obtain ⟨before, closing, after, rfl, closes, shown⟩ := exists_closing spelled
  rw [shown] at spelled ⊢
  have kind : closing.token.kind = .mark .rightBrace := congrArg Token.kind closes
  have literal : closing.token.literal = "\x7d" := congrArg Token.literal closes
  have spelling : closing.spelling = [Mark.rightBrace.character] := by
    have spells := closing.spells
    rw [kind, literal] at spells
    exact spells.of_mark
  refine ⟨Piece.texts before ++ closing.blanks, Piece.texts after ++ blanks, ?text, ?place, ?refused⟩
  case text =>
    have text : source.toList = Piece.texts (before ++ closing :: after) ++ blanks := covers.text
    rw [text, Piece.texts_append_cons, spelling]
    rfl
  case place =>
    have placed : closing.token.position = .behind Scanner.defaultTabWidth
        (Piece.texts before ++ closing.blanks) := by
      rw [← Position.afterText_start]
      exact covers.placed before closing after rfl
    rw [List.getLast?_concat, ← placed, ← kind, ← literal]
  case refused =>
    intro front isPrefix
    obtain ⟨kept, torn, keeps, noBrace, left⟩ := cutInto.shortened isPrefix
    cases outcome : parse (String.ofList front) with
    | error diagnostics => exact ⟨diagnostics, rfl⟩
    | ok other =>
        obtain ⟨otherWellFormed, otherSpelled⟩ := parse_sound outcome
        have same : (reading.stream (String.ofList front)).tokens =
            shownTokens (kept.map Piece.token ++ torn.toList) := by
          have start : Scanner.ofSource .jack Scanner.defaultTabWidth (String.ofList front) =
              scanner.past [] front := by
            unfold Scanner.ofSource
            rw [String.toList_ofList]
            rfl
          rw [← left, ← start]
          rfl
        rw [same] at otherSpelled
        exact absurd otherSpelled
          (not_spelledBy_of_shortened wellFormed otherWellFormed spelled keeps noBrace)

/-- Braces in strings and comments do not end a class, wherever it is cut short. -/
theorem quoted_braces_do_not_end :
    let source := "class Seal \x7b function void end() \x7b do Output.print(\"\x7d\"); return; \x7d " ++
      "/* \x7d */ \x7d // \x7d"
    ∃ tree, parse source = .ok tree ∧
      ∃ body trailing, source.toList = body ++ Mark.rightBrace.character :: trailing ∧
        (reading.stream source).tokens.getLast? =
          some ⟨.behind Scanner.defaultTabWidth body, .mark .rightBrace, "\x7d"⟩ ∧
        ∀ front, front <+: body ->
          ∃ diagnostics, parse (String.ofList front) = .error diagnostics := by
  intro source
  have accepted : (parse source).isOk = true := by decide +kernel
  cases parsed : parse source with
  | error diagnostics =>
      rw [parsed] at accepted
      cases accepted
  | ok tree => exact ⟨tree, rfl, shortened_is_refused parsed⟩

end Jack
end HackToolchain
