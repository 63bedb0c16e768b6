import HackToolchain.Proofs.Jack.Members

namespace HackToolchain
namespace Jack

/-!
# The grammar of classes

A class source is read exactly if its tokens spell a well-formed class, and then the answer is that
class up to positions.  Since every well-formed class is read from its spelling, no two of them share
one.

A spelled token is never an anomaly, so a source that spells a class is also free of complaints.
-/

open Production

/-! ## Members -/

theorem classVariableKind?_eq_some {kind : TokenKind} {declares : ClassVariableKind} :
    Source.classVariableKind? kind = some declares ↔ kind = .keyword declares.keyword := by
  constructor
  · intro found
    unfold Source.classVariableKind? at found
    split at found
    · cases found
      rfl
    · cases found
      rfl
    · cases found
  · rintro rfl
    cases declares <;> rfl

theorem subroutineKind?_eq_some {kind : TokenKind} {declares : SubroutineKind} :
    Source.subroutineKind? kind = some declares ↔ kind = .keyword declares.keyword := by
  constructor
  · intro found
    unfold Source.subroutineKind? at found
    split at found
    · cases found
      rfl
    · cases found
      rfl
    · cases found
      rfl
    · cases found
  · rintro rfl
    cases declares <;> rfl

theorem classVariableKind?_subroutine (declares : SubroutineKind) :
    Source.classVariableKind? (.keyword declares.keyword) = none := by
  cases declares <;> rfl

theorem members_sound (rounds : Nat) {declarations : List ClassVariables}
    {subroutines : List Subroutine} {start last : Cursor} (proper : start.Proper)
    (done : Source.members rounds start = (some (declarations, subroutines), last)) :
    ∃ members : List (ClassVariables ⊕ Subroutine),
      members.filterMap Sum.getLeft? = declarations ∧
      members.filterMap Sum.getRight? = subroutines ∧
      start.Passes (members.flatMap memberSpelling ++ [.ofMark .rightBrace]) last ∧
      (∀ declared ∈ declarations, declared.WellFormed) ∧
      ∀ routine ∈ subroutines, routine.WellFormed := by
  induction rounds generalizing start declarations subroutines with
  | zero => exact absurd done exhausted_ne_some
  | succ rounds inductionHypothesis =>
      rcases andThen_eq_some.mp done with ⟨token, _, looks, more⟩
      rcases lookahead_eq_some.mp looks with ⟨rfl, rfl⟩
      dsimp only at more
      cases declares : Source.classVariableKind? start.lookahead.kind with
      | some kind =>
          simp only [declares] at more
          rcases andThen_eq_some.mp more with ⟨⟨⟩, _, moves, more⟩
          cases advance_eq_some.mp moves
          rcases andThen_eq_some.mp more with ⟨declared, _, one, more⟩
          rcases andThen_eq_some.mp more with ⟨⟨others, routines⟩, _, rest, answers⟩
          rcases pure_eq_some.mp answers with ⟨same, rfl⟩
          cases same
          have word := beq_iff_eq.mpr (classVariableKind?_eq_some.mp declares)
          rcases (reads_classVariables kind rounds fun _ => True).sound proper
            (startingOn_eq_some.mpr ⟨word, one⟩) with ⟨passes, -, wellFormed⟩
          rcases inductionHypothesis (passes.proper proper) rest with
            ⟨members, left, right, behind, wellFormedOthers, wellFormedRoutines⟩
          refine ⟨.inl declared :: members, congrArg (declared :: ·) left, right, ?_,
            List.forall_mem_cons.mpr ⟨wellFormed, wellFormedOthers⟩, wellFormedRoutines⟩
          rw [List.flatMap_cons, List.append_assoc]
          exact passes.append behind
      | none =>
          cases found : Source.subroutineKind? start.lookahead.kind with
          | some kind =>
              simp only [declares, found] at more
              rcases andThen_eq_some.mp more with ⟨⟨⟩, _, moves, more⟩
              cases advance_eq_some.mp moves
              rcases andThen_eq_some.mp more with ⟨routine, _, one, more⟩
              rcases andThen_eq_some.mp more with ⟨⟨others, routines⟩, _, rest, answers⟩
              rcases pure_eq_some.mp answers with ⟨same, rfl⟩
              cases same
              rcases subroutine_sound proper (subroutineKind?_eq_some.mp found) one with
                ⟨passes, -, wellFormed⟩
              rcases inductionHypothesis (passes.proper proper) rest with
                ⟨members, left, right, behind, wellFormedOthers, wellFormedRoutines⟩
              refine ⟨.inr routine :: members, left, congrArg (routine :: ·) right, ?_,
                wellFormedOthers, List.forall_mem_cons.mpr ⟨wellFormed, wellFormedRoutines⟩⟩
              rw [List.flatMap_cons, List.append_assoc]
              exact passes.append behind
          | none =>
              simp only [declares, found] at more
              split at more
              · rename_i brace
                rcases andThen_eq_some.mp more with ⟨⟨⟩, _, moves, answers⟩
                cases advance_eq_some.mp moves
                rcases pure_eq_some.mp answers with ⟨same, rfl⟩
                cases same
                exact ⟨[], rfl, rfl, Cursor.passes_mark proper (beq_iff_eq.mp brace),
                  fun _ none => absurd none List.not_mem_nil,
                  fun _ none => absurd none List.not_mem_nil⟩
              · cases more

theorem members_complete (members : List (ClassVariables ⊕ Subroutine)) (rounds : Nat)
    {start last : Cursor}
    (passes : start.Passes (members.flatMap memberSpelling ++ [.ofMark .rightBrace]) last)
    (declarations : ∀ declared ∈ members.filterMap Sum.getLeft?, declared.WellFormed)
    (subroutines : ∀ routine ∈ members.filterMap Sum.getRight?, routine.WellFormed)
    (enough : (members.flatMap memberSpelling).length < rounds) :
    ∃ others routines, others.map ClassVariables.unplaced =
        (members.filterMap Sum.getLeft?).map ClassVariables.unplaced ∧
      routines.map Subroutine.unplaced =
        (members.filterMap Sum.getRight?).map Subroutine.unplaced ∧
      Source.members rounds start = (some (others, routines), last) := by
  induction members generalizing start rounds with
  | nil =>
      cases rounds with
      | zero => exact absurd enough (Nat.not_lt_zero _)
      | succ rounds =>
          have brace : start.lookahead.kind = .mark .rightBrace := passes.kind
          cases passes.2.2
          refine ⟨[], [], rfl, rfl, (andThen_eq (lookahead_eq_some.mpr ⟨rfl, rfl⟩)).trans ?_⟩
          simp only [brace]
          exact andThen_eq (advance_eq_some.mpr rfl)
  | cons member members inductionHypothesis =>
      rw [List.flatMap_cons, List.length_append] at enough
      rw [List.flatMap_cons, List.append_assoc] at passes
      rcases Cursor.passes_append.mp passes with ⟨between, front, behind⟩
      cases rounds with
      | zero => exact absurd enough (Nat.not_lt_zero _)
      | succ rounds =>
          cases member with
          | inl declared =>
              rcases List.forall_mem_cons.mp declarations with ⟨wellFormed, declarations⟩
              have word : start.lookahead.kind = .keyword declared.kind.keyword := front.kind
              have long : 0 < declared.spelling.length := Nat.succ_pos _
              rw [memberSpelling] at enough front
              rcases (reads_classVariables declared.kind rounds fun _ => True).complete front
                ⟨rfl, wellFormed⟩ (Nat.le_of_lt (Nat.lt_of_le_of_lt (Nat.le_add_right _ _) enough))
                True.intro with ⟨other, same, started⟩
              have done := (startingOn_eq_some.mp started).2
              rcases inductionHypothesis rounds behind declarations subroutines (by omega) with
                ⟨others, routines, sameLeft, sameRight, rest⟩
              refine ⟨other :: others, routines, ?_, sameRight,
                (andThen_eq (lookahead_eq_some.mpr ⟨rfl, rfl⟩)).trans ?_⟩
              · have same : other.unplaced = declared.unplaced := same
                rw [List.map_cons, same, sameLeft]
                rfl
              · simp only [classVariableKind?_eq_some.mpr word]
                refine (andThen_eq (advance_eq_some.mpr rfl)).trans ?_
                exact (andThen_eq done).trans (andThen_eq rest)
          | inr routine =>
              rcases List.forall_mem_cons.mp subroutines with ⟨wellFormed, subroutines⟩
              have word : start.lookahead.kind = .keyword routine.kind.keyword := front.kind
              have long : 0 < routine.spelling.length := Nat.succ_pos _
              rw [memberSpelling] at enough front
              have short : routine.spelling.length ≤ rounds + 1 := by omega
              rcases subroutine_complete front wellFormed short with ⟨other, same, done⟩
              rcases inductionHypothesis rounds behind declarations subroutines (by omega) with
                ⟨others, routines, sameLeft, sameRight, rest⟩
              refine ⟨others, other :: routines, sameLeft, ?_,
                (andThen_eq (lookahead_eq_some.mpr ⟨rfl, rfl⟩)).trans ?_⟩
              · rw [List.map_cons, same, sameRight]
                rfl
              · have noVariables : Source.classVariableKind? start.lookahead.kind = none :=
                  word ▸ classVariableKind?_subroutine routine.kind
                simp only [noVariables, subroutineKind?_eq_some.mpr word]
                refine (andThen_eq (advance_eq_some.mpr rfl)).trans ?_
                exact (andThen_eq done).trans (andThen_eq rest)

/-! ## Classes -/

theorem classTree_sound {bound : Nat} {tree : Class} {start last : Cursor} (proper : start.Proper)
    (done : Source.classTree bound start = (some tree, last)) :
    tree.WellFormed ∧ tree.SpelledBy (start.stream.tokens.map Token.unplaced) := by
  rcases andThen_eq_some.mp done with ⟨token, _, here, more⟩
  rcases current_eq_some.mp here with ⟨rfl, rfl⟩
  split at more
  · rename_i word
    have word : start.current.kind = .keyword .«class» := beq_iff_eq.mp word
    rcases andThen_eq_some.mp more with ⟨name, _, names, more⟩
    rcases (reads_name 1 fun _ => True).sound proper names with ⟨named, -⟩
    rcases andThen_eq_some.mp more with ⟨⟨⟩, _, opens, more⟩
    have opened := passes_expectMark (named.proper proper) opens
    have inside := opened.proper (named.proper proper)
    rcases andThen_eq_some.mp more with ⟨⟨declarations, subroutines⟩, between, rest, more⟩
    rcases members_sound bound inside rest with
      ⟨members, left, right, passes, wellFormedDeclarations, wellFormedSubroutines⟩
    rcases andThen_eq_some.mp more with ⟨⟨⟩, _, ends, answers⟩
    rcases pure_eq_some.mp answers with ⟨rfl, rfl⟩
    have whole := named.append (opened.append passes)
    have tokens := whole.tokens
    rw [Cursor.no_more_of_kind (whole.proper proper) (expect_eq_some.mp ends).1] at tokens
    rcases listed : start.stream.tokens with _ | ⟨first, others⟩
    · rw [Cursor.current_of_no_tokens listed] at word
      cases word
    · have current := Cursor.current_of_tokens listed
      have own : start.current.unplaced = .ofKeyword .«class» :=
        Token.unplaced_eq_ofKeyword (proper _ (by rw [listed, current]; exact List.mem_cons_self))
          word
      refine ⟨⟨own, wellFormedDeclarations, wellFormedSubroutines⟩, members, left, right, ?_⟩
      rw [listed] at tokens
      rw [List.map_cons, ← current, own]
      exact congrArg _ (tokens.trans (List.append_nil _))
  · cases more

theorem classTree_complete {bound : Nat} {tree : Class} {start : Cursor}
    (wellFormed : tree.WellFormed)
    (spelled : tree.SpelledBy (start.stream.tokens.map Token.unplaced))
    (short : start.stream.tokens.length ≤ bound) :
    ∃ other last, other.unplaced = tree.unplaced ∧ (start.Clean -> last.Clean) ∧
      Source.classTree bound start = (some other, last) := by
  rcases tree with ⟨token, name, declarations, subroutines⟩
  rcases spelled with ⟨members, rfl, rfl, tokens⟩
  rcases listed : start.stream.tokens with _ | ⟨first, following⟩
  · rw [listed] at tokens
    cases tokens
  · have current := Cursor.current_of_tokens listed
    rw [listed] at tokens short
    rcases List.cons.inj tokens with ⟨word, tokens⟩
    have behindFirst : start.stream.tokens.tail.map Token.unplaced =
        (.ofName name :: enclosed .leftBrace (members.flatMap memberSpelling) .rightBrace) ++ [] := by
      rw [listed, List.append_nil]
      exact tokens
    rcases Cursor.exists_passes behindFirst with ⟨between, passes, left⟩
    have lengths := congrArg List.length tokens
    rw [List.length_map, List.length_cons, length_enclosed] at lengths
    rw [List.length_cons] at short
    rcases members_complete members bound passes.2.2.2.2 wellFormed.declarations
      wellFormed.subroutines (by omega) with ⟨others, routines, sameLeft, sameRight, rest⟩
    have ending : between.lookahead.kind = .endOfFile := by
      have none := List.map_eq_nil_iff.mp left
      unfold Cursor.lookahead TokenStream.head TokenStream.tail
      rw [none]
      rfl
    refine ⟨⟨start.current, name, others, routines⟩, between.advance, ?_,
      fun clean => (clean.passes passes).advance, ?_⟩
    · have own : start.current.unplaced = token.unplaced :=
        (current ▸ word).trans wellFormed.token.symm
      simp only [Class.unplaced, own, sameLeft, sameRight]
    · have kind : (start.current.kind == .keyword .«class») = true := by
        rw [current, show first.kind = .keyword .«class» from congrArg Token.kind word]
        rfl
      refine (andThen_eq (current_eq_some.mpr ⟨rfl, rfl⟩)).trans ?_
      rw [if_pos kind]
      refine (andThen_eq (name_of_passes passes)).trans ?_
      refine (andThen_eq (expectMark_of_passes passes.2.2)).trans ((andThen_eq rest).trans ?_)
      exact andThen_eq (expect_eq_some.mpr ⟨ending, rfl⟩)

/-! ## Sources -/

/-- Spellings hold no positions. -/
theorem Class.map_unplaced_of_spelledBy {tree : Class} {tokens : List Token}
    (wellFormed : tree.WellFormed) (spelled : tree.SpelledBy tokens) :
    tokens.map Token.unplaced = tokens := by
  refine (List.map_congr_left fun token member => ?_).trans (List.map_id tokens)
  exact (Class.allPlain_of_spelledBy wellFormed spelled token member).position

/-- Two well-formed classes with one spelling differ at most in positions. -/
theorem Class.unplaced_eq_of_spelledBy {tree other : Class} {tokens : List Token}
    (wellFormed : tree.WellFormed) (otherWellFormed : other.WellFormed)
    (spelled : tree.SpelledBy tokens) (otherSpelled : other.SpelledBy tokens) :
    tree.unplaced = other.unplaced := by
  have plain := Class.map_unplaced_of_spelledBy wellFormed spelled
  let start : Cursor := ⟨⟨tokens, .start⟩, false, 0, #[]⟩
  have spelled : tree.SpelledBy (start.stream.tokens.map Token.unplaced) := plain.symm ▸ spelled
  have otherSpelled : other.SpelledBy (start.stream.tokens.map Token.unplaced) :=
    plain.symm ▸ otherSpelled
  rcases classTree_complete wellFormed spelled (Nat.le_refl _) with ⟨first, _, same, -, done⟩
  rcases classTree_complete otherWellFormed otherSpelled (Nat.le_refl _) with
    ⟨second, _, otherSame, -, otherDone⟩
  rw [done] at otherDone
  cases otherDone
  exact same.symm.trans otherSame

/-- Where the reading of a source starts. -/
def beginning (source : String) : Cursor := Cursor.ofStream (reading.stream source) true

theorem beginning_stream (source : String) :
    (beginning source).stream = reading.stream source := Cursor.ofStream_stream _ _

theorem beginning_proper (source : String) : (beginning source).Proper := by
  unfold Cursor.Proper
  rw [beginning_stream]
  exact reading.proper_stream source

theorem run_eq_some {source : String} {tree : Class} {last : Cursor} :
    run source = (some tree, last) ↔
      Source.classTree ((beginning source).remaining + 1) (beginning source) = (some tree, last) ∧
        last.hasErrors = false := by
  unfold run beginning
  dsimp only
  rcases Source.classTree _ (Cursor.ofStream (reading.stream source) true) with ⟨answer, cursor⟩
  cases answer with
  | none => exact ⟨nofun, nofun⟩
  | some found =>
      dsimp only
      by_cases errors : cursor.hasErrors = true
      · rw [if_pos errors]
        refine ⟨nofun, ?_⟩
        rintro ⟨⟨⟩, silent⟩
        rw [errors] at silent
        cases silent
      · rw [if_neg errors]
        refine ⟨?_, And.left⟩
        rintro ⟨⟩
        exact ⟨rfl, Bool.eq_false_iff.mpr errors⟩

theorem parse_eq_ok {source : String} {tree : Class} :
    parse source = .ok tree ↔ ∃ last, run source = (some tree, last) := by
  unfold parse
  rcases run source with ⟨answer, cursor⟩
  cases answer with
  | none => exact ⟨nofun, nofun⟩
  | some found =>
      constructor
      · rintro ⟨⟩
        exact ⟨cursor, rfl⟩
      · rintro ⟨_, ⟨⟩⟩
        rfl

/-- A tree that is parsed is well formed and accounts for every token of its source. -/
theorem parse_sound {source : String} {tree : Class} (parsed : parse source = .ok tree) :
    tree.WellFormed ∧ tree.SpelledBy ((reading.stream source).tokens.map Token.unplaced) := by
  rcases parse_eq_ok.mp parsed with ⟨last, ran⟩
  have sound := classTree_sound (beginning_proper source) (run_eq_some.mp ran).1
  rw [beginning_stream] at sound
  exact sound

/-- A source whose tokens spell a well-formed class is parsed. -/
theorem parse_complete {source : String} {tree : Class} (wellFormed : tree.WellFormed)
    (spelled : tree.SpelledBy ((reading.stream source).tokens.map Token.unplaced)) :
    ∃ parsed, parse source = .ok parsed ∧ parsed.unplaced = tree.unplaced := by
  have classified (token : Token) (member : token ∈ (reading.stream source).tokens) :
      token.kind.isAnomaly = false :=
    (Class.allPlain_of_spelledBy wellFormed spelled _ (List.mem_map_of_mem member)).classified
  have clean : (beginning source).Clean := Cursor.clean_ofStream true classified
  rw [← beginning_stream] at spelled
  rcases classTree_complete wellFormed spelled (Nat.le_succ _) with
    ⟨parsed, last, same, staysClean, done⟩
  have silent : last.hasErrors = false := by
    unfold Cursor.hasErrors
    rw [(staysClean clean).silent]
    rfl
  exact ⟨parsed, parse_eq_ok.mpr ⟨last, run_eq_some.mpr ⟨done, silent⟩⟩, same⟩

/-- A source is parsed as a class exactly if its tokens spell that class, none left over, where the
class keeps the tokens that its nodes start with, its integers denote their values and its strings are
ASCII.  And two classes do not share a spelling.  Both are meant up to positions. -/
theorem parse_eq_ok_iff_spelledBy (source : String) (tree : Class) :
    ((∃ parsed, parse source = .ok parsed ∧ parsed.unplaced = tree.unplaced) ↔
      tree.WellFormed ∧ tree.SpelledBy ((reading.stream source).tokens.map Token.unplaced)) ∧
    ∀ (other : Class) (tokens : List Token), tree.WellFormed -> other.WellFormed ->
      tree.SpelledBy tokens -> other.SpelledBy tokens -> tree.unplaced = other.unplaced := by
  refine ⟨⟨?_, fun fits => parse_complete fits.1 fits.2⟩, fun other tokens =>
    Class.unplaced_eq_of_spelledBy⟩
  rintro ⟨parsed, accepted, same⟩
  rcases parse_sound accepted with ⟨wellFormed, spelled⟩
  have wellFormed : tree.unplaced.WellFormed := same ▸ parsed.wellFormed_unplaced.mpr wellFormed
  exact ⟨tree.wellFormed_unplaced.mp wellFormed, spelled.of_unplaced_eq same⟩

/-- A source of one class with one method. -/
def counterSource : String :=
  "class Counter \x7b field int count;" ++
  "  method int next(int step) \x7b /* no check */ return count + step + 1; \x7d \x7d"

/-- What the method of the class returns. -/
def counterSum : Expression :=
  .binary
    (.binary (.term (.variable (.ofName "count"))) .add (.variable (.ofName "step")))
    .add (.integer ⟨.start, .integer, "1"⟩ 1)

/-- The variable of the class. -/
def counterVariable : ClassVariables := ⟨.ofKeyword .field, .field, .int, ["count"]⟩

/-- The method of the class. -/
def counterMethod : Subroutine where
  token := .ofKeyword .method
  kind := .method
  returns := some .int
  name := "next"
  parameters := [⟨.ofKeyword .int, .int, "step"⟩]
  opening := .ofMark .leftBrace
  locals := []
  statements := [.return (.ofKeyword .return) (some counterSum)]

/-- The class, kept from some place in a source. -/
def counterClass (position : Position) : Class where
  token := ⟨position, .keyword .«class», "class"⟩
  name := "Counter"
  declarations := [counterVariable]
  subroutines := [counterMethod]

theorem counter_is_parsed :
    (∃ parsed, parse counterSource = .ok parsed ∧ parsed.unplaced = (counterClass .start).unplaced) ∧
      (counterClass .start).unplaced = (counterClass ⟨2, 3⟩).unplaced := by
  have sum : counterSum.WellFormed :=
    And.intro (And.intro rfl rfl) ⟨rfl, by decide, by decide⟩
  have method : counterMethod.WellFormed := by
    refine ⟨rfl, rfl, List.forall_mem_singleton.mpr rfl, fun _ none => absurd none List.not_mem_nil,
      And.intro (And.intro rfl ?_) True.intro⟩
    rintro _ ⟨⟩
    exact sum
  have fits (position : Position) : (counterClass position).WellFormed :=
    ⟨rfl, List.forall_mem_singleton.mpr ⟨rfl, List.cons_ne_nil _ _⟩,
      List.forall_mem_singleton.mpr method⟩
  have tokens : (reading.stream counterSource).tokens.map Token.unplaced =
      .ofKeyword .«class» :: .ofName "Counter" :: enclosed .leftBrace
        ([.inl counterVariable, .inr counterMethod].flatMap memberSpelling) .rightBrace := by
    decide +kernel
  have spelled (position : Position) : (counterClass position).SpelledBy
      ((reading.stream counterSource).tokens.map Token.unplaced) :=
    ⟨[.inl counterVariable, .inr counterMethod], rfl, rfl, tokens⟩
  have grammar := parse_eq_ok_iff_spelledBy counterSource (counterClass .start)
  exact ⟨grammar.1.mpr ⟨fits .start, spelled .start⟩,
    grammar.2 (counterClass ⟨2, 3⟩) _ (fits .start) (fits ⟨2, 3⟩) (spelled .start)
      (spelled ⟨2, 3⟩)⟩

end Jack
end HackToolchain
