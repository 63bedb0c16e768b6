import HackToolchain.Proofs.Jack.Complaints
import HackToolchain.Proofs.Jack.Grammar
import HackToolchain.Proofs.Jack.PromptMembers
import HackToolchain.Proofs.Token.Anomalies

namespace HackToolchain
namespace Jack

/-!
# What is reported of a source that is no class

A refused source is told each of its anomalies once and one thing more: the first place at which its
tokens leave the grammar.  The tokens in front of that place are the beginning of some class, and with
the next token they no longer are; or all tokens of the source are the beginning of a class and the
class is not finished.

The grammar is that of the trees: some tokens are a class if a well-formed tree is spelled by them.
-/

open Production

/-! ## Leaving the grammar -/

/-- The tokens are those of a class. -/
def IsClass (tokens : List Token) : Prop :=
  ∃ tree : Class, tree.WellFormed ∧ tree.SpelledBy (tokens.map Token.unplaced)

/-- A class begins with the tokens. -/
def BeginsClass (tokens : List Token) : Prop := ∃ more, IsClass (tokens ++ more)

/-- The first place at which the tokens of a stream leave the grammar: a token with which no class
goes on, or the end of the source where a class is not finished. -/
inductive LeavesGrammar (stream : TokenStream) : Position -> Prop
  | token (front : List Token) (token : Token) (rest : List Token)
      (tokens : stream.tokens = front ++ token :: rest) (begins : BeginsClass front)
      (leaves : ¬ BeginsClass (front ++ [token])) : LeavesGrammar stream token.position
  | finish (begins : BeginsClass stream.tokens) (unfinished : ¬ IsClass stream.tokens) :
      LeavesGrammar stream stream.finish

theorem BeginsClass.front {front behind : List Token} (begins : BeginsClass (front ++ behind)) :
    BeginsClass front := by
  rcases begins with ⟨more, fits⟩
  exact ⟨behind ++ more, List.append_assoc .. ▸ fits⟩

/-- No class goes on with the token behind the front, or there is none and no class ends there. -/
theorem leavesGrammar_of_never {stream : TokenStream} {front behind : List Token}
    (tokens : stream.tokens = front ++ behind) (begins : BeginsClass front)
    (never : ∀ later, later.head? = behind.head? -> ¬ IsClass (front ++ later)) :
    LeavesGrammar stream (placeAhead behind stream.finish) := by
  cases behind with
  | nil =>
      rw [List.append_nil] at tokens
      refine .finish (tokens ▸ begins) (tokens ▸ ?_)
      have unfinished := never [] rfl
      rwa [List.append_nil] at unfinished
  | cons token rest =>
      refine .token front token rest tokens begins ?_
      rintro ⟨more, fits⟩
      rw [List.append_assoc] at fits
      exact never ([token] ++ more) rfl fits

/-- There is no more than one such place. -/
theorem LeavesGrammar.unique {stream : TokenStream} {place other : Position}
    (leaves : LeavesGrammar stream place) (leavesThere : LeavesGrammar stream other) :
    place = other := by
  -- Behind the first place no class goes on, so there is no second.
  have first {front others rest : List Token} {token : Token} (never : ¬ BeginsClass (front ++ [token]))
      (same : others = front ++ token :: rest) : ¬ BeginsClass others := by
    rw [same, List.append_cons]
    exact fun begins => never begins.front
  cases leaves with
  | token front token rest tokens begins never =>
      cases leavesThere with
      | token others another more listed begun neverThere =>
          rcases List.append_eq_append_iff.mp (tokens.symm.trans listed) with
            ⟨middle, longer, left⟩ | ⟨middle, longer, left⟩
          · cases middle with
            | nil => exact congrArg Token.position (List.cons.inj left).1
            | cons next middle =>
                cases (List.cons.inj left).1
                exact absurd begun (first never longer)
          · cases middle with
            | nil => exact congrArg Token.position (List.cons.inj left).1.symm
            | cons next middle =>
                cases (List.cons.inj left).1
                exact absurd begins (first neverThere longer)
      | finish begun _ => exact absurd begun (first never tokens)
  | finish begun _ =>
      cases leavesThere with
      | token others another more listed _ neverThere => exact absurd begun (first neverThere listed)
      | finish _ _ => rfl

/-! ## Reading the tokens of a class -/

theorem andThen_assoc (first : Production α) (next : α -> Production β) (last : β -> Production γ) :
    first >>= next >>= last = first >>= fun value => next value >>= last := by
  funext start
  change Production.andThen (Production.andThen first next) last start =
    Production.andThen first (fun value => Production.andThen (next value) last) start
  unfold Production.andThen
  rcases first start with ⟨_ | value, between⟩ <;> rfl

/-- The end of a class behind its closing brace. -/
def closing (token : Token) (read : String × List ClassVariables × List Subroutine) :
    Production Class := do
  expect .endOfFile
  return ⟨token, read.1, read.2.1, read.2.2⟩

theorem classTree_of_class {bound : Nat} {start : Cursor}
    (word : start.current.kind = .keyword .«class») :
    Source.classTree bound start = (Source.classRest bound >>= closing start.current) start := by
  have nested : Source.classRest bound >>= closing start.current =
      Source.name >>= fun name => Source.expectMark .leftBrace >>= fun _ =>
        Source.members bound >>= fun read => closing start.current (name, read) := by
    unfold Source.classRest
    rw [andThen_assoc]
    refine congrArg _ (funext fun name => ?_)
    rw [andThen_assoc]
    refine congrArg _ (funext fun _ => ?_)
    rw [andThen_assoc]
    rfl
  unfold Source.classTree
  rw [current_andThen, if_pos (beq_iff_eq.mpr word), nested]
  rfl

theorem classTree_of_other {bound : Nat} {start : Cursor}
    (other : start.current.kind ≠ .keyword .«class») :
    Source.classTree bound start = rejectCurrent "'class'" start := by
  unfold Source.classTree
  rw [current_andThen, if_neg fun same => other (beq_iff_eq.mp same)]

/-- Where the tokens are not read as a class, whatever stands in front of a cursor, they are none. -/
theorem not_isClass {tokens : List Token}
    (refused : ∀ bound (cursor : Cursor), cursor.stream.tokens = tokens ->
      (Source.classTree bound cursor).1 = none) : ¬ IsClass tokens := by
  rintro ⟨tree, wellFormed, spelled⟩
  let start : Cursor := ⟨⟨tokens, .start⟩, true, 0, #[]⟩
  have spelled : tree.SpelledBy (start.stream.tokens.map Token.unplaced) := spelled
  rcases classTree_complete wellFormed spelled (Nat.le_refl _) with ⟨other, last, -, -, done⟩
  have none := refused start.stream.tokens.length start rfl
  rw [done] at none
  cases none

/-- What productions with any bound read is a class, because some bound is large enough. -/
theorem isClass_of_yields {token : Token} {passed : List Token}
    (read : String × List ClassVariables × List Subroutine) (word : token.kind = .keyword .«class»)
    (proper : ∀ other ∈ token :: passed, other.Proper)
    (yields : ∀ bound (other : Cursor), other.current = token -> other.stream.tokens.tail = passed ->
      Yields (Source.classRest bound) other read passed.length) : IsClass (token :: passed) := by
  let start : Cursor := Cursor.ofStream ⟨token :: passed, .start⟩ true
  have stream : start.stream = ⟨token :: passed, .start⟩ := Cursor.ofStream_stream _ _
  have tokens : start.stream.tokens = token :: passed := congrArg TokenStream.tokens stream
  have current : start.current = token := congrArg TokenStream.head stream
  have classed : start.current.kind = .keyword .«class» := current ▸ word
  have ahead : start.stream.tokens.tail = passed ++ [] := by
    rw [tokens, List.append_nil]
    rfl
  rcases yields (start.remaining + 1) start current (ahead.trans (List.append_nil _)) with done | halts
  · have ending : (start.advanceBy passed.length).lookahead.kind = .endOfFile := by
      rw [Cursor.lookahead_kind, Cursor.advanceBy_tail ahead]
      rfl
    have whole : Source.classTree (start.remaining + 1) start =
        (some ⟨start.current, read.1, read.2.1, read.2.2⟩,
          (start.advanceBy passed.length).advance) := by
      rw [classTree_of_class classed, andThen_eq done]
      exact andThen_eq (expect_eq_some.mpr ⟨ending, rfl⟩)
    have isProper : start.Proper := by
      intro other member
      rw [tokens] at member
      exact proper other member
    rw [← tokens]
    exact ⟨_, classTree_sound isProper whole⟩
  · rcases halts with ⟨count, halts⟩
    have settled := Source.settles_classTree (start.remaining + 1) start (Nat.lt_succ_self _)
    rw [classTree_of_class classed, andThen_of_none halts] at settled
    exact absurd settled (Cursor.not_refused_advanceBy _ _)

theorem beginsClass_of_completed {token : Token} {passed : List Token}
    (word : token.kind = .keyword .«class») (proper : ∀ other ∈ token :: passed, other.Proper)
    (completed : Completed (fun _ => True) (fun _ => True) token passed Source.classRest) :
    BeginsClass (token :: passed) := by
  rcases completed with ⟨read, more, properMore, -, yields⟩
  refine ⟨more, ?_⟩
  rw [List.cons_append]
  have properAll (other : Token) (member : other ∈ token :: (passed ++ more)) : other.Proper := by
    rcases List.mem_append.mp (List.cons_append ▸ member) with front | back
    · exact proper other front
    · exact properMore other back
  refine isClass_of_yields read word properAll fun bound other current ahead => ?_
  rw [List.length_append]
  exact yields bound other [] current (by rw [List.append_nil, ahead]) True.intro

/-- A class begins with nothing. -/
theorem beginsClass_nil : BeginsClass [] := by
  let word : Token := .ofKeyword .«class»
  have completed := (Source.prompt_classRest 0).completed word
  have proper : ∀ token ∈ [word], token.Proper :=
    List.forall_mem_singleton.mpr (Token.proper_ofKeyword .«class»)
  have begins : BeginsClass ([] ++ [word]) := beginsClass_of_completed rfl proper completed
  exact begins.front

/-! ## Refusing -/

theorem closing_refuses {token : Token} {read : String × List ClassVariables × List Subroutine}
    {start : Cursor} (more : start.lookahead.kind ≠ .endOfFile) :
    closing token read start = (none, start.rejectLookahead TokenKind.endOfFile.text) :=
  andThen_of_none (expect_of_ne more)

/-- The tokens are refused in front of the closing brace of a class. -/
theorem leaves_within {start : Cursor} {passed behind : List Token}
    (word : start.current.kind = .keyword .«class») (proper : start.Proper)
    (refuses : Refuses start Source.classRest passed behind)
    (completed : Completed (fun _ => True) (fun _ => True) start.current passed Source.classRest) :
    LeavesGrammar start.stream (placeAhead behind start.stream.finish) := by
  have tokens : start.stream.tokens = start.current :: passed ++ behind :=
    (Cursor.tokens_of_current (word ▸ nofun)).trans (congrArg (start.current :: ·) refuses.ahead)
  refine leavesGrammar_of_never tokens (beginsClass_of_completed word ?_ completed) ?_
  · exact fun token member => proper token (tokens ▸ List.mem_append_left behind member)
  · intro later same
    refine not_isClass fun bound cursor met => ?_
    have current := Cursor.current_of_tokens met
    rw [classTree_of_class (current ▸ word)]
    exact none_andThen (refuses.again bound cursor later current (congrArg List.tail met) same)

/-- Tokens follow on the closing brace of a class. -/
theorem leaves_behind {start : Cursor} {passed behind : List Token}
    {read : String × List ClassVariables × List Subroutine}
    (word : start.current.kind = .keyword .«class») (proper : start.Proper)
    (answers : Answers (fun _ => True) (fun _ => True) start Source.classRest read passed behind)
    (more : kindAhead behind ≠ .endOfFile) :
    LeavesGrammar start.stream (placeAhead behind start.stream.finish) := by
  have tokens : start.stream.tokens = start.current :: passed ++ behind :=
    (Cursor.tokens_of_current (word ▸ nofun)).trans (congrArg (start.current :: ·) answers.ahead)
  have again (bound : Nat) (other : Cursor) (later : List Token)
      (current : other.current = start.current) (met : other.stream.tokens.tail = passed ++ later) :
      Yields (Source.classRest bound) other read passed.length :=
    answers.again bound other later current met (.inr True.intro)
  have whole : IsClass (start.current :: passed) := by
    refine isClass_of_yields read word ?_ fun bound other current ahead => ?_
    · exact fun token member => proper token (tokens ▸ List.mem_append_left behind member)
    · exact again bound other [] current (ahead.trans (List.append_nil _).symm)
  refine leavesGrammar_of_never tokens ⟨[], (List.append_nil _).symm ▸ whole⟩ ?_
  intro later same
  refine not_isClass fun bound cursor met => ?_
  have current := Cursor.current_of_tokens met
  have ahead : cursor.stream.tokens.tail = passed ++ later := congrArg List.tail met
  rw [classTree_of_class (current ▸ word)]
  refine (again bound cursor later current ahead).none_behind ?_
  rw [closing_refuses]
  rw [Cursor.lookahead_kind, Cursor.advanceBy_tail ahead, kindAhead, same]
  exact more

/-- The first token is not the keyword of a class. -/
theorem leaves_first {start : Cursor} (other : start.current.kind ≠ .keyword .«class») :
    LeavesGrammar start.stream start.current.position := by
  rw [Cursor.current_kind] at other
  have place := start.stream.head_position
  refine place.symm ▸ leavesGrammar_of_never (List.nil_append _).symm beginsClass_nil ?_
  intro later same
  refine not_isClass fun bound cursor met => ?_
  rw [classTree_of_other]
  · rfl
  · rw [Cursor.current_kind, met, List.nil_append, kindAhead, same]
    exact other

/-- A class is refused with one complaint about the grammar, at the place where the tokens leave it. -/
theorem classTree_refuses {stream : TokenStream} {start last : Cursor}
    (begun : start = Cursor.ofStream stream true) (proper : start.Proper)
    (refused : Source.classTree (start.remaining + 1) start = (none, last)) :
    ∃ count place complaint, last = (start.advanceBy count).complain place complaint ∧
      (∀ token, complaint ≠ .anomaly token) ∧ LeavesGrammar start.stream place := by
  by_cases word : start.current.kind = .keyword .«class»
  · have settled := Source.settles_classTree (start.remaining + 1) start (Nat.lt_succ_self _)
    rw [refused] at settled
    rw [classTree_of_class word] at refused
    cases (Source.prompt_classRest (start.remaining + 1)).verdict start with
    | answers read passed behind same answers =>
        rw [andThen_eq same] at refused
        have left := Cursor.advanceBy_tail answers.ahead
        by_cases ending : (start.advanceBy passed.length).lookahead.kind = .endOfFile
        · rw [closing, andThen_eq (expect_eq_some.mpr ⟨ending, rfl⟩)] at refused
          cases refused
        · rw [closing_refuses ending] at refused
          cases refused
          refine ⟨passed.length, _, _, rfl, fun _ => nofun, ?_⟩
          rw [Cursor.lookahead_position, left, Cursor.advanceBy_finish]
          rw [Cursor.lookahead_kind, left] at ending
          exact leaves_behind word proper answers ending
    | refuses passed behind count complaint same aboutGrammar refuses completed =>
        rw [andThen_of_none same] at refused
        cases refused
        exact ⟨count, _, complaint, rfl, aboutGrammar, leaves_within word proper refuses completed⟩
    | halts count same =>
        rw [andThen_of_none same] at refused
        cases refused
        rw [begun] at settled
        exact absurd settled (Cursor.not_refused_advanceBy _ _)
  · rw [classTree_of_other word] at refused
    cases refused
    exact ⟨0, _, _, rfl, fun _ => nofun, leaves_first word⟩

/-! ## Reports -/

/-- The anomalies of a source, which no comment hides. -/
def anomaliesOf (source : String) : List Diagnostic :=
  anomalies (Scanner.ofSource .jack Scanner.defaultTabWidth source).stream.tokens

/-- What a reading of a source reports. -/
inductive Reported (source : String) : Except (List Diagnostic) Class -> Prop
  /-- A source that is accepted has no anomalies. -/
  | accepted (tree : Class) (classified : anomaliesOf source = []) : Reported source (.ok tree)
  /-- A source that is refused is told all its anomalies in order, and among them one thing about the
  grammar. -/
  | refused (before : List Diagnostic) (syntactic : Diagnostic) (behind : List Diagnostic)
      (inOrder : before ++ behind = anomaliesOf source)
      (number : (before ++ syntactic :: behind).length = (anomaliesOf source).length + 1)
      (aboutGrammar : ∀ token, syntactic.complaint ≠ .anomaly token)
      (place : LeavesGrammar (reading.stream source) syntactic.position) :
      Reported source (.error (before ++ syntactic :: behind))

theorem anomaliesOf_eq (source : String) :
    anomaliesOf source = anomalies (reading.stream source).tokens :=
  (anomalies_without reading _).symm

/-- A source with a tree is read. -/
theorem classTree_fails {source : String} {diagnostics : List Diagnostic}
    (failed : parse source = .error diagnostics) :
    ∃ last, Source.classTree ((beginning source).remaining + 1) (beginning source) = (none, last) ∧
      diagnostics = last.drain.report := by
  rcases done : Source.classTree ((beginning source).remaining + 1) (beginning source) with
    ⟨_ | tree, last⟩
  · refine ⟨last, rfl, ?_⟩
    have ran : run source = (none, last.drain) := by
      unfold run
      dsimp only
      rw [← beginning, done]
    unfold parse at failed
    rw [ran] at failed
    cases failed
    rfl
  · have sound := classTree_sound (beginning_proper source) done
    rw [beginning_stream] at sound
    rcases parse_complete sound.1 sound.2 with ⟨parsed, accepted, -⟩
    rw [accepted] at failed
    cases failed

/-- A source that is accepted has no anomalies.  One that is refused is told each of its anomalies once
and in order, and one thing more: where its tokens leave the grammar. -/
theorem parse_reports (source : String) : Reported source (parse source) := by
  cases parsed : parse source with
  | ok tree =>
      rcases parse_sound parsed with ⟨wellFormed, spelled⟩
      refine .accepted tree ?_
      rw [anomaliesOf_eq, anomalies, List.map_eq_nil_iff, List.filter_eq_nil_iff]
      intro token member
      have plain := Class.allPlain_of_spelledBy wellFormed spelled _ (List.mem_map_of_mem member)
      exact ne_true_of_eq_false plain.classified
  | error diagnostics =>
      rcases classTree_fails parsed with ⟨last, refused, rfl⟩
      have begun : beginning source = Cursor.ofStream (reading.stream source) true := rfl
      rcases classTree_refuses begun (beginning_proper source) refused with
        ⟨count, place, complaint, rfl, aboutGrammar, leaves⟩
      have reports : (beginning source).reportsAnomalies = true :=
        Cursor.ofStream_reportsAnomalies _ true
      rcases Cursor.drain_report_complain reports count place complaint with
        ⟨before, behind, inOrder, report⟩
      have inOrder : before ++ behind = anomaliesOf source := by
        rw [inOrder, anomaliesOf_eq]
        exact Cursor.ofStream_ledger _
      rw [beginning_stream] at leaves
      rw [report]
      refine .refused before ⟨place, complaint⟩ behind inOrder ?_ aboutGrammar leaves
      rw [← inOrder, List.length_append, List.length_append, List.length_cons, Nat.add_assoc]

/-- The name that is missing is reported between two anomalies. -/
example : (run "class A \x7b ? static int 1 # ; \x7d").2.report =
    [⟨⟨1, 11⟩, .anomaly ⟨⟨1, 11⟩, .unknown, "?"⟩⟩,
      ⟨⟨1, 11⟩,
        .nextIsNot "a class variable, a subroutine or '\x7d'" ⟨⟨1, 11⟩, .unknown, "?"⟩⟩,
      ⟨⟨1, 26⟩, .anomaly ⟨⟨1, 26⟩, .unknown, "#"⟩⟩] := by
  decide +kernel

end Jack
end HackToolchain
