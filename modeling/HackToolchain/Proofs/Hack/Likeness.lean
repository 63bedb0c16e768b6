import HackToolchain.Proofs.Hack.Grammar
import HackToolchain.Proofs.Token.SourceLikeness

namespace HackToolchain
namespace Hack

/-!
# Lines of assembly that are alike

Addresses and labels are read token by token, and the reader does not look into malformed tokens there.
A compute instruction is read from the literals of all tokens on its line, malformed ones among them.
But a malformed token that depends on line ends is a comment that is never closed, and the slash that it
begins with has no place in an instruction.  So lines that are alike have the same instruction, or both
have none.
-/

namespace Source

open Production

/-- Whether a token starts a compute instruction. -/
def startsCompute : TokenKind -> Bool
  | .identifier | .integer | .mark .minus | .unknown => true
  | _ => false

/-- An instruction that is read token by token. -/
def tokenwise : Production Instruction := do
  let token ← Production.current
  match token.kind with
  | .mark .at => address
  | .mark .leftParen => label
  | _ => Production.reject (.unexpected token)

theorem instruction_of_starts {cursor : Cursor} (starts : startsCompute cursor.current.kind = true) :
    instruction cursor = compute cursor := by
  unfold instruction
  rw [current_andThen]
  generalize cursor.current.kind = kind at starts
  cases kind with
  | mark mark => cases mark with
    | minus => rfl
    | _ => cases starts
  | identifier | integer | unknown => rfl
  | _ => cases starts

theorem instruction_of_not_starts {cursor : Cursor}
    (starts : startsCompute cursor.current.kind = false) :
    instruction cursor = tokenwise cursor := by
  unfold instruction tokenwise
  rw [current_andThen, current_andThen]
  generalize cursor.current.kind = kind at starts
  cases kind with
  | mark mark => cases mark with
    | minus => cases starts
    | _ => rfl
  | identifier | integer | unknown => cases starts
  | _ => rfl

/-! ## Token by token -/

theorem alike_address : Alike .asm Eq address address := by
  refine alike_lookahead.bind fun token other same => ?_
  rw [← same.kind]
  split
  · rename_i isInteger
    cases same.eq (by rw [isInteger]; decide)
    refine alike_advance.bind fun _ _ _ => ?_
    cases token.value? with
    | some value => exact alike_pure rfl
    | none =>
        have digits := isInteger ▸ same.keeps
        have oneLine := Dialect.Keeps.isOneLine digits nofun nofun nofun
        exact alike_reject (Complaint.isOneLine_outOfRange (by decide) oneLine) _
  · rename_i isName
    cases same.eq (by rw [isName]; decide)
    exact alike_advance.bind fun _ _ _ => alike_pure rfl
  · exact alike_rejectLookahead (by decide)

theorem alike_label : Alike .asm Eq label label := by
  refine (alike_expectLiteral (by decide)).bind fun name _ same => ?_
  obtain ⟨rfl, -⟩ := same
  exact (alike_expect _).bind fun _ _ _ => alike_pure rfl

theorem alike_tokenwise : Alike .asm Eq tokenwise tokenwise := by
  refine alike_current.bind fun token other same => ?_
  rw [← same.kind]
  split
  · exact alike_address
  · exact alike_label
  · exact alike_reject (Complaint.isOneLine_unexpected token) _

end Source

/-! ## From the text of a line -/

/-- What is made of a line with a compute instruction, given its place and the literals on it. -/
def computed (position : Position) (text : List Char) :
    Except (List Diagnostic) (Located Instruction) :=
  match computeOfText (String.ofList text) with
  | .ok instruction => .ok ⟨instruction, position.line⟩
  | .error error => .error [⟨position, .remark error.message⟩]

section

variable {line other : TokenLine}

/-- What is read from a line with a compute instruction is told by the literals on it. -/
theorem verdict_of_starts (wellFormed : line.WellFormed)
    (starts : Source.startsCompute (line.tokens.headD line.ending).kind = true) :
    Source.instruction.verdict line =
      computed (line.tokens.headD line.ending).position (literals line.tokens) := by
  rcases line with ⟨_ | ⟨first, rest⟩, ending⟩
  · exact absurd rfl wellFormed.nonempty
  rw [List.headD_cons] at starts ⊢
  have reads (cursor : Cursor) (stands : cursor.StandsOn ⟨first :: rest, ending⟩) :=
    (Source.instruction_of_starts (stands.current ▸ starts)).trans (compute_of_standsOn stands wellFormed)
  unfold computed
  cases fields : computeOfText (String.ofList (literals (first :: rest))) with
  | ok instruction =>
      obtain ⟨last, left⟩ : ∃ last, (first :: rest).drop rest.length = [last] :=
        List.length_eq_one_iff.mp (by simp)
      refine Production.verdict_of_reads fun cursor stands => ?_
      have read := reads cursor stands
      have behind := stands.advanceBy (Nat.le_succ rest.length)
      rw [fields] at read
      rw [TokenLine.drop, left] at behind
      have ends : (cursor.advanceBy rest.length).lookahead.kind.endsLine = true := by
        rw [behind.lookahead]
        exact wellFormed.ends
      exact Production.wholeLine_eq_some.mpr ⟨_, read, ends, rfl⟩
  | error error =>
      have refused (cursor : Cursor) (stands : cursor.StandsOn ⟨first :: rest, ending⟩) :
          Source.instruction cursor = (none, (cursor.advanceBy rest.length).complain first.position
            (.remark error.message)) := by
        rw [reads cursor stands, fields]
      exact Production.verdict_of_refuses fun cursor stands =>
        Production.andThen_of_none (refused cursor stands)

/-- Any other line is read token by token. -/
theorem verdict_of_not_starts
    (starts : Source.startsCompute (line.tokens.headD line.ending).kind = false) :
    Source.instruction.verdict line = Source.tokenwise.verdict line := by
  have current : (Cursor.ofStream line.alone false).current = line.tokens.headD line.ending := by
    unfold Cursor.current
    rw [Cursor.ofStream_stream, TokenLine.alone]
    rcases line.tokens with _ | ⟨first, rest⟩ <;> rfl
  have whole : Source.instruction.wholeLine (Cursor.ofStream line.alone false) =
      Source.tokenwise.wholeLine (Cursor.ofStream line.alone false) := by
    change Production.andThen _ _ _ = Production.andThen _ _ _
    unfold Production.andThen
    rw [Source.instruction_of_not_starts (current ▸ starts)]
  unfold Production.verdict
  rw [whole]

/-- An instruction is not spelled with a slash. -/
theorem computed_of_slash {position : Position} {text : List Char} (slash : '/' ∈ text) :
    ∃ error : FieldError, computed position text = .error [⟨position, .remark error.message⟩] := by
  unfold computed
  cases fields : computeOfText (String.ofList text) with
  | ok instruction =>
      obtain ⟨spelled, -⟩ := spelledAs_of_computeOfText fields
      rw [String.toList_ofList] at spelled
      exact absurd (spelled.mem slash) (by decide)
  | error error => exact ⟨error, rfl⟩

/-- Tokens that are alike have the same literals, or slashes on both sides. -/
theorem literals_of_alike {tokens others : List Token}
    (alike : List.Forall₂ (Token.Alike .asm) tokens others) :
    literals tokens = literals others ∨ '/' ∈ literals tokens ∧ '/' ∈ literals others := by
  unfold literals
  induction alike with
  | nil => exact .inl rfl
  | cons first _ inductionHypothesis =>
      rw [List.flatMap_cons, List.flatMap_cons]
      rcases first.same with rfl | ⟨-, slash, otherSlash⟩
      · rcases inductionHypothesis with same | ⟨slash, otherSlash⟩
        · exact .inl (congrArg _ same)
        · exact .inr ⟨List.mem_append_right _ slash, List.mem_append_right _ otherSlash⟩
      · exact .inr ⟨List.mem_append_left _ slash, List.mem_append_left _ otherSlash⟩

theorem sameOutcome_computed {tokens others : List Token} (position : Position)
    (alike : List.Forall₂ (Token.Alike .asm) tokens others) :
    SameOutcome Diagnostic.SamePlace (computed position (literals tokens))
      (computed position (literals others)) := by
  rcases literals_of_alike alike with same | ⟨slash, otherSlash⟩
  · rw [same]
    unfold computed
    split
    · exact .accepts _
    · exact .refuses (.cons rfl .nil)
  · obtain ⟨error, refused⟩ := computed_of_slash slash
    obtain ⟨otherError, otherRefused⟩ := computed_of_slash otherSlash
    rw [refused, otherRefused]
    exact .refuses (.cons rfl .nil)

/-- Lines that are alike have the same instruction, or are refused at the same place. -/
theorem sameOutcome_verdict (wellFormed : line.WellFormed) (lines : line.Alike .asm other) :
    SameOutcome Diagnostic.SamePlace (Source.instruction.verdict line) (Source.instruction.verdict other) := by
  have start := lines.first
  cases starts : Source.startsCompute (line.tokens.headD line.ending).kind with
  | false =>
      rw [verdict_of_not_starts starts, verdict_of_not_starts (start.kind ▸ starts)]
      exact (Source.alike_tokenwise.verdict lines).mono fun _ _ alike => alike.position
  | true =>
      rw [verdict_of_starts wellFormed starts,
        verdict_of_starts (lines.wellFormed wellFormed) (start.kind ▸ starts), start.position]
      exact sameOutcome_computed _ lines.tokens

end

/-- Sources whose tokens are alike have the same instructions, or are refused at the same places. -/
theorem sameOutcome_parse {source other : String}
    (streams : ((lineReading .asm).stream source).Alike .asm ((lineReading .asm).stream other)) :
    SameOutcome Diagnostic.SamePlace (parse source) (parse other) :=
  sameOutcome_readLines Source.keepsToLine_instruction streams fun _ member _ lines =>
    sameOutcome_verdict (wellFormed_of_mem_sourceLines member) lines

end Hack
end HackToolchain
