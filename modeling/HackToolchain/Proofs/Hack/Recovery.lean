import HackToolchain.Hack.Source
import HackToolchain.Proofs.Token.Recovery

namespace HackToolchain
namespace Hack

/-!
# Lines of assembly

An instruction is read without leaving its line.  An address and a label look at one token ahead of
them, which may be the one that ends the line, but do not move on to that.  A compute instruction takes
all tokens of its line, so that whatever is wrong with its text is told by the line.

Hence each line of a source has an instruction or one thing wrong with it, wherever it stands.
-/

/-- The literals of tokens one behind the other. -/
def literals (tokens : List Token) : List Char := tokens.flatMap fun token => token.literal.toList

theorem ofList_literals_cons (first : Token) (rest : List Token) :
    String.ofList (literals (first :: rest)) = first.literal ++ String.ofList (literals rest) := by
  simp [literals]

theorem literals_unplaced (tokens : List Token) :
    literals (tokens.map Token.unplaced) = literals tokens := List.flatMap_map _ _ _

namespace Source

open Production

theorem keepsToLine_address : address.KeepsToLine := by
  refine keepsToLine_lookahead fun token => ?_
  cases kind : token.kind with
  | integer =>
      refine .inr ⟨rfl, _, ?_, rfl⟩
      cases token.value? with
      | some value => exact keepsToLine_pure _
      | none => exact keepsToLine_reject _
  | identifier => exact .inr ⟨rfl, _, keepsToLine_pure _, rfl⟩
  | _ => exact .inl (keepsToLine_rejectLookahead _)

theorem keepsToLine_label : label.KeepsToLine :=
  (keepsToLine_expectLiteral rfl).bind fun _ => (keepsToLine_expect rfl).bind fun _ =>
    keepsToLine_pure _

/-- The literals of the tokens that are taken from the rest of a line are appended. -/
theorem restOfLine_of_following {cursor : Cursor} {rest : List Token}
    (following : (cursor.stream.tail.tokens.takeWhile fun token => !token.kind.endsLine) = rest)
    (text : String) : restOfLine cursor text =
      (text ++ String.ofList (literals rest), cursor.advanceBy rest.length) := by
  have appended (tokens : List Token) (text : String) :
      tokens.foldl (fun text token => text ++ token.literal) text =
        text ++ String.ofList (literals tokens) := by
    induction tokens generalizing text with
    | nil => simp [literals]
    | cons token rest inductionHypothesis =>
        rw [List.foldl_cons, inductionHypothesis, ofList_literals_cons, String.append_assoc]
  unfold restOfLine
  dsimp only
  rw [following, appended]

/-- The tokens of a line are put together to their literals. -/
theorem restOfLine_of_standsOn {cursor : Cursor} {first ending : Token} {rest : List Token}
    (wellFormed : TokenLine.WellFormed ⟨first :: rest, ending⟩)
    (stands : cursor.StandsOn ⟨first :: rest, ending⟩) :
    restOfLine cursor cursor.current.literal =
      (String.ofList (literals (first :: rest)), cursor.advanceBy rest.length) := by
  have following :
      (cursor.stream.tail.tokens.takeWhile fun token => !token.kind.endsLine) = rest := by
    have behind := stands.advance
    rw [← cursor.advance_stream]
    exact behind.takeWhile (fun token member =>
      wellFormed.inside token (List.mem_cons_of_mem first member)) wellFormed.ends
  rw [restOfLine_of_following following, stands.current, ofList_literals_cons]

/-- The fields of a compute instruction, and what is wrong with them, are told by its line. -/
theorem keepsToLine_compute : compute.KeepsToLine := by
  intro line wellFormed
  rcases line with ⟨_ | ⟨first, rest⟩, ending⟩
  · exact absurd rfl wellFormed.nonempty
  · cases fields : computeOfText (String.ofList (literals (first :: rest))) with
    | ok instruction =>
        refine ⟨.ok instruction, rest.length, Nat.lt_succ_self _, fun cursor stands => ?_⟩
        unfold compute
        rw [restOfLine_of_standsOn wellFormed stands]
        dsimp only
        rw [fields]
        rfl
    | error error =>
        refine ⟨.error ⟨first.position, .remark error.message⟩, rest.length, Nat.lt_succ_self _,
          fun cursor stands => ?_⟩
        unfold compute
        rw [restOfLine_of_standsOn wellFormed stands]
        dsimp only
        rw [fields, stands.current]
        rfl

theorem keepsToLine_instruction : instruction.KeepsToLine := by
  refine keepsToLine_current.bind fun token => ?_
  split
  · exact keepsToLine_address
  · exact keepsToLine_label
  · exact keepsToLine_compute
  · exact keepsToLine_compute
  · exact keepsToLine_compute
  · exact keepsToLine_compute
  · exact keepsToLine_reject _

end Source
end Hack
end HackToolchain
