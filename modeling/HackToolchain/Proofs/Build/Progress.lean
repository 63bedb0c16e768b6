import HackToolchain.Proofs.Hack.Recovery
import HackToolchain.Proofs.Jack.Progress
import HackToolchain.Proofs.Vm.Recovery

namespace HackToolchain

/-!
# Every reader makes progress

The readers of all three languages walk over the tokens of a source, whatever the source is, and none of
them ever moves at its end.
-/

/-- The rest of a line of assembly is put together token by token, until the next token ends the line. -/
theorem Hack.Source.restOfLine_step (cursor : Cursor) (text : String) :
    restOfLine cursor text = if cursor.lookahead.kind.endsLine then (text, cursor)
      else restOfLine cursor.advance (text ++ cursor.advance.current.literal) := by
  have behind : cursor.advance.stream.tail.tokens = cursor.stream.tokens.tail.tail :=
    congrArg List.tail Cursor.advance_tokens
  have ahead : cursor.stream.tail.tokens = cursor.stream.tokens.tail := rfl
  unfold restOfLine
  dsimp only
  rw [behind, ahead, Cursor.advance_current]
  rcases tokens : cursor.stream.tokens.tail with _ | ⟨next, rest⟩
  · have ends : cursor.lookahead.kind.endsLine = true := by
      unfold Cursor.lookahead TokenStream.head
      rw [ahead, tokens]
      rfl
    rw [if_pos ends]
    rfl
  · rw [Cursor.lookahead_of_tokens tokens, List.tail_cons]
    cases ends : next.kind.endsLine with
    | true =>
        rw [List.takeWhile_cons_of_neg (by simp [ends])]
        rfl
    | false =>
        rw [List.takeWhile_cons_of_pos (by simp [ends]), if_neg Bool.false_ne_true, List.length_cons,
          Cursor.advanceBy_succ, List.foldl_cons]

/-- Reading a source makes progress, whether it is well formed or not, and whichever language it is read
in.  Moves are counted, and a move at the end of the source would show: moves and tokens that are left add
up to one more behind it, and to the same number behind every other move. -/
theorem parsers_make_progress (source : String) :
    Jack.MakesProgress source ∧ Jack.Source.RoundsMoveOn ∧
      LinesMakeProgress .vm Vm.Source.command source ∧
      LinesMakeProgress .asm Hack.Source.instruction source ∧
      (∀ (cursor : Cursor) (text : String), Hack.Source.restOfLine cursor text =
        if cursor.lookahead.kind.endsLine then (text, cursor)
        else Hack.Source.restOfLine cursor.advance (text ++ cursor.advance.current.literal)) ∧
      ∀ cursor : Cursor, cursor.Proper -> cursor.advance.moves + cursor.advance.remaining =
        cursor.moves + cursor.remaining + if cursor.currentIs .endOfFile then 1 else 0 :=
  ⟨Jack.makesProgress source, Jack.Source.roundsMoveOn,
    linesMakeProgress .vm Vm.Source.keepsToLine_command source,
    linesMakeProgress .asm Hack.Source.keepsToLine_instruction source, Hack.Source.restOfLine_step,
    fun _ proper => Cursor.advance_moves_add_remaining proper⟩

/-- A class that is cut short is read with one move for each of its three tokens. -/
example : (Jack.run "class A \x7b").2.moves = 3 := by decide +kernel

end HackToolchain
