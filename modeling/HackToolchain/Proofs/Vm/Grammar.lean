import HackToolchain.Proofs.Vm.Recovery
import HackToolchain.Proofs.Vm.Spelling

namespace HackToolchain
namespace Vm

/-!
# The grammar of the stack language

A line is a command if its tokens stand, one by one, for those that the command is written with.  A
number may be spelled with any number of zeros in front, but it has to be in range.  A source is read
exactly if all its lines that are not blank are commands, and then these are the answer, each with the
number of the line on which its first token stands.
-/

/-- The tokens of a command: those that its text is scanned into, or others that stand for them. -/
structure Command.SpelledBy (command : Command) (tokens : List Token) : Prop where
  spells : List.Forall₂ Token.StandsFor tokens (.ofKeyword command.keyword :: command.operands)
  small : ∀ number ∈ command.number?, number.toNat ≤ maxInteger

/-- A line is read as a command exactly if the tokens of the line are those of the command. -/
theorem verdict_command_eq_ok_iff {line : TokenLine} (wellFormed : line.WellFormed)
    {entry : Located Command} : Source.command.verdict line = .ok entry ↔
      entry.item.SpelledBy line.tokens ∧ entry.line = line.number := by
  rcases line with ⟨_ | ⟨first, rest⟩, ending⟩
  · exact absurd rfl wellFormed.nonempty
  · have stands := Cursor.standsOn_alone ⟨first :: rest, ending⟩
    have others := (List.forall_mem_cons.mp entry.item.open_operands).2
    rw [Production.verdict_eq_ok_iff]
    refine and_congr_left fun _ => ?_
    simp only [command_eq_some, stands.current]
    constructor
    · rintro ⟨last, ⟨kind, passes, small⟩, ends⟩
      have spelled := (stands.passesFor_iff wellFormed others).mp ⟨last, passes, ends⟩
      exact ⟨.cons (Token.standsFor_ofKeyword.mpr kind) spelled, small⟩
    · rintro ⟨spells, small⟩
      obtain ⟨kind, spelled⟩ := List.forall₂_cons.mp spells
      obtain ⟨last, passes, ends⟩ := (stands.passesFor_iff wellFormed others).mpr spelled
      exact ⟨last, ⟨Token.standsFor_ofKeyword.mp kind, passes, small⟩, ends⟩

/-- A source is read exactly if each of its lines is a command, and the answer is these commands. -/
theorem parse_eq_ok_iff_spelledByLines (source : String) (commands : List (Located Command)) :
    parse source = .ok commands ↔
      List.Forall₂ (fun line entry => entry.item.SpelledBy line.tokens ∧ entry.line = line.number)
        (sourceLines .vm source) commands := by
  have wellFormed : ∀ line ∈ sourceLines .vm source, line.WellFormed :=
    fun line => wellFormed_of_mem_sourceLines
  have judged : parse source = .ok commands ↔
      List.Forall₂ (fun line entry => Source.command.verdict line = .ok entry)
        (sourceLines .vm source) commands := by
    unfold parse
    rw [readLines_eq_ok_iff .vm source Source.keepsToLine_command, ← List.forall₂_eq_eq_eq,
      List.forall₂_map_left_iff, List.forall₂_map_right_iff]
  rw [judged]
  constructor
  · intro read
    refine ((List.forall₂_and_left _ _).mpr ⟨wellFormed, read⟩).imp fun line entry both => ?_
    exact (verdict_command_eq_ok_iff both.1).mp both.2
  · intro spelled
    refine ((List.forall₂_and_left _ _).mpr ⟨wellFormed, spelled⟩).imp fun line entry both => ?_
    exact (verdict_command_eq_ok_iff both.1).mpr both.2

/-- A comment joins the lines that it reaches over, and zeros in front of a number do not count. -/
example : parse "push /* on the\n next line */ constant 007\n\n if - goto END" =
    .ok [⟨.push .constant 7, 1⟩, ⟨.ifGoto "END", 4⟩] := by decide

end Vm
end HackToolchain
