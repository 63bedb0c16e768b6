import HackToolchain.Proofs.Hack.Recovery
import HackToolchain.Vm.Source

namespace HackToolchain
namespace Vm

/-!
# Lines of stack code

The operands of a command are required one after the other, each a token that does not end a line, so
that a command keeps to its line.  Together with the same fact about assembly this tells how both
languages recover from malformed lines: every line is judged on its own.
-/

namespace Source

open Production

theorem keepsToLine_segment : segment.KeepsToLine := by
  refine (keepsToLine_expectLiteral rfl).bind fun name => ?_
  cases Segment.ofName? name with
  | some segment => exact keepsToLine_pure segment
  | none => exact keepsToLine_reject _

theorem keepsToLine_number : number.KeepsToLine := by
  refine (keepsToLine_expect rfl).bind fun _ => keepsToLine_current.bind fun token => ?_
  cases token.value? with
  | some value => exact keepsToLine_pure value
  | none => exact keepsToLine_reject _

theorem keepsToLine_name : name.KeepsToLine := keepsToLine_expectLiteral rfl

/-- Two operands of one line are read on it. -/
theorem keepsToLine_both {first : Production α} {second : Production β} (build : α -> β -> γ)
    (keepsFirst : first.KeepsToLine) (keepsSecond : second.KeepsToLine) :
    (do return build (← first) (← second) : Production γ).KeepsToLine :=
  keepsFirst.bind fun _ => keepsSecond.bind fun _ => keepsToLine_pure _

theorem keepsToLine_command : command.KeepsToLine := by
  refine keepsToLine_current.bind fun token => ?_
  split
  · exact keepsToLine_both Command.push keepsToLine_segment keepsToLine_number
  · exact keepsToLine_both Command.pop keepsToLine_segment keepsToLine_number
  · exact keepsToLine_name.bind fun _ => keepsToLine_pure _
  · exact keepsToLine_name.bind fun _ => keepsToLine_pure _
  · exact (keepsToLine_expect rfl).bind fun _ => (keepsToLine_expect rfl).bind fun _ =>
      keepsToLine_name.bind fun _ => keepsToLine_pure _
  · exact keepsToLine_both Command.function keepsToLine_name keepsToLine_number
  · exact keepsToLine_both Command.call keepsToLine_name keepsToLine_number
  · exact keepsToLine_pure _
  · split
    · exact keepsToLine_pure _
    · exact keepsToLine_rejectCurrent _
  · exact keepsToLine_rejectCurrent _

end Source

/-- In both line-oriented languages each line is either one item or one complaint, whatever the other
lines are, and a source comes to all its items or to the complaints about its malformed lines. -/
theorem lines_are_judged_alone (source : String) :
    (parse source = gathered ((sourceLines .vm source).map Source.command.verdict) ∧
      ∀ line ∈ sourceLines .vm source,
        (∃ command, Source.command.verdict line = .ok ⟨command, line.number⟩) ∨
          ∃ found, Source.command.verdict line = .error [found]) ∧
    (Hack.parse source = gathered ((sourceLines .asm source).map Hack.Source.instruction.verdict) ∧
      ∀ line ∈ sourceLines .asm source,
        (∃ instruction, Hack.Source.instruction.verdict line = .ok ⟨instruction, line.number⟩) ∨
          ∃ found, Hack.Source.instruction.verdict line = .error [found]) := by
  have commands := Source.keepsToLine_command
  have instructions := Hack.Source.keepsToLine_instruction
  exact ⟨⟨readLines_eq_gathered .vm source commands,
      fun _ member => verdict_of_mem_sourceLines .vm source commands member⟩,
    readLines_eq_gathered .asm source instructions,
    fun _ member => verdict_of_mem_sourceLines .asm source instructions member⟩

end Vm
end HackToolchain
