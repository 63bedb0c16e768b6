import HackToolchain.Proofs.Token.SourceLikeness
import HackToolchain.Proofs.Vm.Recovery

namespace HackToolchain
namespace Vm

/-!
# Commands are read without a look into malformed tokens

The operands of a command are well-formed tokens, and a token that cannot start a command is asked for
no more than a description.  So commands do not tell lines apart whose tokens are alike.
-/

namespace Source

open Production

theorem alike_segment : Alike .vm Eq segment segment := by
  refine (alike_expectLiteral (by decide)).bind fun name _ same => ?_
  obtain ⟨rfl, keeps⟩ := same
  cases Segment.ofName? name with
  | some segment => exact alike_pure rfl
  | none =>
      refine alike_reject ?_ _
      have isName : IsOneLine name.toList := Dialect.IsWord.isOneLine keeps
      unfold Complaint.IsOneLine Complaint.message
      rw [String.toList_append, String.toList_append]
      exact .append (.append (by decide) isName) (by decide)

theorem alike_number : Alike .vm Eq number number := by
  refine alike_expected (by decide) fun token keeps => ?_
  cases token.value? with
  | some value => exact alike_pure rfl
  | none =>
      have digits := Dialect.Keeps.isOneLine keeps nofun nofun nofun
      exact alike_reject (Complaint.isOneLine_outOfRange (by decide) digits) _

theorem alike_name : Alike .vm Eq name name :=
  (alike_expectLiteral (by decide)).mono fun _ _ same => same.1

/-- Two operands one behind the other. -/
theorem alike_both {first : Production α} {second : Production β} (build : α -> β -> γ)
    (alikeFirst : Alike .vm Eq first first) (alikeSecond : Alike .vm Eq second second) :
    Alike .vm Eq (do return build (← first) (← second) : Production γ)
      (do return build (← first) (← second)) := by
  refine alikeFirst.bind fun left _ same => alikeSecond.bind fun right _ sameRight => ?_
  cases same
  cases sameRight
  exact alike_pure rfl

theorem alike_command : Alike .vm Eq command command := by
  refine alike_current.bind fun token other same => ?_
  rw [← same.kind]
  have named (build : String -> Command) : Alike .vm Eq
      (do return build (← name) : Production Command) (do return build (← name)) := by
    refine alike_name.bind fun _ _ same => ?_
    cases same
    exact alike_pure rfl
  split
  · exact alike_both Command.push alike_segment alike_number
  · exact alike_both Command.pop alike_segment alike_number
  · exact named Command.label
  · exact named Command.goto
  · exact (alike_expect _).bind fun _ _ _ => (alike_expect _).bind fun _ _ _ => named Command.ifGoto
  · exact alike_both Command.function alike_name alike_number
  · exact alike_both Command.call alike_name alike_number
  · exact alike_pure rfl
  · split
    · exact alike_pure rfl
    · exact alike_rejectCurrent (by decide)
  · exact alike_rejectCurrent (by decide)

end Source

/-- Sources whose tokens are alike have the same commands, or are refused alike. -/
theorem sameOutcome_parse {source other : String}
    (streams : ((lineReading .vm).stream source).Alike .vm ((lineReading .vm).stream other)) :
    SameOutcome Diagnostic.Alike (parse source) (parse other) :=
  sameOutcome_readLines Source.keepsToLine_command streams fun _ _ _ lines =>
    Source.alike_command.verdict lines

end Vm
end HackToolchain
