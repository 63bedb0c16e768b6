import HackToolchain.Proofs.Jack.Structure

namespace HackToolchain
namespace Jack

/-!
# Emitted code keeps the operand stack in order

Code that leaves a number of words on the stack does so at any depth, because it takes no word that it
has not put there.  Code that leaves none begins and ends with nothing on the stack, so wherever it
jumps, the depth is the same as behind its last command.  By the structure of emitted code every
function of a class is disciplined.  Only the argument limit is assumed: with more arguments than a
word can count, a call would take other words than were pushed for it.
-/

open Vm

theorem Pushing.runs {count : Nat} {code : List Command} (pushing : Pushing count code) :
    ∀ depth, Runs depth code (depth + count) := by
  induction pushing with
  | nothing => exact fun depth => rfl
  | append _ _ first second =>
      intro depth
      rw [← Nat.add_assoc]
      exact (first depth).append (second _)
  | push valid =>
      intro depth
      exact .single (.plain (Nat.zero_le depth) (by nofun) rfl (by nofun)) rfl
  | operate operation _ operands =>
      intro depth
      refine (operands depth).append (.single ?_ ?_)
      · exact .plain (Nat.le_add_left _ depth) (by nofun) rfl (by nofun)
      · exact congrArg (· + 1) (Nat.add_sub_cancel depth _)
  | call name few _ pushed =>
      intro depth
      refine (pushed depth).append (.single ?_ ?_)
      · exact .plain (Nat.le_add_left _ depth) (by nofun) rfl (by nofun)
      · exact congrArg (· + 1) (Nat.add_sub_cancel depth _)
  | element _ address =>
      intro depth
      refine (address depth).append ⟨?_, ?_, rfl⟩
      · exact .plain (Nat.le_add_left 1 depth) (by nofun) rfl (by nofun)
      · exact .plain (Nat.zero_le _) (by nofun) rfl (by nofun)

theorem Finishing.runs {code : List Command} (finishing : Finishing code) : Runs 0 code 0 := by
  have label (name : String) : Runs 0 [.label name] 0 :=
    .single ⟨Nat.le_refl 0, fun _ _ => rfl, nofun, nofun⟩ rfl
  have jump (target : String) : Runs 1 [.ifGoto target] 0 :=
    .single ⟨Nat.le_refl 1, nofun, fun _ _ => rfl, nofun⟩ rfl
  have leave (target : String) : Runs 0 [.goto target] 0 :=
    .single ⟨Nat.le_refl 0, nofun, fun _ _ => rfl, nofun⟩ rfl
  induction finishing with
  | nothing => rfl
  | append _ _ first second => exact first.append second
  | pop valid value =>
      refine (value.runs 0).append (.single ?_ rfl)
      exact .plain (Nat.le_refl 1) (by nofun) rfl (by nofun)
  | store address value =>
      refine ((address.runs 0).append (value.runs 1)).append ⟨?_, ?_, ?_, ?_, rfl⟩
      · exact .plain (by decide) (by nofun) rfl (by nofun)
      · exact .plain (by decide) (by nofun) rfl (by nofun)
      · exact .plain (by decide) (by nofun) rfl (by nofun)
      · exact .plain (by decide) (by nofun) rfl (by nofun)
  | branch finish tested _ body =>
      exact (((tested.runs 0).append (jump finish)).append body).append (label finish)
  | alternative otherwise finish tested _ _ body rest =>
      have middle := (leave finish).append (label otherwise)
      exact (((((tested.runs 0).append (jump otherwise)).append body).append middle).append
        rest).append (label finish)
  | loop start finish tested _ body =>
      have back := (leave start).append (label finish)
      exact ((((label start).append (tested.runs 0)).append (jump finish)).append body).append back
  | «return» value =>
      refine (value.runs 0).append (.single ?_ rfl)
      exact ⟨Nat.le_refl 1, nofun, nofun, fun _ => rfl⟩

/-- The code of a class is the code of its functions one behind the other, each of which begins with
its own entry and has no other in it; and each has an assignment of depths to its positions. -/
theorem compileClass_disciplined {tree : Class} {commands : List Command}
    (compiled : compileClass tree = .ok commands) (few : tree.FewArguments) :
    ∃ codes, commands = codes.flatten ∧
      List.Forall₂ (fun subroutine code =>
        (∃ locals body,
          code = .function (Code.qualified tree.name subroutine.name) locals :: body ∧
            ∀ name locals, .function name locals ∉ body) ∧
        ∃ depth, Disciplined code depth) tree.subroutines codes := by
  obtain ⟨codes, rfl, each⟩ := compileClass_structure compiled few
  refine ⟨codes, rfl, each.imp ?_⟩
  rintro subroutine code ⟨locals, body, rfl, finishing, -⟩
  constructor
  · refine ⟨locals, body, rfl, ?_⟩
    intro name others member
    exact (finishing.inner _ member).noFunction name others rfl
  · exact ⟨_, finishing.runs.disciplined finishing.closed⟩

theorem box_disciplined : compileClass box = .ok boxCode ∧ box.FewArguments ∧
    ∃ codes, boxCode = codes.flatten ∧
      List.Forall₂ (fun subroutine code =>
        (∃ locals body, code = .function (Code.qualified "Box" subroutine.name) locals :: body ∧
          ∀ name locals, .function name locals ∉ body) ∧
        ∃ depth, Disciplined code depth) box.subroutines codes :=
  ⟨compileClass_box, fewArguments_box, compileClass_disciplined compileClass_box fewArguments_box⟩

end Jack
end HackToolchain
