import HackToolchain.Proofs.Jack.Declarations
import HackToolchain.Proofs.Jack.Generation
import HackToolchain.Proofs.Jack.Reading

namespace HackToolchain
namespace Jack

/-!
# Places in a source leave no trace in code

The tokens that a tree keeps tell where to complain, and string constants and the names of variables
are read off them.  Code is the same for trees that differ in the positions of tokens only.
-/

open Vm

/-- What an emission has written, counted and answered, without the reason why it may have stopped. -/
def Emitted.withoutReason (emitted : Emitted α) : List Command × LabelCounts × Option α :=
  (emitted.commands, emitted.labels, emitted.result.toOption)

/-- Two emissions write the same and stop at the same point, if they stop. -/
def SameCode (emission other : Emission α) : Prop :=
  ∀ labels, (emission labels).withoutReason = (other labels).withoutReason

namespace SameCode

theorem refl (emission : Emission α) : SameCode emission emission := fun _ => rfl

theorem bind {first other : Emission α} {next rest : α -> Emission β} (begins : SameCode first other)
    (goesOn : ∀ value, SameCode (next value) (rest value)) :
    SameCode (first >>= next) (other >>= rest) := by
  intro labels
  have same := begins labels
  rcases written : first labels with ⟨commands, between, result⟩
  rcases writtenToo : other labels with ⟨commands', between', result'⟩
  rw [written, writtenToo] at same
  simp only [Emitted.withoutReason, Prod.mk.injEq] at same
  obtain ⟨rfl, rfl, same⟩ := same
  change (Emission.andThen first next labels).withoutReason =
    (Emission.andThen other rest labels).withoutReason
  unfold Emission.andThen
  rw [written, writtenToo]
  cases result with
  | error error =>
      cases result' <;> cases same
      rfl
  | ok value =>
      cases result' <;> cases same
      have further := goesOn value between
      simp only [Emitted.withoutReason, Prod.mk.injEq] at further ⊢
      exact ⟨congrArg _ further.1, further.2⟩

theorem resolve (scopes : Scopes) (name : String) (position other : Position) :
    SameCode (scopes.resolve name position) (scopes.resolve name other) := by
  intro labels
  unfold Scopes.resolve
  cases scopes.lookup? name with
  | none => rfl
  | some declared => rfl

end SameCode

open SameCode

theorem length_argumentsUnplaced (values : List Expression) :
    (argumentsUnplaced values).length = values.length := by
  rw [argumentsUnplaced_eq, List.length_map]

mutual

theorem sameCode_term (scopes : Scopes) : (tree : Term) ->
    SameCode (Code.term scopes tree.unplaced) (Code.term scopes tree)
  | .integer _ _ => refl _
  | .string _ => refl _
  | .constant _ _ => refl _
  | .variable token => (resolve scopes token.literal _ _).bind fun _ => refl _
  | .element token index => by
      refine (resolve scopes token.literal _ _).bind fun _ => (refl _).bind fun _ => ?_
      exact (sameCode_expression scopes index).bind fun _ => refl _
  | .call target => sameCode_call scopes target
  | .group _ inner => sameCode_expression scopes inner
  | .unary _ _ operand => (sameCode_term scopes operand).bind fun _ => refl _

theorem sameCode_expression (scopes : Scopes) : (tree : Expression) ->
    SameCode (Code.expression scopes tree.unplaced) (Code.expression scopes tree)
  | .term first => sameCode_term scopes first
  | .binary left _ right => (sameCode_expression scopes left).bind fun _ =>
      (sameCode_term scopes right).bind fun _ => refl _

theorem sameCode_call (scopes : Scopes) : (tree : Call) ->
    SameCode (Code.call scopes tree.unplaced) (Code.call scopes tree)
  | .mk _ qualifier routine values => by
      refine (refl (Code.receiver scopes qualifier routine)).bind fun target => ?_
      dsimp only
      rw [length_argumentsUnplaced]
      exact (sameCode_arguments scopes values).bind fun _ => refl _

theorem sameCode_arguments (scopes : Scopes) : (trees : List Expression) ->
    SameCode (Code.arguments scopes (argumentsUnplaced trees)) (Code.arguments scopes trees)
  | [] => refl _
  | first :: rest => (sameCode_expression scopes first).bind fun _ =>
      sameCode_arguments scopes rest

end

mutual

theorem sameCode_statement (scopes : Scopes) : (tree : Statement) ->
    SameCode (Code.statement scopes tree.unplaced) (Code.statement scopes tree)
  | .assign _ name none value => by
      refine (sameCode_expression scopes value).bind fun _ => ?_
      exact (resolve scopes name _ _).bind fun _ => refl _
  | .assign _ name (some index) value => by
      refine (resolve scopes name _ _).bind fun _ => (refl _).bind fun _ => ?_
      refine (sameCode_expression scopes index).bind fun _ => (refl _).bind fun _ => ?_
      exact (sameCode_expression scopes value).bind fun _ => refl _
  | .branch _ condition consequence none => by
      refine (sameCode_expression scopes condition).bind fun _ => (refl _).bind fun _ => ?_
      refine (refl _).bind fun _ => (refl _).bind fun _ => ?_
      exact (sameCode_statements scopes consequence).bind fun _ => refl _
  | .branch _ condition consequence (some alternative) => by
      refine (sameCode_expression scopes condition).bind fun _ => (refl _).bind fun _ => ?_
      refine (refl _).bind fun _ => (refl _).bind fun _ => (refl _).bind fun _ => ?_
      refine (sameCode_statements scopes consequence).bind fun _ => (refl _).bind fun _ => ?_
      exact (sameCode_statements scopes alternative).bind fun _ => refl _
  | .loop _ condition body => by
      refine (refl _).bind fun _ => (refl _).bind fun _ => (refl _).bind fun _ => ?_
      refine (sameCode_expression scopes condition).bind fun _ => (refl _).bind fun _ => ?_
      exact (sameCode_statements scopes body).bind fun _ => refl _
  | .perform _ target => (sameCode_call scopes target).bind fun _ => refl _
  | .«return» _ none => refl _
  | .«return» _ (some value) => (sameCode_expression scopes value).bind fun _ => refl _

theorem sameCode_statements (scopes : Scopes) : (trees : List Statement) ->
    SameCode (Code.statements scopes (statementsUnplaced trees)) (Code.statements scopes trees)
  | [] => refl _
  | first :: rest => (sameCode_statement scopes first).bind fun _ =>
      sameCode_statements scopes rest

end

/-! ## Classes -/

theorem declared_unplaced (className : String) (routine : Subroutine) :
    routine.unplaced.declared className = routine.declared className := by
  simp [Subroutine.declared, Subroutine.unplaced, Parameter.unplaced, LocalVariables.unplaced,
    List.flatMap_map, Function.comp_def]

theorem declaredByClass_unplaced (tree : Class) : tree.unplaced.declared = tree.declared := by
  simp [Class.declared, Class.unplaced, ClassVariables.unplaced, List.flatMap_map]

theorem sameCode_subroutines (className : String) (ofClass : Scope) (routines : List Subroutine) :
    SameCode (Code.subroutines className ofClass (routines.map Subroutine.unplaced))
      (Code.subroutines className ofClass routines) := by
  induction routines with
  | nil => exact refl _
  | cons first rest inductionHypothesis =>
      refine SameCode.bind ?_ fun _ => inductionHypothesis
      unfold Code.subroutine
      rw [subroutineScope_eq_declare, subroutineScope_eq_declare, declared_unplaced]
      cases Scope.empty.declare (first.declared className) with
      | error kind => exact refl _
      | ok scope => exact (refl _).bind fun _ => sameCode_statements _ first.statements

/-- The commands of a class do not depend on where its tokens were. -/
theorem compileClass_unplaced (tree : Class) :
    (compileClass tree.unplaced).toOption = (compileClass tree).toOption := by
  rw [compileClass_eq, compileClass_eq, classScope_eq_declare, classScope_eq_declare,
    declaredByClass_unplaced]
  cases Scope.empty.declare tree.declared with
  | error kind => rfl
  | ok ofClass =>
      have commandsOf (emitted : Emitted Unit) :
          (emitted.result.map fun _ => emitted.commands).toOption =
            emitted.withoutReason.2.2.map fun _ => emitted.withoutReason.1 := by
        rcases emitted with ⟨commands, labels, result⟩
        cases result <;> rfl
      have same := sameCode_subroutines tree.name ofClass tree.subroutines {}
      exact (commandsOf _).trans ((congrArg (fun written => written.2.2.map fun _ => written.1)
        same).trans (commandsOf _).symm)

end Jack
end HackToolchain
