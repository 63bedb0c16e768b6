import HackToolchain.Jack.Generator

namespace HackToolchain
namespace Jack

/-!
# What generators carry over

A generator works through the subroutines of a class as one emission does that declares the variables
of each on the way.  So the code of a class can be looked at without a generator.

What a generator goes on from is a class, its variables and its labels, and entering a class sets all
of them.  The scope of a subroutine is set when the subroutine begins.  Two generators that enter the
same class can therefore not be told apart by anything they do from then on, except that each has its
own earlier commands in front.
-/

open Vm

/-! ## The code of subroutines -/

namespace Code

open Emission

/-- The code of a subroutine of a class, whose variables are yet to be declared. -/
def subroutine (className : String) (ofClass : Scope) (routine : Subroutine) : Emission Unit :=
  match subroutineScope className routine with
  | .ok scope => body ⟨className, ofClass, scope⟩ routine
  | .error abort => stop (.aborted abort)

/-- The code of subroutines in order. -/
def subroutines (className : String) (ofClass : Scope) : List Subroutine -> Emission Unit
  | [] => pure ()
  | first :: rest => do
    subroutine className ofClass first
    subroutines className ofClass rest

end Code

namespace Generator

/-- A generator that knows other variables of a subroutine. -/
def within (generator : Generator) (scope : Scope) : Generator :=
  { generator with ofSubroutine := scope }

theorem write_within (generator : Generator) (scope : Scope) (emission : Emission Unit) :
    (generator.within scope).write emission =
      ((generator.write emission).1, (generator.write emission).2.within scope) := rfl

/-- A generator writes a subroutine as its emission does, and keeps the subroutine's variables. -/
theorem writeSubroutine_eq (generator : Generator) (routine : Subroutine) :
    ∃ scope, generator.writeSubroutine routine = (generator.within scope).write
      (Code.subroutine generator.className generator.ofClass routine) := by
  have cleared : Code.declareSubroutine generator.className routine generator.ofSubroutine.clear =
      Code.subroutineScope generator.className routine := rfl
  simp only [writeSubroutine, Code.subroutine, cleared]
  cases Code.subroutineScope generator.className routine with
  | ok scope => exact ⟨scope, rfl⟩
  | error abort =>
      refine ⟨generator.ofSubroutine.clear, ?_⟩
      simp [write, within, Emission.stop]

/-- Writing more after something that was written is writing both at once. -/
theorem write_bind (generator : Generator) (first next : Emission Unit) :
    generator.write (first >>= fun _ => next) =
      match generator.write first with
      | (none, written) => written.write next
      | (some failure, written) => (some failure, written) := by
  change generator.write (Emission.andThen first fun _ => next) = _
  unfold write Emission.andThen
  rcases first generator.labels with ⟨commands, labels, result⟩
  cases result with
  | error error => rfl
  | ok value =>
      dsimp only
      rw [List.append_assoc]

/-- A generator writes subroutines as their emission does, and keeps the variables of the last one
that it began. -/
theorem writeSubroutines_eq (generator : Generator) (routines : List Subroutine) :
    ∃ scope, generator.writeSubroutines routines = (generator.within scope).write
      (Code.subroutines generator.className generator.ofClass routines) := by
  induction routines generalizing generator with
  | nil =>
      refine ⟨generator.ofSubroutine, ?_⟩
      change (none, generator) = (none, _)
      simp [within, pure, Emission.succeed, Code.subroutines]
  | cons first rest inductionHypothesis =>
      rcases generator.writeSubroutine_eq first with ⟨scope, firstEq⟩
      unfold Code.subroutines
      simp only [writeSubroutines, write_bind, firstEq, write_within]
      rcases outcome : generator.write
        (Code.subroutine generator.className generator.ofClass first) with ⟨failure, written⟩
      cases failure with
      | some error => exact ⟨scope, rfl⟩
      | none =>
          have written_eq := congrArg Prod.snd outcome
          rcases inductionHypothesis (written.within scope) with ⟨last, restEq⟩
          cases written_eq
          exact ⟨last, restEq⟩

end Generator

/-- The commands of a class are those of its subroutines, once the class's variables are declared. -/
theorem compileClass_eq (tree : Class) :
    compileClass tree = match Code.classScope tree.declarations with
      | .ok ofClass =>
        let emitted := Code.subroutines tree.name ofClass tree.subroutines {}
        emitted.result.map fun _ => emitted.commands
      | .error abort => .error (.aborted abort) := by
  have entered : Code.declareClass tree.declarations Generator.initial.ofClass.clear =
      Code.classScope tree.declarations := rfl
  simp only [compileClass, Generator.writeClass, Generator.enter, entered]
  cases Code.classScope tree.declarations with
  | error abort => rfl
  | ok ofClass =>
      dsimp only
      rcases Generator.writeSubroutines_eq _ tree.subroutines with ⟨scope, written⟩
      rw [written]
      unfold Generator.write Generator.within
      dsimp only
      cases (Code.subroutines tree.name ofClass tree.subroutines {}).result with
      | error error => rfl
      | ok => rfl

theorem compile_of_parse_ok {source : String} {tree : Class} (parsed : parse source = .ok tree) :
    compile source = compileClass tree := by
  unfold compile
  rw [parsed]

theorem compile_of_parse_error {source : String} {diagnostics : List Diagnostic}
    (parsed : parse source = .error diagnostics) :
    compile source = .error (.refused (.malformed diagnostics)) := by
  unfold compile
  rw [parsed]

/-! ## From class to class -/

namespace Generator

/-- A call of a generator. -/
inductive Step where
  | «class» (tree : Class)
  | subroutine (routine : Subroutine)

/-- What a call answers, and the generator after it. -/
def step (generator : Generator) : Step -> Option Failure × Generator
  | .«class» tree => generator.writeClass tree
  | .subroutine routine => generator.writeSubroutine routine

/-- What calls answer one after the other, and the generator after them.  A call that fails does not
keep the next one from being made. -/
def run (generator : Generator) : List Step -> List (Option Failure) × Generator
  | [] => ([], generator)
  | step :: rest =>
    let (answer, next) := generator.step step
    let (answers, last) := next.run rest
    (answer :: answers, last)

/-- Two generators are at the same place of a class.  One has written commands in front of those of
the other, and they may know different variables of a subroutine. -/
structure Follows (generator fresh : Generator) (front : List Command) : Prop where
  commands : generator.commands = front ++ fresh.commands
  className : generator.className = fresh.className
  ofClass : generator.ofClass = fresh.ofClass
  labels : generator.labels = fresh.labels

/-- Two generators answer the same and are at the same place then. -/
structure Agrees (given fresh : α × Generator) (front : List Command) : Prop where
  answer : given.1 = fresh.1
  follows : given.2.Follows fresh.2 front

variable {generator fresh : Generator} {front : List Command}

theorem Follows.within (follows : generator.Follows fresh front) (scope other : Scope) :
    (generator.within scope).Follows (fresh.within other) front :=
  ⟨follows.commands, follows.className, follows.ofClass, follows.labels⟩

theorem Follows.write (follows : generator.Follows fresh front) (emission : Emission Unit) :
    Agrees (generator.write emission) (fresh.write emission) front := by
  unfold Generator.write
  rw [follows.labels, follows.commands]
  exact ⟨rfl, List.append_assoc _ _ _, follows.className, follows.ofClass, rfl⟩

theorem Follows.writeSubroutine (follows : generator.Follows fresh front) (routine : Subroutine) :
    Agrees (generator.writeSubroutine routine) (fresh.writeSubroutine routine) front := by
  rcases generator.writeSubroutine_eq routine with ⟨scope, writtenEq⟩
  rcases fresh.writeSubroutine_eq routine with ⟨other, freshEq⟩
  rw [writtenEq, freshEq, follows.className, follows.ofClass]
  exact (follows.within scope other).write _

theorem Follows.writeSubroutines (follows : generator.Follows fresh front)
    (routines : List Subroutine) :
    Agrees (generator.writeSubroutines routines) (fresh.writeSubroutines routines) front := by
  rcases generator.writeSubroutines_eq routines with ⟨scope, writtenEq⟩
  rcases fresh.writeSubroutines_eq routines with ⟨other, freshEq⟩
  rw [writtenEq, freshEq, follows.className, follows.ofClass]
  exact (follows.within scope other).write _

/-- Entering a class brings any two generators to the same place. -/
theorem enter_agrees (commands : generator.commands = front ++ fresh.commands) (tree : Class) :
    Agrees (generator.enter tree) (fresh.enter tree) front := by
  have cleared : Code.declareClass tree.declarations generator.ofClass.clear =
      Code.declareClass tree.declarations fresh.ofClass.clear := rfl
  simp only [enter, cleared]
  cases Code.declareClass tree.declarations fresh.ofClass.clear with
  | ok scope => exact ⟨rfl, commands, rfl, rfl, rfl⟩
  | error abort => exact ⟨rfl, commands, rfl, rfl, rfl⟩

theorem writeClass_agrees (commands : generator.commands = front ++ fresh.commands) (tree : Class) :
    Agrees (generator.writeClass tree) (fresh.writeClass tree) front := by
  rcases enter_agrees commands tree with ⟨answer, follows⟩
  unfold writeClass
  rcases entered : generator.enter tree with ⟨failure, given⟩
  rcases freshly : fresh.enter tree with ⟨failure', other⟩
  rw [entered, freshly] at answer follows
  cases (answer : failure = failure')
  cases failure with
  | none => exact follows.writeSubroutines tree.subroutines
  | some error => exact ⟨rfl, follows⟩

theorem Follows.step (follows : generator.Follows fresh front) (step : Step) :
    Agrees (generator.step step) (fresh.step step) front := by
  cases step with
  | «class» tree => exact writeClass_agrees follows.commands tree
  | subroutine routine => exact follows.writeSubroutine routine

/-- Generators at the same place answer the same to all further calls. -/
theorem Follows.run (follows : generator.Follows fresh front) (steps : List Step) :
    Agrees (generator.run steps) (fresh.run steps) front := by
  induction steps generalizing generator fresh with
  | nil => exact ⟨rfl, follows⟩
  | cons step rest inductionHypothesis =>
      rcases follows.step step with ⟨answer, next⟩
      rcases inductionHypothesis next with ⟨answers, last⟩
      refine ⟨?_, last⟩
      change (generator.step step).1 :: _ = (fresh.step step).1 :: _
      rw [answer]
      exact congrArg _ answers

/-- A class begins anew.  Whatever a generator was called for before, and whether or not that failed,
it answers to a class as a generator does that was not used before, and puts the same commands behind
the ones it has.  The same goes for all calls from there on. -/
theorem class_begins_anew (earlier : List Step) (tree : Class) :
    let used := (initial.run earlier).2
    (used.writeClass tree).1 = (initial.writeClass tree).1 ∧
      (used.writeClass tree).2.commands =
        used.commands ++ (initial.writeClass tree).2.commands ∧
      ∀ later, ((used.writeClass tree).2.run later).1 = ((initial.writeClass tree).2.run later).1 ∧
        ((used.writeClass tree).2.run later).2.commands =
          used.commands ++ ((initial.writeClass tree).2.run later).2.commands := by
  intro used
  have commands : used.commands = used.commands ++ initial.commands := (List.append_nil _).symm
  rcases writeClass_agrees commands tree with ⟨answer, follows⟩
  refine ⟨answer, follows.commands, fun later => ?_⟩
  rcases follows.run later with ⟨answers, last⟩
  exact ⟨answers, last.commands⟩

end Generator

end Jack
end HackToolchain
