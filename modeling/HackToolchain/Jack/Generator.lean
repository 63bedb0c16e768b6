import HackToolchain.Jack.Code
import HackToolchain.Jack.Source

namespace HackToolchain
namespace Jack

/-!
# Compiling classes

A generator collects the commands of classes.  It remembers the class it has entered, the variables
of that class and of the subroutine that was begun last, and the labels the class has used up, so
that further subroutines can be added to a class.  Entering a class forgets the one before, and
beginning a subroutine forgets the variables of the one before: nothing but the commands is carried
over from class to class, whether or not the code of the earlier one could be finished.

Where the count of some variables overflows, the run is aborted.  The generator of an aborted run
is out of reach of every caller; it is told with the others to keep them alike.
-/

open Vm

/-- The commands written so far, the class that was entered last, the variables in scope, and what
the labels of the class have come to. -/
structure Generator where
  commands : List Command
  className : String
  ofClass : Scope
  ofSubroutine : Scope
  labels : LabelCounts

namespace Generator

/-- A generator that has entered no class. -/
def initial : Generator := ⟨[], "", .empty, .empty, {}⟩

/-- Let an emission write.  If it stops, the answer is the reason. -/
def write (generator : Generator) (emission : Emission Unit) : Option Failure × Generator :=
  let emitted := emission generator.labels
  let failure := match emitted.result with
    | .ok () => none
    | .error failure => some failure
  (failure, { generator with
    commands := generator.commands ++ emitted.commands
    labels := emitted.labels })

/-- Enter a class.  Its variables come into scope and its labels start anew. -/
def enter (generator : Generator) (tree : Class) : Option Failure × Generator :=
  let entered : Generator :=
    { generator with className := tree.name, ofClass := generator.ofClass.clear, labels := {} }
  match Code.declareClass tree.declarations entered.ofClass with
  | .ok scope => (none, { entered with ofClass := scope })
  | .error abort => (some (.aborted abort), entered)

/-- Write a subroutine of the class that was entered last.  Its variables take the place of those
of the subroutine before. -/
def writeSubroutine (generator : Generator) (routine : Subroutine) :
    Option Failure × Generator :=
  let begun : Generator := { generator with ofSubroutine := generator.ofSubroutine.clear }
  match Code.declareSubroutine begun.className routine begun.ofSubroutine with
  | .ok scope =>
    let declared : Generator := { begun with ofSubroutine := scope }
    declared.write (Code.body ⟨declared.className, declared.ofClass, scope⟩ routine)
  | .error abort => (some (.aborted abort), begun)

/-- Write subroutines in order, up to the first that fails. -/
def writeSubroutines (generator : Generator) : List Subroutine -> Option Failure × Generator
  | [] => (none, generator)
  | first :: rest =>
    match generator.writeSubroutine first with
    | (none, written) => written.writeSubroutines rest
    | (some failure, written) => (some failure, written)

/-- Enter a class and write all its subroutines. -/
def writeClass (generator : Generator) (tree : Class) : Option Failure × Generator :=
  match generator.enter tree with
  | (none, entered) => entered.writeSubroutines tree.subroutines
  | (some failure, entered) => (some failure, entered)

end Generator

/-- The commands of a class. -/
def compileClass (tree : Class) : Except Failure (List Command) :=
  match Generator.initial.writeClass tree with
  | (none, generator) => .ok generator.commands
  | (some failure, _) => .error failure

/-- The commands of a class source. -/
def compile (source : String) : Except Failure (List Command) :=
  match parse source with
  | .ok tree => compileClass tree
  | .error diagnostics => .error (.refused (.malformed diagnostics))

end Jack
end HackToolchain
