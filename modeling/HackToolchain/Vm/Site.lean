import HackToolchain.Vm.Command

namespace HackToolchain
namespace Vm

/-!
# Sites

Labels belong to the function they stand in, or to the file where no function has begun.  So
what a command means depends on where it stands, and that is its site: the command with its line
and the scope around it.  A program is laid out into its sites once; what is wrong with a program
and what code it gets are then questions about sites.

A `function` command opens a scope and stands in it itself.  Only a reader who is told about the
command still finds it in the scope before.
-/

/-- A file and the function begun last in it. -/
structure Scope where
  file : String
  function : Option String
deriving DecidableEq, Repr

namespace Scope

/-- The scope at the beginning of a file. -/
def ofFile (file : String) : Scope := ⟨file, none⟩

/-- The name that labels of the scope carry: the function's, or else the file's. -/
def context (scope : Scope) : String := scope.function.getD scope.file

/-- The assembly symbol of a label of the scope. -/
def labelSymbol (scope : Scope) (label : String) : String := scope.context ++ "$" ++ label

/-- The assembly symbol of a static cell of the scope's file. -/
def staticSymbol (scope : Scope) (index : UInt16) : String :=
  scope.file ++ "." ++ toString index.toNat

/-- The scope a command stands in, given the scope in front of it. -/
def enter (scope : Scope) : Command -> Scope
  | .function name _ => { scope with function := some name }
  | _ => scope

end Scope

/-- A command at its place in a program. -/
structure Site where
  /-- The scope in front of the command. -/
  before : Scope
  command : Command
  line : Nat
deriving DecidableEq, Repr

namespace Site

/-- The scope the command stands in. -/
def scope (site : Site) : Scope := site.before.enter site.command

/-- The symbol the command gives a place in the program, if it gives one. -/
def definition? (site : Site) : Option String :=
  match site.command with
  | .function name _ => some name
  | .label label => some (site.scope.labelSymbol label)
  | _ => none

/-- The label the command jumps to, if it jumps. -/
def target? (site : Site) : Option String :=
  match site.command with
  | .goto label | .ifGoto label => some label
  | _ => none

/-- The sites of commands that stand in the given scope. -/
def ofCommands (scope : Scope) : List (Located Command) -> List Site
  | [] => []
  | ⟨command, line⟩ :: rest => ⟨scope, command, line⟩ :: ofCommands (scope.enter command) rest

/-- The sites of a file. -/
def ofFile (file : File) : List Site := ofCommands (.ofFile file.name) file.commands

/-- The sites of a program, file by file. -/
def ofFiles (files : List File) : List Site := files.flatMap ofFile

end Site
end Vm
end HackToolchain
