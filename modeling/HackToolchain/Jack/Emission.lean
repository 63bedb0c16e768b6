import HackToolchain.Jack.Scope
import HackToolchain.Token.Diagnostic

namespace HackToolchain
namespace Jack

/-!
# Emissions

Code is written front to back by an `Emission`: it hands out commands, numbers labels, and may
stop, because of a name that no scope declares or because the whole run ends there.  What was
written before it stopped is kept, and so are the numbers used up for labels.
-/

open Vm

/-! ## Errors -/

/-- What is wrong with a class. -/
inductive CompileError where
  /-- The source is not a class. -/
  | malformed (diagnostics : List Diagnostic)
  /-- A variable that neither the subroutine nor the class declares. -/
  | unresolved (className : String) (position : Position) (name : String)
deriving DecidableEq, Repr

/-- The wording of a compile error. -/
def CompileError.message : CompileError -> String
  | .malformed diagnostics => Diagnostic.joined diagnostics
  | .unresolved className position name =>
    "internal compiler error (" ++ className ++ " - line " ++ toString position.line ++ ", col " ++
      toString position.column ++ "): unresolved symbol '" ++ name ++ "'"

/-- Why there is no code. -/
inductive Failure where
  /-- The class has an error. -/
  | refused (error : CompileError)
  /-- The run has ended. -/
  | aborted (abort : Abort)
deriving DecidableEq, Repr

/-- What is said about a failure. -/
def Failure.message : Failure -> String
  | .refused error => error.message
  | .aborted abort => abort.message

/-! ## Labels -/

/-- What a label of the code marks. -/
inductive LabelBase where
  | endIf
  | elseIf
  | beginWhile
  | endWhile
deriving DecidableEq, Repr

/-- The text in front of a label's number. -/
def LabelBase.text : LabelBase -> String
  | .endIf => "END_IF"
  | .elseIf => "ELSE_IF"
  | .beginWhile => "WHILE"
  | .endWhile => "END_WHILE"

/-- How many labels have been made from each base.  The counts have no bound: one that is kept in
a 32-bit word overflows first in a class with 2^32 branches or loops, which is out of reach. -/
structure LabelCounts where
  endIf : Nat := 0
  elseIf : Nat := 0
  beginWhile : Nat := 0
  endWhile : Nat := 0
deriving DecidableEq, Repr

namespace LabelCounts

/-- The number of labels made from a base. -/
def get (counts : LabelCounts) : LabelBase -> Nat
  | .endIf => counts.endIf
  | .elseIf => counts.elseIf
  | .beginWhile => counts.beginWhile
  | .endWhile => counts.endWhile

/-- Count one more label of a base. -/
def increment (counts : LabelCounts) : LabelBase -> LabelCounts
  | .endIf => { counts with endIf := counts.endIf + 1 }
  | .elseIf => { counts with elseIf := counts.elseIf + 1 }
  | .beginWhile => { counts with beginWhile := counts.beginWhile + 1 }
  | .endWhile => { counts with endWhile := counts.endWhile + 1 }

/-- The next label of a base.  The labels of a base are numbered from one. -/
def next (counts : LabelCounts) (base : LabelBase) : String × LabelCounts :=
  let counts := counts.increment base
  (base.text ++ "_" ++ toString (counts.get base), counts)

end LabelCounts

/-! ## Emissions -/

/-- What became of an emission: the commands it wrote, the labels counted by then, and its value
or the reason why it stopped. -/
structure Emitted (α : Type) where
  commands : List Command
  labels : LabelCounts
  result : Except Failure α

/-- Writing code that goes on from a count of labels. -/
def Emission (α : Type) : Type := LabelCounts -> Emitted α

namespace Emission

/-- Write nothing. -/
def succeed (value : α) : Emission α := fun labels => ⟨[], labels, .ok value⟩

/-- Write code and then more code, unless the first stops. -/
def andThen (first : Emission α) (next : α -> Emission β) : Emission β := fun labels =>
  let written := first labels
  match written.result with
  | .ok value =>
    let more := next value written.labels
    ⟨written.commands ++ more.commands, more.labels, more.result⟩
  | .error failure => ⟨written.commands, written.labels, .error failure⟩

instance : Monad Emission where
  pure := succeed
  bind := andThen

/-- Write commands. -/
def emit (commands : List Command) : Emission Unit := fun labels => ⟨commands, labels, .ok ()⟩

/-- Stop. -/
def stop (failure : Failure) : Emission α := fun labels => ⟨[], labels, .error failure⟩

/-- Make a label that the class does not have yet. -/
def freshLabel (base : LabelBase) : Emission String := fun labels =>
  let (label, labels) := labels.next base
  ⟨[], labels, .ok label⟩

end Emission

end Jack
end HackToolchain
