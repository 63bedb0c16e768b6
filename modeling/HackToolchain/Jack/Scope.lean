import Std.Data.TreeMap
import HackToolchain.Abort
import HackToolchain.Vm.Command

namespace HackToolchain
namespace Jack

/-!
# Scopes

A scope knows the variables that are declared in it.  Variables of one kind live in one segment
of the stack machine and are numbered from zero in the order of their declarations.  A name that
is declared again means the new variable; the cell of the old one stays allocated.

The variables of a kind are counted in a machine word.  Counting the 65536th overflows it, and the
run is aborted at that declaration.
-/

/-- The four kinds of variables, by where they live. -/
inductive VariableKind where
  | static
  | field
  | argument
  | «local»
deriving DecidableEq, Repr

/-- The segment that holds the variables of a kind.  The fields are those of the current
object. -/
def VariableKind.segment : VariableKind -> Vm.Segment
  | .static => .static
  | .field => .this
  | .argument => .argument
  | .«local» => .«local»

/-- What a name stands for. -/
structure Variable where
  /-- The name of the declared type. -/
  type : String
  kind : VariableKind
  index : UInt16
deriving DecidableEq, Repr

/-- The number of variables of each kind. -/
structure VariableCounts where
  static : UInt16 := 0
  field : UInt16 := 0
  argument : UInt16 := 0
  locals : UInt16 := 0
deriving DecidableEq, Repr

namespace VariableCounts

/-- The number of variables of a kind. -/
def get (counts : VariableCounts) : VariableKind -> UInt16
  | .static => counts.static
  | .field => counts.field
  | .argument => counts.argument
  | .«local» => counts.locals

/-- Replace the number of variables of a kind. -/
def set (counts : VariableCounts) (kind : VariableKind) (count : UInt16) : VariableCounts :=
  match kind with
  | .static => { counts with static := count }
  | .field => { counts with field := count }
  | .argument => { counts with argument := count }
  | .«local» => { counts with locals := count }

end VariableCounts

/-- The variables of a scope by name, and how many of each kind have been declared. -/
structure Scope where
  bindings : Std.TreeMap String Variable
  counts : VariableCounts

namespace Scope

/-- A scope without variables. -/
def empty : Scope := ⟨∅, {}⟩

/-- Forget all variables, and that cells were taken by them. -/
def clear (scope : Scope) : Scope := { scope with bindings := ∅, counts := {} }

/-- What a name stands for in the scope. -/
def get? (scope : Scope) (name : String) : Option Variable := scope.bindings[name]?

/-- The number of declarations of a kind. -/
def count (scope : Scope) (kind : VariableKind) : UInt16 := scope.counts.get kind

/-- Declare a variable, and count it. -/
def define (scope : Scope) (name type : String) (kind : VariableKind) :
    Except Abort (Variable × Scope) :=
  let index := scope.count kind
  if index.toNat + 1 < UInt16.size then
    let declared : Variable := ⟨type, kind, index⟩
    .ok (declared, ⟨scope.bindings.insert name declared, scope.counts.set kind (index + 1)⟩)
  else .error .overflow

/-- Declare several variables of one type and kind in order. -/
def defineAll (kind : VariableKind) (type : String) (scope : Scope) (names : List String) :
    Except Abort Scope :=
  names.foldlM (fun scope name => (scope.define name type kind).map Prod.snd) scope

end Scope
end Jack
end HackToolchain
