import HackToolchain.Jack.Emission
import HackToolchain.Jack.Tree

namespace HackToolchain
namespace Jack

/-!
# Stack code of a class

Every expression leaves one word on the stack and every statement leaves none.  Operators that
the stack machine lacks, and strings, are calls of the operating system.

Code follows the order of the source.  For an assigned element this means that the address is
pushed before the value, whose own code may move the `that` segment.  The condition of a branch
or a loop is inverted, so that one conditional jump leaves the code it guards.
-/

open Vm

/-! ## Names -/

/-- The scopes around a piece of code. -/
structure Scopes where
  className : String
  ofClass : Scope
  ofSubroutine : Scope

namespace Scopes

/-- What a name stands for.  The subroutine's variables hide those of the class. -/
def lookup? (scopes : Scopes) (name : String) : Option Variable :=
  scopes.ofSubroutine.get? name <|> scopes.ofClass.get? name

/-- What a name stands for, which has to be declared.  The position is the one to complain
at. -/
def resolve (scopes : Scopes) (name : String) (position : Position) : Emission Variable :=
  match scopes.lookup? name with
  | some declared => pure declared
  | none => .stop (.refused (.unresolved scopes.className position name))

end Scopes

/-- Push a variable. -/
def Variable.push (declared : Variable) : Command := .push declared.kind.segment declared.index

/-- Pop to a variable. -/
def Variable.pop (declared : Variable) : Command := .pop declared.kind.segment declared.index

/-! ## Expressions -/

namespace Code

open Emission

/-- The name by which a routine of a class is called. -/
def qualified (className routine : String) : String := className ++ "." ++ routine

/-- The code of an operator between two words. -/
def binary : BinaryOperator -> Command
  | .add => .arithmetic .add
  | .sub => .arithmetic .sub
  | .mul => .call "Math.multiply" 2
  | .div => .call "Math.divide" 2
  | .and => .arithmetic .and
  | .or => .arithmetic .or
  | .lt => .arithmetic .lt
  | .gt => .arithmetic .gt
  | .eq => .arithmetic .eq

/-- The code of an operator in front of a word. -/
def unary : UnaryOperator -> Command
  | .neg => .arithmetic .neg
  | .not => .arithmetic .not

/-- The code of a keyword constant.  True has all bits set. -/
def constant : Constant -> List Command
  | .true => [.push .constant 1, .arithmetic .neg]
  | .false => [.push .constant 0]
  | .null => [.push .constant 0]
  | .this => [.push .pointer 0]

/-- The code of a string: an object of the operating system that is filled character by
character.  Characters are ASCII, so each is one word. -/
def string (text : String) : List Command :=
  .push .constant (UInt16.ofNat text.length) :: .call "String.new" 1 ::
    text.toList.flatMap fun character =>
      [.push .constant (UInt16.ofNat character.toNat), .call "String.appendChar" 2]

/-- Push what a call is made on, if it is made on an object, and tell the name of the routine and
the number of arguments pushed.  A call without a qualifier is made on the current object. -/
def receiver (scopes : Scopes) (qualifier : Option String) (routine : String) :
    Emission (String × Nat) :=
  match qualifier with
  | none => do
    emit [.push .pointer 0]
    return (qualified scopes.className routine, 1)
  | some qualifier =>
    match scopes.lookup? qualifier with
    | some object => do
      emit [object.push]
      return (qualified object.type routine, 1)
    | none => return (qualified qualifier routine, 0)

mutual

/-- Push the value of a term. -/
def term (scopes : Scopes) : Term -> Emission Unit
  | .integer _ value => emit [.push .constant value]
  | .string token => emit (string token.literal)
  | .constant _ value => emit (constant value)
  | .variable token => do
    let declared ← scopes.resolve token.literal token.position
    emit [declared.push]
  | .element token index => do
    let array ← scopes.resolve token.literal token.position
    emit [array.push]
    expression scopes index
    emit [.arithmetic .add, .pop .pointer 1, .push .that 0]
  | .call target => call scopes target
  | .group _ inner => expression scopes inner
  | .unary _ operator operand => do
    term scopes operand
    emit [unary operator]

/-- Push the value of an expression. -/
def expression (scopes : Scopes) : Expression -> Emission Unit
  | .term first => term scopes first
  | .binary left operator right => do
    expression scopes left
    term scopes right
    emit [binary operator]

/-- Push the result of a call. -/
def call (scopes : Scopes) : Call -> Emission Unit
  | .mk _ qualifier routine values => do
    let (target, pushed) ← receiver scopes qualifier routine
    arguments scopes values
    emit [.call target (UInt16.ofNat (pushed + values.length))]

/-- Push the values of a call's arguments. -/
def arguments (scopes : Scopes) : List Expression -> Emission Unit
  | [] => pure ()
  | first :: rest => do
    expression scopes first
    arguments scopes rest

end

/-! ## Statements -/

mutual

/-- The code of a statement.  The address of an element is pushed before the value, whose code
may move the `that` segment; the value then waits in a temporary cell while the address is
popped. -/
def statement (scopes : Scopes) : Statement -> Emission Unit
  | .assign token name none value => do
    expression scopes value
    let target ← scopes.resolve name token.position
    emit [target.pop]
  | .assign token name (some index) value => do
    let array ← scopes.resolve name token.position
    emit [array.push]
    expression scopes index
    emit [.arithmetic .add]
    expression scopes value
    emit [.pop .temp 0, .pop .pointer 1, .push .temp 0, .pop .that 0]
  | .branch _ condition consequence none => do
    expression scopes condition
    emit [.arithmetic .not]
    let finish ← freshLabel .endIf
    emit [.ifGoto finish]
    statements scopes consequence
    emit [.label finish]
  | .branch _ condition consequence (some alternative) => do
    expression scopes condition
    emit [.arithmetic .not]
    let finish ← freshLabel .endIf
    let otherwise ← freshLabel .elseIf
    emit [.ifGoto otherwise]
    statements scopes consequence
    emit [.goto finish, .label otherwise]
    statements scopes alternative
    emit [.label finish]
  | .loop _ condition body => do
    let start ← freshLabel .beginWhile
    let finish ← freshLabel .endWhile
    emit [.label start]
    expression scopes condition
    emit [.arithmetic .not, .ifGoto finish]
    statements scopes body
    emit [.goto start, .label finish]
  | .perform _ target => do
    call scopes target
    emit [.pop .temp 0]
  | .«return» _ none => emit [.push .constant 0, .«return»]
  | .«return» _ (some value) => do
    expression scopes value
    emit [.«return»]

/-- The code of statements in order. -/
def statements (scopes : Scopes) : List Statement -> Emission Unit
  | [] => pure ()
  | first :: rest => do
    statement scopes first
    statements scopes rest

end

/-! ## Subroutines -/

/-- Declare the variables of a subroutine.  The object that a method is called on is its first
argument. -/
def declareSubroutine (className : String) (routine : Subroutine) (scope : Scope) :
    Except Abort Scope := do
  let receivers := match routine.kind with
    | .method => ["this"]
    | .constructor | .function => []
  let scope ← scope.defineAll .argument className receivers
  let scope ← routine.parameters.foldlM
    (fun scope parameter => scope.defineAll .argument parameter.type.text [parameter.name]) scope
  routine.locals.foldlM
    (fun scope declared => scope.defineAll .«local» declared.type.text declared.names) scope

/-- The variables of a subroutine. -/
def subroutineScope (className : String) (routine : Subroutine) : Except Abort Scope :=
  declareSubroutine className routine .empty

/-- The code that sets up the current object: a constructor allocates it with a word for each
field of the class, and a method is given it. -/
def prologue (fields : UInt16) : SubroutineKind -> List Command
  | .constructor => [.push .constant fields, .call "Memory.alloc" 1, .pop .pointer 0]
  | .method => [.push .argument 0, .pop .pointer 0]
  | .function => []

/-- The code of a subroutine whose variables are declared. -/
def body (scopes : Scopes) (routine : Subroutine) : Emission Unit := do
  emit (.function (qualified scopes.className routine.name) (scopes.ofSubroutine.count .«local») ::
    prologue (scopes.ofClass.count .field) routine.kind)
  statements scopes routine.statements

/-- The kind of the variables of a class declaration. -/
def declaredKind : ClassVariableKind -> VariableKind
  | .static => .static
  | .field => .field

/-- Declare the variables of a class. -/
def declareClass (declarations : List ClassVariables) (scope : Scope) :
    Except Abort Scope :=
  declarations.foldlM
    (fun scope declared =>
      scope.defineAll (declaredKind declared.kind) declared.type.text declared.names)
    scope

/-- The variables of a class. -/
def classScope (declarations : List ClassVariables) : Except Abort Scope :=
  declareClass declarations .empty

end Code
end Jack
end HackToolchain
