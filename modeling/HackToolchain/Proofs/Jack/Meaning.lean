import HackToolchain.Proofs.Jack.Declarations
import HackToolchain.Proofs.Vm.Activation

namespace HackToolchain
namespace Jack

/-!
# The meaning of class trees

What a subroutine does is told by its tree alone.  Expressions are evaluated from left to right with
no precedence, and every call that they make may change what is shared.  Statements change the
subroutine's variables as well, and may return.  Calls are interpreted, and multiplication, division
and strings are calls of the operating system.

A name means what is declared around it: the latest declaration of the subroutine that has the name, or
else of the class.  Its cell is numbered by the declarations of its kind in front of it.  A name that is
not declared has no meaning, so neither has a tree that uses it.

A loop may go on forever.  Statements are therefore given a bound on the rounds of each loop, and are
left unfinished where the bound is met.
-/

open Vm

/-! ## Variables -/

/-- What a piece of code is understood by: the name of its class, and the declarations around it. -/
structure Setting where
  className : String
  surroundings : Surroundings

/-- What a name stands for. -/
def Setting.lookup? (setting : Setting) (name : String) : Option Variable :=
  (setting.surroundings.latest? name).map fun found => found.1.variable found.2

/-- What the statements of a subroutine are understood by. -/
def Subroutine.setting (tree : Class) (routine : Subroutine) : Setting :=
  ⟨tree.name, routine.surroundings tree⟩

/-- The name by which a routine of a class is called from everywhere. -/
def routineName (className routine : String) : String := className ++ "." ++ routine

/-- The value of a variable.  A field belongs to the current object. -/
def Variable.read (file : String) (store : Store) (declared : Variable) : UInt16 :=
  match declared.kind with
  | .static => store.shared.statics file declared.index
  | .field => store.shared.heap (store.object + declared.index)
  | .argument => store.arguments declared.index
  | .«local» => store.locals declared.index

/-- Assign to a variable. -/
def Variable.write (file : String) (store : Store) (value : UInt16) (declared : Variable) : Store :=
  match declared.kind with
  | .static => { store with shared := store.shared.setStatic file declared.index value }
  | .field => { store with shared := store.shared.setHeap (store.object + declared.index) value }
  | .argument =>
    { store with arguments := Function.update store.arguments declared.index value }
  | .«local» => { store with locals := Function.update store.locals declared.index value }

namespace Meaning

/-! ## Operators and constants -/

/-- What an operator makes of two words.  Comparisons look at the sign of the difference. -/
def binary (calls : Interpretation) (left right : UInt16) (shared : Shared) :
    BinaryOperator -> UInt16 × Shared
  | .add => (left + right, shared)
  | .sub => (left - right, shared)
  | .mul => calls.answer "Math.multiply" [left, right] shared
  | .div => calls.answer "Math.divide" [left, right] shared
  | .and => (left &&& right, shared)
  | .or => (left ||| right, shared)
  | .lt => (Machine.truth (Hack.isNegative (left - right)), shared)
  | .gt =>
    (Machine.truth (!(Hack.isNegative (left - right) || left - right == 0)), shared)
  | .eq => (Machine.truth (left - right == 0), shared)

/-- What an operator makes of a word. -/
def unary (word : UInt16) : UnaryOperator -> UInt16
  | .neg => -word
  | .not => ~~~word

/-- The words that keywords stand for.  True has all bits set. -/
def constant (object : UInt16) : Constant -> UInt16
  | .true => 0xffff
  | .false => 0
  | .null => 0
  | .this => object

/-- Append characters one by one to the object that a string is made of. -/
def characters (calls : Interpretation) (text : List Char) (made : UInt16 × Shared) :
    UInt16 × Shared :=
  text.foldl
    (fun made character =>
      calls.answer "String.appendChar" [made.1, UInt16.ofNat character.toNat] made.2) made

/-- A string is an object that is made for its length and then filled. -/
def string (calls : Interpretation) (text : String) (shared : Shared) : UInt16 × Shared :=
  characters calls text.toList (calls.answer "String.new" [UInt16.ofNat text.length] shared)

/-- The name of the routine that is called, and the object that it is called on, if any.  A call
without a qualifier is made on the current object, and a variable's object belongs to the class that
the variable was declared with. -/
def receiver (setting : Setting) (qualifier : Option String) (routine : String) (store : Store) :
    String × List UInt16 :=
  match qualifier with
  | none => (routineName setting.className routine, [store.object])
  | some qualifier =>
    match setting.lookup? qualifier with
    | some declared =>
      (routineName declared.type routine, [declared.read setting.className store])
    | none => (routineName qualifier routine, [])

/-! ## Expressions -/

/-- A value and the store after it was computed. -/
abbrev Evaluated := UInt16 × Store

/-- Put what is shared after a call into the store. -/
def afterCall (store : Store) (answer : UInt16 × Shared) : Evaluated :=
  (answer.1, { store with shared := answer.2 })

mutual

/-- The value of a term. -/
def term (setting : Setting) (calls : Interpretation) : Term -> Store -> Option Evaluated
  | .integer _ value, store => some (value, store)
  | .string token, store => some (afterCall store (string calls token.literal store.shared))
  | .constant _ value, store => some (constant store.object value, store)
  | .variable token, store => do
    let declared ← setting.lookup? token.literal
    return (declared.read setting.className store, store)
  | .element token index, store => do
    let array ← setting.lookup? token.literal
    let base := array.read setting.className store
    let (offset, store) ← expression setting calls index store
    return (store.shared.heap (base + offset), store)
  | .call target, store => call setting calls target store
  | .group _ inner, store => expression setting calls inner store
  | .unary _ operator operand, store => do
    let (word, store) ← term setting calls operand store
    return (unary word operator, store)

/-- The value of an expression.  The operators apply in the order in which they are written. -/
def expression (setting : Setting) (calls : Interpretation) :
    Expression -> Store -> Option Evaluated
  | .term first, store => term setting calls first store
  | .binary left operator right, store => do
    let (first, store) ← expression setting calls left store
    let (second, store) ← term setting calls right store
    return afterCall store (binary calls first second store.shared operator)

/-- The result of a call. -/
def call (setting : Setting) (calls : Interpretation) : Call -> Store -> Option Evaluated
  | .mk _ qualifier routine values, store => do
    let (target, receivers) := receiver setting qualifier routine store
    let (words, store) ← arguments setting calls values store
    return afterCall store (calls.answer target (receivers ++ words) store.shared)

/-- The values of a call's arguments. -/
def arguments (setting : Setting) (calls : Interpretation) :
    List Expression -> Store -> Option (List UInt16 × Store)
  | [], store => some ([], store)
  | first :: rest, store => do
    let (word, store) ← expression setting calls first store
    let (words, store) ← arguments setting calls rest store
    return (word :: words, store)

end

/-! ## Statements -/

/-- What statements come to. -/
inductive Outcome where
  | finished (store : Store)
  | returned (value : UInt16) (store : Store)
  /-- A loop has used up its rounds. -/
  | unfinished

/-- Whether a word lets a branch or a loop be entered. -/
def isTrue (word : UInt16) : Bool := ~~~word == 0

/-- Go through a loop for at most a number of rounds. -/
def loop (condition : Store -> Option Evaluated) (body : Store -> Option Outcome) :
    Nat -> Store -> Option Outcome
  | 0, _ => some .unfinished
  | rounds + 1, store => do
    let (word, store) ← condition store
    if isTrue word then
      match ← body store with
      | .finished store => loop condition body rounds store
      | other => return other
    else return .finished store

mutual

/-- What a statement comes to, when no loop goes on for more than a number of rounds.  The cell of an
assigned element is fixed before the value is computed. -/
def statement (setting : Setting) (calls : Interpretation) (rounds : Nat) :
    Statement -> Store -> Option Outcome
  | .assign _ name none value, store => do
    let (word, store) ← expression setting calls value store
    let target ← setting.lookup? name
    return .finished (target.write setting.className store word)
  | .assign _ name (some index) value, store => do
    let array ← setting.lookup? name
    let base := array.read setting.className store
    let (offset, store) ← expression setting calls index store
    let (word, store) ← expression setting calls value store
    return .finished { store with shared := store.shared.setHeap (base + offset) word }
  | .branch _ condition consequence none, store => do
    let (word, store) ← expression setting calls condition store
    if isTrue word then statements setting calls rounds consequence store
    else return .finished store
  | .branch _ condition consequence (some alternative), store => do
    let (word, store) ← expression setting calls condition store
    if isTrue word then statements setting calls rounds consequence store
    else statements setting calls rounds alternative store
  | .loop _ condition body, store =>
    loop (expression setting calls condition) (statements setting calls rounds body) rounds store
  | .perform _ target, store => do
    let (_, store) ← call setting calls target store
    return .finished store
  | .«return» _ none, store => return .returned 0 store
  | .«return» _ (some value), store => do
    let (word, store) ← expression setting calls value store
    return .returned word store

/-- What statements come to one after the other.  What stands behind a return is not reached. -/
def statements (setting : Setting) (calls : Interpretation) (rounds : Nat) :
    List Statement -> Store -> Option Outcome
  | [], store => return .finished store
  | first :: rest, store => do
    match ← statement setting calls rounds first store with
    | .finished store => statements setting calls rounds rest store
    | other => return other

end

/-! ## Subroutines -/

/-- The number of fields that a class declares. -/
def fieldCount (declarations : List ClassVariables) : Nat :=
  (declarations.map fun declared =>
    if declared.kind = .field then declared.names.length else 0).sum

/-- The number of local variables that a subroutine declares. -/
def localCount (routine : Subroutine) : Nat :=
  (routine.locals.map fun declared => declared.names.length).sum

/-- The store at the beginning of a subroutine's statements.  Local variables are zero.  A
constructor works on a new object with a word for each field of its class, and a method on the
object that it is given first. -/
def entry (calls : Interpretation) (declarations : List ClassVariables) (routine : Subroutine)
    (store : Store) : Store :=
  let store := { store with
    locals := zeroed (UInt16.ofNat (localCount routine)) store.locals }
  match routine.kind with
  | .constructor =>
    let allocated := calls.answer "Memory.alloc" [UInt16.ofNat (fieldCount declarations)] store.shared
    { store with object := allocated.1, shared := allocated.2 }
  | .method => { store with object := store.arguments 0 }
  | .function => store

end Meaning
end Jack
end HackToolchain
