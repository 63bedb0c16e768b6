import HackToolchain.Proofs.Hack.Binding
import HackToolchain.Vm.Program

namespace HackToolchain
namespace Vm

open Hack

/-!
# The stack machine

The machine that commands are written for.  It keeps everything in data memory: the stack pointer
and the first cells of four segments in cells zero to four, the temporary segment in eight cells from
the fifth on, and every static variable in a cell that the program names.  All other cells are
reached through the first five.

Two cells are not part of its memory, because code that commands are translated to keeps addresses
in them.  A command that would get at one of them through an address has no step, and neither has a
command without meaning: a jump to a label that is not there, a call of a function that is not there,
a pop to the constants.

A program also says which address stands for the way back to a position.  A call leaves that address
on the stack and a return goes by it.  The addresses are not interpreted otherwise.
-/

namespace Machine

/-! ## Memory -/

/-- The cell that holds the stack pointer. -/
def stackPointer : UInt16 := 0

/-- The cells that hold the bases of the segments. -/
def localBase : UInt16 := 1

/-- The base of the arguments. -/
def argumentBase : UInt16 := 2

/-- The base of the current object. -/
def thisBase : UInt16 := 3

/-- The base of the current array. -/
def thatBase : UInt16 := 4

/-- The first cell of the temporary segment. -/
def tempBase : UInt16 := 5

/-- The cells that the machine does not have. -/
def isScratch (cell : Address) : Bool := cell == 13 || cell == 14

/-- Something done with memory, which may be impossible. -/
def Work (α : Type) : Type := Memory -> Option (α × Memory)

namespace Work

/-- Do nothing. -/
def succeed (value : α) : Work α := fun memory => some (value, memory)

/-- Do one thing and then another that depends on it. -/
def andThen (first : Work α) (next : α -> Work β) : Work β := fun memory =>
  match first memory with
  | some (value, memory) => next value memory
  | none => none

instance : Monad Work where
  pure := succeed
  bind := andThen

/-- Go on with an answer, if there is one. -/
def ofOption (answer : Option α) : Work α := fun memory => answer.map fun value => (value, memory)

end Work

/-- Read a cell. -/
def get (address : UInt16) : Work UInt16 := fun memory =>
  let cell := Address.ofWord address
  if isScratch cell then none else some (memory cell, memory)

/-- Write a cell. -/
def put (address value : UInt16) : Work Unit := fun memory =>
  let cell := Address.ofWord address
  if isScratch cell then none else some ((), Function.update memory cell value)

/-- Put a word on top of the stack. -/
def push (value : UInt16) : Work Unit := do
  put (← get stackPointer) value
  put stackPointer ((← get stackPointer) + 1)

/-- Take the word on top off the stack. -/
def pop : Work UInt16 := do
  put stackPointer ((← get stackPointer) - 1)
  get (← get stackPointer)

/-! ## Commands -/

/-- The word that stands for true or for false. -/
def truth (holds : Bool) : UInt16 := if holds then 0xffff else 0

/-- Replace the word on top. -/
def onTop (result : UInt16 -> UInt16) : Work Unit := do push (result (← pop))

/-- Replace the two words on top.  The lower one comes first. -/
def onTopTwo (result : UInt16 -> UInt16 -> UInt16) : Work Unit := do
  let second ← pop
  let first ← pop
  push (result first second)

/-- What an operation makes of the words on top of the stack. -/
inductive Effect where
  | one (result : UInt16 -> UInt16)
  /-- The lower of the two words comes first. -/
  | two (result : UInt16 -> UInt16 -> UInt16)

/-- The meaning of the operations.  Comparisons look at the sign of the difference, which wraps. -/
def effect : Operation -> Effect
  | .add => .two fun first second => first + second
  | .sub => .two fun first second => first - second
  | .neg => .one fun word => -word
  | .eq => .two fun first second => truth (first - second == 0)
  | .gt => .two fun first second =>
      truth (!(isNegative (first - second) || first - second == 0))
  | .lt => .two fun first second => truth (isNegative (first - second))
  | .and => .two fun first second => first &&& second
  | .or => .two fun first second => first ||| second
  | .not => .one fun word => ~~~word

/-- An operation on the stack. -/
def operate (operation : Operation) : Work Unit :=
  match effect operation with
  | .one result => onTop result
  | .two result => onTopTwo result

end Machine

open Machine

/-- A program as the stack machine knows it. -/
structure Program where
  sites : List Site
  /-- Whether the program is called from outside, and so can be returned from to its beginning. -/
  bootstrapped : Bool
  /-- The cell of a static variable. -/
  static : Scope -> UInt16 -> UInt16
  /-- The address that stands for going back to a position. -/
  address : Nat -> UInt16

namespace Program

variable (program : Program)

/-- The address of a segment's cell.  Constants have none. -/
def locate (scope : Scope) (segment : Segment) (index : UInt16) : Work UInt16 :=
  match segment with
  | .«local» => do return (← get localBase) + index
  | .argument => do return (← get argumentBase) + index
  | .this => do return (← get thisBase) + index
  | .that => do return (← get thatBase) + index
  | .static => return program.static scope index
  | .temp => Work.ofOption (if index < 8 then some (tempBase + index) else none)
  | .pointer => Work.ofOption (if index < 2 then some (thisBase + index) else none)
  | .constant => Work.ofOption none

/-- The word of a segment at an index. -/
def fetch (scope : Scope) (segment : Segment) (index : UInt16) : Work UInt16 :=
  match segment with
  | .constant => return index
  | segment => do get (← program.locate scope segment index)

/-- The position of a label of a scope.  Labels belong to the function that the scope is in, or to
the file if it is in none. -/
def labelPosition? (scope : Scope) (label : String) : Option Nat :=
  program.sites.findIdx? fun site =>
    site.command == .label label && site.scope.context == scope.context

/-- Whether a command begins the function of the given name. -/
def begins (name : String) : Command -> Bool
  | .function other _ => other == name
  | _ => false

/-- The position at which a function begins. -/
def functionPosition? (name : String) : Option Nat :=
  program.sites.findIdx? fun site => begins name site.command

/-- Whether a command is a call. -/
def calls : Command -> Bool
  | .call _ _ => true
  | _ => false

/-- Whether a position is behind a call. -/
def isReturnPoint : Nat -> Bool
  | 0 => program.bootstrapped
  | position + 1 => (program.sites[position]?.map fun site => calls site.command).getD false

/-- The position behind a call that an address stands for. -/
def returnPosition? (address : UInt16) : Option Nat :=
  (List.range (program.sites.length + 1)).find? fun position =>
    program.isReturnPoint position && program.address position == address

/-- Leave a function: its result takes the place of the arguments, the stack ends behind it, and the
segments are what the caller saved in front of the local variables. -/
def leave : Work Nat := do
  let frame ← get localBase
  let back ← get (frame - 5)
  let result ← pop
  put (← get argumentBase) result
  put stackPointer ((← get argumentBase) + 1)
  put thatBase (← get (frame - 1))
  put thisBase (← get (frame - 2))
  put argumentBase (← get (frame - 3))
  put localBase (← get (frame - 4))
  Work.ofOption (program.returnPosition? back)

/-- Enter a function: save where to go back to and the segments, and let the arguments and the local
variables begin below and behind what was saved. -/
def enter (position : Nat) (name : String) (arguments : UInt16) : Work Nat := do
  push (program.address (position + 1))
  push (← get localBase)
  push (← get argumentBase)
  push (← get thisBase)
  push (← get thatBase)
  put argumentBase ((← get stackPointer) - 5 - arguments)
  put localBase (← get stackPointer)
  Work.ofOption (program.functionPosition? name)

/-- Push zero a number of times. -/
def pushZeros : Nat -> Work Unit
  | 0 => return ()
  | count + 1 => do
    push 0
    pushZeros count

/-- Execute the command of a site.  The answer is the position of the next command. -/
def execute (position : Nat) (site : Site) : Work Nat :=
  match site.command with
  | .arithmetic operation => do
    operate operation
    return position + 1
  | .push segment index => do
    push (← program.fetch site.scope segment index)
    return position + 1
  | .pop segment index => do
    let value ← pop
    put (← program.locate site.scope segment index) value
    return position + 1
  | .label _ => return position + 1
  | .goto label => Work.ofOption (program.labelPosition? site.scope label)
  | .ifGoto label => do
    if (← pop) = 0 then return position + 1
    else Work.ofOption (program.labelPosition? site.scope label)
  | .function _ locals => do
    pushZeros locals.toNat
    return position + 1
  | .call name arguments => program.enter position name arguments
  | .«return» => program.leave

end Program

/-- A state of the stack machine: the position of the next command, and memory. -/
structure State where
  position : Nat
  memory : Memory

namespace Program

/-- One step of a program.  Behind the last command there is none. -/
def step? (program : Program) (state : State) : Option State := do
  let site ← program.sites[state.position]?
  let (position, memory) ← program.execute state.position site state.memory
  return ⟨position, memory⟩

/-- Several steps of a program. -/
def run? (program : Program) : Nat -> State -> Option State
  | 0, state => some state
  | count + 1, state => (program.step? state).bind (program.run? count)

end Program

/-! ## What work does to memory -/

namespace Machine

theorem Work.andThen_eq_some {first : Work α} {next : α -> Work β} {memory : Memory}
    {result : β × Memory} :
    (first >>= next) memory = some result ↔
      ∃ value between, first memory = some (value, between) ∧
        next value between = some result := by
  change Work.andThen first next memory = some result ↔ _
  unfold Work.andThen
  cases done : first memory with
  | none => simp
  | some pair =>
      rcases pair with ⟨value, between⟩
      simp

theorem Work.pure_eq_some {value other : α} {memory after : Memory} :
    (pure value : Work α) memory = some (other, after) ↔ value = other ∧ memory = after := by
  change some (value, memory) = some (other, after) ↔ _
  rw [Option.some.injEq, Prod.mk.injEq]

theorem Work.ofOption_eq_some {answer : Option α} {value : α} {memory after : Memory} :
    Work.ofOption answer memory = some (value, after) ↔ answer = some value ∧ memory = after := by
  cases answer <;> simp [Work.ofOption]

theorem get_eq_some {address value : UInt16} {memory after : Memory} :
    get address memory = some (value, after) ↔
      isScratch (Address.ofWord address) = false ∧ memory (Address.ofWord address) = value ∧
        memory = after := by
  unfold get
  by_cases scratch : isScratch (Address.ofWord address) = true <;> simp [scratch]

theorem put_eq_some {address value : UInt16} {memory after : Memory} :
    put address value memory = some ((), after) ↔
      isScratch (Address.ofWord address) = false ∧
        Function.update memory (Address.ofWord address) value = after := by
  unfold put
  by_cases scratch : isScratch (Address.ofWord address) = true <;> simp [scratch]

end Machine

/-! ## Where jumps, calls and returns go -/

namespace Program

variable {program : Program} {position : Nat}

theorem labelPosition?_eq_some {scope : Scope} {label : String}
    (found : program.labelPosition? scope label = some position) :
    ∃ site, program.sites[position]? = some site ∧ site.command = .label label ∧
      site.scope.context = scope.context := by
  rcases List.findIdx?_eq_some_iff_getElem.mp found with ⟨inside, matching, -⟩
  rcases Bool.and_eq_true_iff.mp matching with ⟨isLabel, sameContext⟩
  exact ⟨_, List.getElem?_eq_getElem inside, eq_of_beq isLabel, eq_of_beq sameContext⟩

theorem functionPosition?_eq_some {name : String}
    (found : program.functionPosition? name = some position) :
    ∃ site locals, program.sites[position]? = some site ∧
      site.command = .function name locals := by
  rcases List.findIdx?_eq_some_iff_getElem.mp found with ⟨inside, matching, -⟩
  refine ⟨program.sites[position], ?_⟩
  cases command : program.sites[position].command with
  | function other locals =>
      rw [command] at matching
      have same : other = name := eq_of_beq matching
      exact ⟨locals, List.getElem?_eq_getElem inside, by rw [same]⟩
  | _ =>
      rw [command] at matching
      cases matching

theorem isReturnPoint_succ (returnPoint : program.isReturnPoint (position + 1) = true) :
    ∃ site name arguments, program.sites[position]? = some site ∧
      site.command = .call name arguments := by
  cases found : program.sites[position]? with
  | none =>
      rw [isReturnPoint, found] at returnPoint
      cases returnPoint
  | some site =>
      rw [isReturnPoint, found] at returnPoint
      cases command : site.command with
      | call name arguments => exact ⟨site, name, arguments, rfl, command⟩
      | _ =>
          rw [Option.map_some, command] at returnPoint
          cases returnPoint

theorem returnPosition?_eq_some {address : UInt16}
    (found : program.returnPosition? address = some position) :
    program.isReturnPoint position = true ∧ program.address position = address := by
  have matching := List.find?_some found
  rcases Bool.and_eq_true_iff.mp matching with ⟨returnPoint, same⟩
  exact ⟨returnPoint, eq_of_beq same⟩

end Program
end Vm
end HackToolchain
