import HackToolchain.Proofs.Vm.Activation

namespace HackToolchain
namespace Vm

/-!
# Depths of the operand stack

A function's code is disciplined if the number of words on its operand stack is known at every
position, whichever way the position is reached.  Such an assignment of depths has to agree along
every edge: from each command to the one behind it, also behind a command that never goes on there,
and from each jump to its label.  No command may take more words than there are.

Code that is put together from pieces is checked piece by piece: `Runs` says that a piece, entered at
one depth, is left at another, and that every command inside has what it takes.  Nothing is assumed
of jumps there, because all of them are made at one depth.
-/

/-! ## Effects of commands -/

/-- The number of words that an operation takes. -/
def Operation.operands : Operation -> Nat
  | .neg | .not => 1
  | _ => 2

namespace Command

/-- The number of words that a command takes off the stack.  A call takes its arguments, and a return
the result. -/
def popped : Command -> Nat
  | .arithmetic operation => operation.operands
  | .pop _ _ | .ifGoto _ | .«return» => 1
  | .call _ arguments => arguments.toNat
  | .push _ _ | .label _ | .goto _ | .function _ _ => 0

/-- The number of words that a command puts on the stack.  A call leaves its result. -/
def pushed : Command -> Nat
  | .arithmetic _ | .push _ _ | .call _ _ => 1
  | .pop _ _ | .label _ | .goto _ | .ifGoto _ | .function _ _ | .«return» => 0

/-- The depth behind a command, given the depth in front of it. -/
def effect (command : Command) (depth : Nat) : Nat := depth - command.popped + command.pushed

/-- The label that a command jumps to, if it jumps. -/
def target? : Command -> Option String
  | .goto target | .ifGoto target => some target
  | _ => none

/-- A command may be reached at a depth: it finds the words that it takes, nothing is on the stack
at a label and behind the condition of a jump, and a return finds nothing but its result. -/
structure Accepts (command : Command) (depth : Nat) : Prop where
  enough : command.popped ≤ depth
  label : ∀ name, command = .label name -> depth = 0
  jump : ∀ target, command.target? = some target -> depth - command.popped = 0
  result : command = .«return» -> depth = 1

/-- A command that is neither a label nor a jump nor a return only needs the words that it takes. -/
theorem Accepts.plain {command : Command} {depth : Nat} (enough : command.popped ≤ depth)
    (noLabel : ∀ name, command ≠ .label name) (noTarget : command.target? = none)
    (noReturn : command ≠ .«return») : command.Accepts depth := by
  constructor
  · exact enough
  · exact fun name same => absurd same (noLabel name)
  · intro target jumps
    rw [noTarget] at jumps
    cases jumps
  · exact fun same => absurd same noReturn

end Command

/-- An assignment of depths to the positions of a function's code.  The function itself stands at
position zero. -/
structure Disciplined (code : List Command) (depth : Nat -> Nat) : Prop where
  /-- The stack is empty behind the function's entry. -/
  start : depth 1 = 0
  /-- No command takes a word that is not there; a call finds all its arguments. -/
  enough : ∀ (position : Nat) command, code[position]? = some command ->
    command.popped ≤ depth position
  /-- The depth behind a command follows from the depth in front of it. -/
  onward : ∀ (position : Nat) command, code[position]? = some command ->
    depth (position + 1) = depth position - command.popped + command.pushed
  /-- A jump has a label in the code, and the depth there is the one that the jump leaves. -/
  jump : ∀ (position : Nat) command target, code[position]? = some command ->
    command.target? = some target ->
      (∃ place : Nat, code[place]? = some (.label target)) ∧
        ∀ place : Nat, code[place]? = some (.label target) ->
          depth place = depth position - command.popped
  /-- Nothing is on the stack at a label. -/
  atLabel : ∀ (position : Nat) name, code[position]? = some (.label name) -> depth position = 0
  /-- Nothing is on the stack behind the condition of a jump. -/
  atJump : ∀ (position : Nat) command target, code[position]? = some command ->
    command.target? = some target -> depth position - command.popped = 0
  /-- Only the result is on the stack at a return. -/
  atReturn : ∀ position : Nat, code[position]? = some .«return» -> depth position = 1

/-! ## Pieces of code -/

/-- A piece of code that is entered at a depth is left at another, and all its commands may be
reached as they are. -/
def Runs : Nat -> List Command -> Nat -> Prop
  | depth, [], last => depth = last
  | depth, command :: rest, last =>
    command.Accepts depth ∧ Runs (command.effect depth) rest last

theorem Runs.append {depth between last : Nat} {first second : List Command}
    (before : Runs depth first between) (behind : Runs between second last) :
    Runs depth (first ++ second) last := by
  induction first generalizing depth with
  | nil =>
      cases before
      exact behind
  | cons command rest inductionHypothesis =>
      obtain ⟨accepts, runs⟩ := before
      exact ⟨accepts, inductionHypothesis runs⟩

theorem Runs.single {depth last : Nat} {command : Command} (accepts : command.Accepts depth)
    (left : command.effect depth = last) : Runs depth [command] last :=
  ⟨accepts, left⟩

/-- The depth behind some commands. -/
def depthAfter (depth : Nat) (commands : List Command) : Nat :=
  commands.foldl (fun depth command => command.effect depth) depth

theorem depthAfter_take_succ {depth position : Nat} {code : List Command} {command : Command}
    (found : code[position]? = some command) :
    depthAfter depth (code.take (position + 1)) =
      command.effect (depthAfter depth (code.take position)) := by
  rw [List.take_add_one, found, depthAfter, List.foldl_append]
  rfl

/-- Every command of a piece that runs may be reached at the depth behind those in front of it. -/
theorem Runs.accepts {depth last position : Nat} {code : List Command} {command : Command}
    (runs : Runs depth code last) (found : code[position]? = some command) :
    command.Accepts (depthAfter depth (code.take position)) := by
  induction code generalizing depth position with
  | nil => cases found
  | cons first rest inductionHypothesis =>
      obtain ⟨accepts, runs⟩ := runs
      cases position with
      | zero =>
          cases found
          exact accepts
      | succ position => exact inductionHypothesis runs found

/-- The labels that commands jump to. -/
def jumpTargets (commands : List Command) : List String := commands.filterMap Command.target?

theorem jumpTargets_append (first second : List Command) :
    jumpTargets (first ++ second) = jumpTargets first ++ jumpTargets second :=
  List.filterMap_append

theorem mem_definedLabels {code : List Command} {name : String} :
    name ∈ definedLabels code ↔ .label name ∈ code := by
  unfold definedLabels
  rw [List.mem_filterMap]
  constructor
  · rintro ⟨command, member, same⟩
    cases command with
    | label other => exact Option.some.inj same ▸ member
    | _ => cases same
  · intro member
    exact ⟨_, member, rfl⟩

/-- A function whose body runs from the empty stack to the empty stack is disciplined if its jumps
have labels. -/
theorem Runs.disciplined {name : String} {locals : UInt16} {body : List Command} {last : Nat}
    (runs : Runs 0 body last) (closed : ∀ target ∈ jumpTargets body, target ∈ definedLabels body) :
    Disciplined (.function name locals :: body)
      fun position => depthAfter 0 ((.function name locals :: body).take position) := by
  have entry : (Command.function name locals).Accepts 0 :=
    .plain (Nat.le_refl 0) (by nofun) rfl (by nofun)
  have whole : Runs 0 (.function name locals :: body) last := ⟨entry, runs⟩
  have atLabel (position : Nat) (label : String)
      (found : (Command.function name locals :: body)[position]? = some (.label label)) :=
    (whole.accepts found).label label rfl
  constructor
  case start => rfl
  case enough => exact fun position command found => (whole.accepts found).enough
  case onward => exact fun position command found => depthAfter_take_succ found
  case jump =>
    intro position command target found jumps
    constructor
    · have member : target ∈ jumpTargets (.function name locals :: body) :=
        List.mem_filterMap.mpr ⟨command, List.mem_of_getElem? found, jumps⟩
      have defined := mem_definedLabels.mp (closed target member)
      exact List.getElem?_of_mem (List.mem_cons_of_mem _ defined)
    · intro place label
      rw [atLabel place target label, (whole.accepts found).jump target jumps]
  case atLabel => exact atLabel
  case atJump => exact fun position command target found => (whole.accepts found).jump target
  case atReturn => exact fun position found => (whole.accepts found).result rfl

end Vm
end HackToolchain
