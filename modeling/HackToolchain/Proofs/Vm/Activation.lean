import HackToolchain.Proofs.Vm.Machine

namespace HackToolchain
namespace Vm

/-!
# Activations of a function

A function can be looked at by itself.  While it is active it has an operand stack, its variables and
its current object to itself, and shares static variables and the heap with all other functions.  What
it calls is not run but interpreted: the answer of a call is a function of the callee's name, the
argument words and what is shared.  A call may also leave anything in the temporary segment and in the
base of the current array, because no function restores these for its caller.

Labels belong to the function, so a jump looks for its label in the function's own commands.
-/

/-- What all functions share.  Static variables belong to files. -/
structure Shared where
  statics : String -> UInt16 -> UInt16
  heap : UInt16 -> UInt16

namespace Shared

/-- Write a static variable of a file. -/
def setStatic (shared : Shared) (file : String) (index value : UInt16) : Shared :=
  { shared with
    statics := Function.update shared.statics file
      (Function.update (shared.statics file) index value) }

/-- Write a cell of the heap. -/
def setHeap (shared : Shared) (address value : UInt16) : Shared :=
  { shared with heap := Function.update shared.heap address value }

end Shared

/-- What calls do. -/
structure Interpretation where
  /-- The result of a call, and what is shared afterwards. -/
  answer : String -> List UInt16 -> Shared -> UInt16 × Shared
  /-- What a call leaves in the base of the current array. -/
  that : String -> List UInt16 -> Shared -> UInt16 -> UInt16
  /-- What a call leaves in the temporary segment. -/
  temp : String -> List UInt16 -> Shared -> (UInt16 -> UInt16) -> UInt16 -> UInt16

/-- The variables that an active function can name. -/
structure Store where
  locals : UInt16 -> UInt16
  arguments : UInt16 -> UInt16
  object : UInt16
  shared : Shared

/-- A state of an active function: the position of its next command, its operand stack with the top
first, its variables, and what it cannot rely on across calls. -/
structure Activation where
  position : Nat
  stack : List UInt16
  store : Store
  that : UInt16
  temp : UInt16 -> UInt16

/-- A state of an active function without what it cannot rely on across calls. -/
structure Place where
  position : Nat
  stack : List UInt16
  store : Store

/-- The state at a place, given the base of the current array and the temporary segment. -/
def Place.state (place : Place) (that : UInt16) (temp : UInt16 -> UInt16) : Activation :=
  ⟨place.position, place.stack, place.store, that, temp⟩

/-- What a step of an active function leads to. -/
inductive Event where
  | goes (next : Activation)
  | returns (value : UInt16) (shared : Shared)

/-- A function by itself: the file it belongs to, its commands, and what its calls do. -/
structure Routine where
  file : String
  code : List Command
  calls : Interpretation

namespace Activation

/-- Go on to the next position with another operand stack. -/
def next (state : Activation) (stack : List UInt16) : Activation :=
  { state with position := state.position + 1, stack := stack }

/-- The word of a segment at an index. -/
def read? (file : String) (state : Activation) (index : UInt16) : Segment -> Option UInt16
  | .«local» => some (state.store.locals index)
  | .argument => some (state.store.arguments index)
  | .this => some (state.store.shared.heap (state.store.object + index))
  | .that => some (state.store.shared.heap (state.that + index))
  | .constant => some index
  | .static => some (state.store.shared.statics file index)
  | .temp => if index < 8 then some (state.temp index) else none
  | .pointer =>
    if index = 0 then some state.store.object else if index = 1 then some state.that else none

/-- Write a word of a segment.  Constants cannot be written. -/
def write? (file : String) (state : Activation) (index value : UInt16) :
    Segment -> Option Activation
  | .«local» => some { state with
      store := { state.store with locals := Function.update state.store.locals index value } }
  | .argument => some { state with
      store := { state.store with arguments := Function.update state.store.arguments index value } }
  | .this => some { state with
      store := { state.store with
        shared := state.store.shared.setHeap (state.store.object + index) value } }
  | .that => some { state with
      store := { state.store with shared := state.store.shared.setHeap (state.that + index) value } }
  | .constant => none
  | .static => some { state with
      store := { state.store with shared := state.store.shared.setStatic file index value } }
  | .temp => if index < 8 then some { state with temp := Function.update state.temp index value }
    else none
  | .pointer =>
    if index = 0 then some { state with store := { state.store with object := value } }
    else if index = 1 then some { state with that := value } else none

/-- Operate on the operand stack. -/
def operate? (operation : Operation) (stack : List UInt16) : Option (List UInt16) :=
  match Machine.effect operation, stack with
  | .one result, word :: rest => some (result word :: rest)
  | .two result, second :: first :: rest => some (result first second :: rest)
  | _, _ => none

/-- Call a function with the topmost words, the last argument on top. -/
def call (calls : Interpretation) (state : Activation) (name : String) (count : Nat) : Activation :=
  let values := (state.stack.take count).reverse
  let shared := state.store.shared
  { position := state.position + 1
    stack := (calls.answer name values shared).1 :: state.stack.drop count
    store := { state.store with shared := (calls.answer name values shared).2 }
    that := calls.that name values shared state.that
    temp := calls.temp name values shared state.temp }

end Activation

/-- Cells of which the first ones are zero. -/
def zeroed (count : UInt16) (cells : UInt16 -> UInt16) (index : UInt16) : UInt16 :=
  if index < count then 0 else cells index

/-- The labels that commands define. -/
def definedLabels (commands : List Command) : List String :=
  commands.filterMap fun
    | .label name => some name
    | _ => none

theorem definedLabels_append (first second : List Command) :
    definedLabels (first ++ second) = definedLabels first ++ definedLabels second :=
  List.filterMap_append

namespace Routine

/-- The position of a label. -/
def labelPosition? (routine : Routine) (label : String) : Option Nat :=
  routine.code.findIdx? fun command => command == .label label

/-- Jump to a label. -/
def jump? (routine : Routine) (state : Activation) (label : String) : Option Event :=
  (routine.labelPosition? label).map fun position => .goes { state with position := position }

/-- Execute a command. -/
def execute? (routine : Routine) (state : Activation) : Command -> Option Event
  | .arithmetic operation =>
    (Activation.operate? operation state.stack).map fun stack => .goes (state.next stack)
  | .push segment index =>
    (state.read? routine.file index segment).map fun value =>
      .goes (state.next (value :: state.stack))
  | .pop segment index =>
    match state.stack with
    | value :: rest =>
      (state.write? routine.file index value segment).map fun written => .goes (written.next rest)
    | [] => none
  | .label _ => some (.goes (state.next state.stack))
  | .goto label => routine.jump? state label
  | .ifGoto label =>
    match state.stack with
    | value :: rest =>
      if value = 0 then some (.goes (state.next rest))
      else routine.jump? { state with stack := rest } label
    | [] => none
  | .function _ locals => some (.goes { state with
      position := state.position + 1
      store := { state.store with locals := zeroed locals state.store.locals } })
  | .call name count =>
    if count.toNat ≤ state.stack.length then
      some (.goes (state.call routine.calls name count.toNat))
    else none
  | .«return» =>
    match state.stack with
    | value :: _ => some (.returns value state.store.shared)
    | [] => none

/-- A step of an active function.  Behind its last command it has none. -/
def step? (routine : Routine) (state : Activation) : Option Event :=
  (routine.code[state.position]?).bind (routine.execute? state)

/-! ## Runs inside a range of positions -/

/-- A number of steps, all taken at positions from `first` up to but not including `last`. -/
inductive Steps (routine : Routine) (first last : Nat) : Nat -> Activation -> Activation -> Prop where
  | refl (state : Activation) : Steps routine first last 0 state state
  | step {state next final : Activation} {count : Nat} (lower : first ≤ state.position)
      (upper : state.position < last) (taken : routine.step? state = some (.goes next))
      (rest : Steps routine first last count next final) :
      Steps routine first last (count + 1) state final

variable {routine : Routine} {first last : Nat}

theorem Steps.trans {count more : Nat} {start middle final : Activation}
    (before : routine.Steps first last count start middle)
    (behind : routine.Steps first last more middle final) :
    routine.Steps first last (count + more) start final := by
  induction before with
  | refl => rwa [Nat.zero_add]
  | step lower upper taken _ inductionHypothesis =>
      rw [Nat.add_right_comm]
      exact .step lower upper taken (inductionHypothesis behind)

/-- A run stays inside every wider range. -/
theorem Steps.widen {lower upper count : Nat} {start final : Activation}
    (steps : routine.Steps first last count start final) (below : lower ≤ first)
    (above : last ≤ upper) : routine.Steps lower upper count start final := by
  induction steps with
  | refl => exact .refl _
  | step inside beneath taken _ inductionHypothesis =>
      exact .step (below.trans inside) (Nat.lt_of_lt_of_le beneath above) taken inductionHypothesis

/-- The part of a run behind the beginning that it shares with another run.  There is no choice, so
the longer run goes through where the shorter one ends. -/
theorem Steps.split {count more : Nat} {start middle final : Activation}
    (short : routine.Steps first last count start middle)
    (long : routine.Steps first last (count + more) start final) :
    routine.Steps first last more middle final := by
  induction short with
  | refl => rwa [Nat.zero_add] at long
  | step _ _ taken _ inductionHypothesis =>
      rw [Nat.add_right_comm] at long
      cases long with
      | step _ _ takenToo rest =>
          rw [taken] at takenToo
          cases takenToo
          exact inductionHypothesis rest

/-- A run inside a range cannot go on from a state. -/
def Halts (routine : Routine) (last : Nat) (state : Activation) : Prop :=
  state.position < last -> ∀ next, routine.step? state ≠ some (.goes next)

/-- No run is longer than one that cannot go on. -/
theorem Steps.length_le {count more : Nat} {start final state : Activation}
    (toEnd : routine.Steps first last count start final) (halts : routine.Halts last final)
    (other : routine.Steps first last more start state) : more ≤ count := by
  induction toEnd generalizing more with
  | refl =>
      cases other with
      | refl => exact Nat.le_refl 0
      | step lower upper taken rest => exact absurd taken (halts upper _)
  | step _ _ taken _ inductionHypothesis =>
      cases other with
      | refl => exact Nat.zero_le _
      | step lower upper takenToo rest =>
          rw [taken] at takenToo
          cases takenToo
          exact Nat.succ_le_succ (inductionHypothesis halts rest)

/-- All runs that cannot go on end in the same state. -/
theorem Steps.end_eq {count more : Nat} {start final other : Activation}
    (one : routine.Steps first last count start final) (halts : routine.Halts last final)
    (two : routine.Steps first last more start other) (haltsToo : routine.Halts last other) :
    final = other := by
  have same : more = count := Nat.le_antisymm (one.length_le halts two) (two.length_le haltsToo one)
  subst same
  have rest : routine.Steps first last 0 final other := one.split two
  cases rest
  rfl

/-! ## Stretches of code -/

/-- Commands stand in a routine from one position up to another. -/
structure Stretch (routine : Routine) (first : Nat) (commands : List Command) (last : Nat) : Prop where
  ends : last = first + commands.length
  stands : commands <+: routine.code.drop first

namespace Stretch

variable {first last : Nat} {command : Command} {commands front behind : List Command}

theorem whole (routine : Routine) : routine.Stretch 0 routine.code routine.code.length :=
  ⟨(Nat.zero_add _).symm, List.prefix_rfl⟩

theorem append (stretch : routine.Stretch first (front ++ behind) last) :
    ∃ between, routine.Stretch first front between ∧ routine.Stretch between behind last := by
  rcases stretch with ⟨rfl, rest, same⟩
  refine ⟨first + front.length, ⟨rfl, behind ++ rest, ?_⟩, ⟨?_, rest, ?_⟩⟩
  · rw [← List.append_assoc, same]
  · rw [List.length_append, Nat.add_assoc]
  · rw [← List.drop_drop, ← same, List.append_assoc, List.drop_left]

theorem head (stretch : routine.Stretch first (command :: commands) last) :
    routine.code[first]? = some command := by
  rcases stretch with ⟨-, rest, same⟩
  rw [← Nat.add_zero first, ← List.getElem?_drop, ← same]
  rfl

theorem tail (stretch : routine.Stretch first (command :: commands) last) :
    routine.Stretch (first + 1) commands last := by
  have split : routine.Stretch first ([command] ++ commands) last := stretch
  rcases split.append with ⟨between, head, tail⟩
  cases head.ends
  exact tail

/-- A state at the front of a stretch executes its first command. -/
theorem step? {state : Activation}
    (stretch : routine.Stretch state.position (command :: commands) last) :
    routine.step? state = routine.execute? state command := by
  rw [Routine.step?, stretch.head]
  rfl

theorem le (stretch : routine.Stretch first commands last) : first ≤ last := by
  rw [stretch.ends]
  exact Nat.le_add_right first commands.length

theorem nil (stretch : routine.Stretch first [] last) : last = first := stretch.ends

end Stretch

/-- A run through a stretch begins with its first command. -/
theorem Steps.cons {count : Nat} (state : Activation) {next final : Activation}
    {command : Command} {commands : List Command}
    (stretch : routine.Stretch state.position (command :: commands) last)
    (executed : routine.execute? state command = some (.goes next))
    (rest : routine.Steps (state.position + 1) last count next final) :
    routine.Steps state.position last (count + 1) state final :=
  .step (Nat.le_refl _) (Nat.lt_of_succ_le stretch.tail.le) (stretch.step?.trans executed)
    (rest.widen (Nat.le_succ _) (Nat.le_refl last))

/-! ## Labels -/

/-- A label that is defined once is found where it is defined. -/
theorem labelPosition?_eq {label : String} {position : Nat}
    (unique : (definedLabels routine.code).Nodup)
    (stands : routine.code[position]? = some (.label label)) :
    routine.labelPosition? label = some position := by
  rcases List.getElem?_eq_some_iff.mp stands with ⟨inside, here⟩
  rw [← List.take_append_drop position routine.code, definedLabels_append] at unique
  have disjoint := (List.nodup_append.mp unique).2.2
  have behind : label ∈ definedLabels (routine.code.drop position) := by
    rw [List.drop_eq_getElem_cons inside, here]
    exact List.mem_cons_self
  refine List.findIdx?_eq_some_iff_getElem.mpr ⟨inside, beq_iff_eq.mpr here, ?_⟩
  intro other before found
  have inFront : label ∈ definedLabels (routine.code.take position) := by
    refine List.mem_filterMap.mpr ⟨.label label, ?_, rfl⟩
    rw [← beq_iff_eq.mp found]
    exact List.mem_take_iff_getElem.mpr ⟨other, Nat.lt_min.mpr ⟨before, by omega⟩, rfl⟩
  exact disjoint label inFront label behind rfl

/-! ## Places -/

/-- Steps inside a range lead from one place to another, whatever the base of the current array and
the temporary segment hold. -/
def Reaches (routine : Routine) (first last : Nat) (start final : Place) : Prop :=
  ∀ that temp, ∃ count that' temp',
    routine.Steps first last count (start.state that temp) (final.state that' temp')

/-- Steps inside a range lead to a return of a value, with what is shared then. -/
def Returns (routine : Routine) (first last : Nat) (start : Place) (value : UInt16)
    (shared : Shared) : Prop :=
  ∀ that temp, ∃ count state,
    routine.Steps first last count (start.state that temp) state ∧ first ≤ state.position ∧
      state.position < last ∧ routine.step? state = some (.returns value shared)

/-- There is a run inside a range of at least a number of steps. -/
def Lasts (routine : Routine) (first last : Nat) (start : Place) (least : Nat) : Prop :=
  ∀ that temp, ∃ count state, least ≤ count ∧
    routine.Steps first last count (start.state that temp) state

namespace Reaches

variable {start middle final : Place}

theorem refl (place : Place) : routine.Reaches first last place place :=
  fun that temp => ⟨0, that, temp, .refl _⟩

theorem trans (before : routine.Reaches first last start middle)
    (behind : routine.Reaches first last middle final) :
    routine.Reaches first last start final := by
  intro that temp
  rcases before that temp with ⟨count, that', temp', toMiddle⟩
  rcases behind that' temp' with ⟨more, that'', temp'', toFinal⟩
  exact ⟨count + more, that'', temp'', toMiddle.trans toFinal⟩

theorem widen {lower upper : Nat} (reaches : routine.Reaches first last start final)
    (below : lower ≤ first) (above : last ≤ upper) :
    routine.Reaches lower upper start final := by
  intro that temp
  rcases reaches that temp with ⟨count, that', temp', steps⟩
  exact ⟨count, that', temp', steps.widen below above⟩

/-- A run through one stretch goes on through the next. -/
theorem append {between : Nat} (before : routine.Reaches first between start middle)
    (behind : routine.Reaches between last middle final) (below : first ≤ between)
    (above : between ≤ last) : routine.Reaches first last start final :=
  (before.widen (Nat.le_refl first) above).trans (behind.widen below (Nat.le_refl last))

/-- A command by itself. -/
theorem command {position : Nat} {stack : List UInt16} {store : Store} {command : Command}
    {commands : List Command} (stretch : routine.Stretch position (command :: commands) last)
    (executes : ∀ that temp, ∃ that' temp',
      routine.execute? ⟨position, stack, store, that, temp⟩ command =
        some (.goes (final.state that' temp'))) :
    routine.Reaches position (position + 1) ⟨position, stack, store⟩ final := by
  intro that temp
  rcases executes that temp with ⟨that', temp', executed⟩
  have taken := stretch.step?.trans executed
  exact ⟨1, that', temp', .step (Nat.le_refl _) (Nat.lt_succ_self _) taken (.refl _)⟩

/-- A run through the first command of a stretch goes on through the others. -/
theorem cons {command : Command} {commands : List Command}
    (stretch : routine.Stretch first (command :: commands) last)
    (one : routine.Reaches first (first + 1) start middle)
    (behind : routine.Reaches (first + 1) last middle final) :
    routine.Reaches first last start final :=
  one.append behind (Nat.le_succ first) stretch.tail.le

end Reaches

end Routine
end Vm
end HackToolchain
