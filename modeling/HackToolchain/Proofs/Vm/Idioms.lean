import HackToolchain.Proofs.Vm.Machine

namespace HackToolchain
namespace Vm

open Hack Code

/-!
# What idioms do

Every idiom that code is built from has an effect that can be told without its instructions: what it
leaves in the registers and in memory, in terms of what was there.  The effects are equations of
`Core.after`, so that the effect of a concatenation is found by rewriting with those of its parts.

An address is told by its word only where the word matters.  Offsets are told up to the cell that
they lead to, because an address instruction drops the highest bit of a number.
-/

/-- A binding gives the predefined symbols their addresses. -/
def Standard (binding : String -> UInt16) : Prop :=
  ∀ name address, (name, address) ∈ SymbolTable.predefined -> binding name = address

/-! ## The stack in memory -/

/-- Memory with a word pushed. -/
def pushed (memory : Memory) (value : UInt16) : Memory :=
  let written := Function.update memory (Address.ofWord (memory 0)) value
  Function.update written 0 (written 0 + 1)

/-- Memory with the stack pointer moved down. -/
def lowered (memory : Memory) : Memory := Function.update memory 0 (memory 0 - 1)

/-- The word that a pop finds.  The stack pointer has been moved by then. -/
def top (memory : Memory) : UInt16 := lowered memory (Address.ofWord (memory 0 - 1))

/-! ## Effects -/

section Effects

variable {binding : String -> UInt16} (standard : Standard binding) (core : Core)

include standard in
theorem after_symbol_stackPointer : addressWord (binding "SP") = 0 := by
  rw [standard "SP" 0 (by decide)]
  rfl

theorem after_load (symbol : String) :
    core.after binding (load symbol) =
      ⟨addressWord (binding symbol), core.memory (Address.ofWord (binding symbol)),
        core.memory⟩ := by
  rw [← Address.ofWord_addressWord]
  rfl

/-- Point to where the cell of a symbol points. -/
theorem after_follow (symbol : String) :
    core.after binding [.symbol symbol, Code.set .a .m] =
      ⟨core.memory (Address.ofWord (binding symbol)), core.data, core.memory⟩ := by
  rw [← Address.ofWord_addressWord]
  rfl

theorem after_store (symbol : String) :
    core.after binding (store symbol) =
      ⟨addressWord (binding symbol), core.data,
        Function.update core.memory (Address.ofWord (binding symbol)) core.data⟩ := by
  rw [← Address.ofWord_addressWord]
  rfl

include standard in
theorem after_pushBy (computation : Computation) :
    core.after binding (pushBy (.compute .m computation none)) =
      ⟨0, core.data,
        pushed core.memory (computation.value { core with address := core.memory 0 })⟩ := by
  have pointer := after_symbol_stackPointer standard
  simp only [pushBy, raise, Code.set, setBinary, List.cons_append, List.nil_append, Core.after_cons,
    Core.after_nil, Core.perform, pointer]
  rfl

include standard in
theorem after_pushData :
    core.after binding pushData = ⟨0, core.data, pushed core.memory core.data⟩ :=
  after_pushBy standard core (.operand .d)

include standard in
theorem after_lower :
    core.after binding lower = ⟨core.memory 0 - 1, core.data, lowered core.memory⟩ := by
  have pointer := after_symbol_stackPointer standard
  simp only [lower, setBinary, Core.after_cons, Core.after_nil, Core.perform, pointer]
  rfl

include standard in
theorem after_popData :
    core.after binding popData = ⟨core.memory 0 - 1, top core.memory, lowered core.memory⟩ := by
  rw [popData, Core.after_append, after_lower standard]
  rfl

end Effects

/-! ## Offsets -/

/-- A word offset in a direction. -/
def offsetBy : Direction -> UInt16 -> UInt16 -> UInt16
  | .up, base, offset => base + offset
  | .down, base, offset => base - offset

theorem ofWord_offsetBy (direction : Direction) (base offset : UInt16) :
    Address.ofWord (offsetBy direction base (addressWord offset)) =
      Address.ofWord (offsetBy direction base offset) := by
  have masked : (addressWord offset).toNat = offset.toNat % 32768 := by
    rw [addressWord, UInt16.toNat_and]
    exact Nat.and_two_pow_sub_one_eq_mod offset.toNat 15
  have small := offset.toNat_lt
  have smallBase := base.toNat_lt
  apply Fin.ext
  cases direction with
  | up =>
      simp only [Address.ofWord, Fin.val_ofNat, offsetBy, UInt16.toNat_add, masked]
      omega
  | down =>
      simp only [Address.ofWord, Fin.val_ofNat, offsetBy, UInt16.toNat_sub, masked]
      omega

theorem sub_one_sub_one (word : UInt16) : word - 1 - 1 = word - 2 := by
  rw [UInt16.sub_eq_add_neg, UInt16.sub_eq_add_neg, UInt16.add_assoc, UInt16.sub_eq_add_neg]
  rfl

/-- Pointing from a symbol's cell leads to the offset cell.  A short offset leaves the data register
alone. -/
theorem after_pointFrom (binding : String -> UInt16) (core : Core) (symbol : String)
    (direction : Direction) (offset : UInt16) :
    ∃ address data, core.after binding (pointFrom symbol direction offset) =
        ⟨address, data, core.memory⟩ ∧
      Address.ofWord address = Address.ofWord
        (offsetBy direction (core.memory (Address.ofWord (binding symbol))) offset) ∧
      (offset.toNat ≤ maxSteps -> data = core.data) := by
  rw [← Address.ofWord_addressWord (binding symbol)]
  unfold pointFrom
  by_cases zero : offset = 0
  · rw [if_pos zero, zero]
    refine ⟨core.memory (Address.ofWord (addressWord (binding symbol))), core.data, rfl, ?_,
      fun _ => rfl⟩
    cases direction with
    | up => rw [offsetBy, UInt16.add_zero]
    | down => rw [offsetBy, UInt16.sub_zero]
  · rw [if_neg zero]
    have positive : offset.toNat ≠ 0 := fun same => zero (UInt16.toNat_inj.mp same)
    by_cases short : offset.toNat ≤ maxSteps
    · rw [if_pos short]
      have cases_ : offset = 1 ∨ offset = 2 := by
        simp only [maxSteps] at short
        rcases (by omega : offset.toNat = 1 ∨ offset.toNat = 2) with one | two
        · exact .inl (UInt16.toNat_inj.mp one)
        · exact .inr (UInt16.toNat_inj.mp two)
      refine ⟨offsetBy direction (core.memory (Address.ofWord (addressWord (binding symbol))))
        offset, core.data, ?_, rfl, fun _ => rfl⟩
      rcases cases_ with rfl | rfl <;> cases direction
      · rfl
      · rfl
      · refine congrArg (fun address => (⟨address, _, _⟩ : Core)) ?_
        exact UInt16.add_assoc _ 1 1
      · refine congrArg (fun address => (⟨address, _, _⟩ : Core)) ?_
        exact sub_one_sub_one _
    · rw [if_neg short]
      refine ⟨offsetBy direction (core.memory (Address.ofWord (addressWord (binding symbol))))
        (addressWord offset), addressWord offset, ?_, ofWord_offsetBy _ _ _, fun isShort =>
          absurd isShort short⟩
      cases direction with
      | up =>
          refine congrArg (fun address => (⟨address, _, _⟩ : Core)) ?_
          exact UInt16.add_comm _ _
      | down => rfl

/-- Reading through an offset. -/
theorem after_fetch (binding : String -> UInt16) (core : Core) (symbol : String)
    (direction : Direction) (offset : UInt16) :
    ∃ address, core.after binding (pointFrom symbol direction offset ++ [Code.set .d .m]) =
      ⟨address, core.memory (Address.ofWord
        (offsetBy direction (core.memory (Address.ofWord (binding symbol))) offset)),
        core.memory⟩ := by
  rcases after_pointFrom binding core symbol direction offset with ⟨address, data, pointed, leads, -⟩
  rw [Core.after_append, pointed, ← leads]
  exact ⟨address, rfl⟩

/-! ## Commands without jumps -/

section Commands

variable {binding : String -> UInt16} (standard : Standard binding) (core : Core)

/-- A number of fifteen bits is kept whole by its word. -/
theorem addressWord_eq {number : UInt16} (small : number.toNat ≤ maxInteger) :
    addressWord number = number := by
  apply UInt16.toNat_inj.mp
  rw [addressWord, UInt16.toNat_and]
  exact (Nat.and_two_pow_sub_one_eq_mod number.toNat 15).trans
    (Nat.mod_eq_of_lt (Nat.lt_succ_of_le small))

include standard in
theorem memory_push_indirect (base : String) (offset : UInt16) :
    (core.after binding (Code.push (.indirect base offset))).memory =
      pushed core.memory (core.memory
        (Address.ofWord (core.memory (Address.ofWord (binding base)) + offset))) := by
  rcases after_fetch binding core base .up offset with ⟨address, fetched⟩
  rw [Code.push, Core.after_append, fetched, after_pushData standard]
  rfl

include standard in
theorem memory_push_direct (symbol : String) :
    (core.after binding (Code.push (.direct symbol))).memory =
      pushed core.memory (core.memory (Address.ofWord (binding symbol))) := by
  rw [Code.push, Core.after_append, after_load, after_pushData standard]

include standard in
theorem memory_push_literal {value : UInt16} (small : value.toNat ≤ maxInteger) :
    (core.after binding (Code.push (.literal value))).memory = pushed core.memory value := by
  rw [Code.push]
  by_cases zero : value = 0
  · rw [if_pos zero, Code.set, after_pushBy standard, zero]
    rfl
  · by_cases one : value = 1
    · rw [if_neg zero, if_pos one, Code.set, after_pushBy standard, one]
      rfl
    · rw [if_neg zero, if_neg one, Core.after_append, after_pushData standard]
      exact congrArg (pushed core.memory) (addressWord_eq small)

include standard in
/-- A short offset is added when the word has been popped. -/
theorem memory_pop_short (base : String) {offset : UInt16} (short : offset.toNat ≤ maxSteps) :
    (core.after binding (Code.pop (.indirect base offset))).memory =
      Function.update (lowered core.memory)
        (Address.ofWord (lowered core.memory (Address.ofWord (binding base)) + offset))
        (top core.memory) := by
  rw [Code.pop, if_pos short, Core.after_append, Core.after_append, after_popData standard]
  rcases after_pointFrom binding ⟨core.memory 0 - 1, top core.memory, lowered core.memory⟩ base .up
    offset with ⟨address, data, pointed, leads, kept⟩
  rw [pointed, kept short]
  exact congrArg (fun cell => Function.update (lowered core.memory) cell (top core.memory)) leads

include standard in
/-- A long offset is added before the word is popped, and the address waits in scratch. -/
theorem memory_pop_long (base : String) {offset : UInt16} (long : ¬offset.toNat ≤ maxSteps) :
    ∃ address, Address.ofWord address =
        Address.ofWord (core.memory (Address.ofWord (binding base)) + offset) ∧
      (core.after binding (Code.pop (.indirect base offset))).memory =
        Function.update (lowered (Function.update core.memory 13 address))
          (Address.ofWord address) (top (Function.update core.memory 13 address)) := by
  rcases after_pointFrom binding core base .up offset with ⟨address, data, pointed, leads, -⟩
  refine ⟨address, leads, ?_⟩
  rw [Code.pop, if_neg long]
  simp only [Core.after_append, pointed]
  have waiting : binding "R13" = 13 := standard "R13" 13 (by decide)
  change ((((Core.after binding ⟨address, address, core.memory⟩ (store "R13")).after binding
    popData).after binding [.symbol "R13", Code.set .a .m, Code.set .m .d])).memory = _
  have kept : lowered (Function.update core.memory 13 address) 13 = address := by
    rw [lowered, Function.update_of_ne (by decide), Function.update_self]
  rw [after_store, after_popData standard, waiting]
  simp only [Core.after_cons, Core.after_nil, Core.perform, waiting]
  change Function.update (lowered (Function.update core.memory 13 address))
    (Address.ofWord (lowered (Function.update core.memory 13 address) 13)) _ = _
  rw [kept]
  rfl

include standard in
theorem memory_pop_direct (symbol : String) :
    (core.after binding (Code.pop (.direct symbol))).memory =
      Function.update (lowered core.memory) (Address.ofWord (binding symbol))
        (top core.memory) := by
  rw [Code.pop, Core.after_append, after_popData standard, after_store]

include standard in
theorem memory_binary (left : Operand) (operator : Operator) (right : Operand) :
    (core.after binding (binary left operator right)).memory =
      pushed (lowered (lowered core.memory))
        ((Computation.binary left operator right).value
          ⟨lowered core.memory 0 - 1, top core.memory, lowered (lowered core.memory)⟩) := by
  rw [binary, Core.after_append, Core.after_append, Core.after_append, after_popData standard,
    after_lower standard, after_pushData standard]
  rfl

include standard in
theorem memory_unary (operator : Operator) :
    (core.after binding (unary operator)).memory =
      pushed (lowered core.memory) ((Computation.unary operator .m).value
        ⟨core.memory 0 - 1, core.data, lowered core.memory⟩) := by
  rw [unary, Core.after_append, Core.after_append, after_lower standard, after_pushData standard]
  rfl

/-- Memory with zeros pushed. -/
def pushedZeros (memory : Memory) : Nat -> Memory
  | 0 => memory
  | count + 1 => pushedZeros (pushed memory 0) count

include standard in
theorem memory_enter (name : String) (locals : UInt16) :
    (core.after binding (Code.enter name locals)).memory =
      pushedZeros core.memory locals.toNat := by
  have zeros (count : Nat) (core : Core) (zero : core.data = 0) :
      (core.after binding (List.replicate count pushData).flatten).memory =
        pushedZeros core.memory count := by
    induction count generalizing core with
    | zero => rfl
    | succ count inductionHypothesis =>
        rw [List.replicate_succ, List.flatten_cons, Core.after_append, after_pushData standard,
          inductionHypothesis ⟨0, core.data, pushed core.memory core.data⟩ zero, zero, pushedZeros]
  unfold Code.enter
  by_cases zero : locals = 0
  · rw [if_pos zero, zero]
    rfl
  · rw [if_neg zero]
    exact zeros locals.toNat _ rfl

end Commands

/-! ## Code that goes on -/

section GoesOn

theorem goesOn_append {first second : Listing} (left : first.all Instruction.goesOn = true)
    (right : second.all Instruction.goesOn = true) :
    (first ++ second).all Instruction.goesOn = true := by
  rw [List.all_append, left, right]
  rfl

theorem goesOn_repeat {code : Listing} (goesOn : code.all Instruction.goesOn = true)
    (count : Nat) : (List.replicate count code).flatten.all Instruction.goesOn = true := by
  induction count with
  | zero => rfl
  | succ count inductionHypothesis => exact goesOn_append goesOn inductionHypothesis

theorem goesOn_pointFrom (symbol : String) (direction : Direction) (offset : UInt16) :
    (pointFrom symbol direction offset).all Instruction.goesOn = true := by
  have single : [setBinary .a .a direction.operator .one].all Instruction.goesOn = true := by
    cases direction <;> rfl
  have first : [.symbol symbol, setBinary .a .m direction.operator .one].all
      Instruction.goesOn = true := by
    cases direction <;> rfl
  unfold pointFrom
  split
  · rfl
  · split
    · refine goesOn_append first ?_
      generalize offset.toNat - 1 = count
      induction count with
      | zero => rfl
      | succ count inductionHypothesis => exact goesOn_append single inductionHypothesis
    · cases direction <;> rfl

theorem goesOn_push (cell : Cell) : (Code.push cell).all Instruction.goesOn = true := by
  cases cell with
  | indirect base offset =>
      exact goesOn_append (goesOn_append (goesOn_pointFrom base .up offset) rfl) rfl
  | direct symbol => rfl
  | literal value =>
      rw [Code.push]
      split
      · rfl
      · split <;> rfl

theorem goesOn_pop (cell : Cell) : (Code.pop cell).all Instruction.goesOn = true := by
  cases cell with
  | indirect base offset =>
      have pointed := goesOn_pointFrom base .up offset
      rw [Code.pop]
      split
      · exact goesOn_append (goesOn_append rfl pointed) rfl
      · exact goesOn_append (goesOn_append (goesOn_append (goesOn_append pointed rfl) rfl) rfl) rfl
  | direct symbol => rfl
  | literal value => rfl

theorem goesOn_enter (name : String) (locals : UInt16) :
    (Code.enter name locals).all Instruction.goesOn = true := by
  have entry : [Instruction.label name].all Instruction.goesOn = true := rfl
  have zero : [Code.set .d .zero].all Instruction.goesOn = true := rfl
  unfold Code.enter
  refine goesOn_append entry ?_
  split
  · rfl
  · exact goesOn_append zero (goesOn_repeat rfl _)

end GoesOn

/-! ## Sizes -/

section Sizes

variable (symbol : String)

@[simp] theorem size_pushTruth (truth : Bool) : Listing.size (pushTruth truth) = 5 := by
  cases truth <;> rfl

@[simp] theorem size_lower : Listing.size lower = 2 := rfl

@[simp] theorem size_popData : Listing.size popData = 3 := rfl

@[simp] theorem size_jumpTo (operand : Operand) (condition : Jump) :
    Listing.size (jumpTo symbol operand condition) = 2 := rfl

@[simp] theorem size_goTo : Listing.size (goTo symbol) = 2 := rfl

@[simp] theorem size_compute (destination : Destination) (computation : Computation)
    (jump : Option Jump) : Instruction.size (.compute destination computation jump) = 1 := rfl

@[simp] theorem size_label (name : String) : Instruction.size (.label name) = 0 := rfl

end Sizes

/-! ## Jumps -/

section Jumps

variable {image : List UInt16} {binding : String -> UInt16} {place : Nat}

open Processor

/-- A jump on the data register goes to its symbol if the condition holds, and is passed over
otherwise. -/
theorem reaches_jumpTo (core : Core) {symbol : String} {condition : Jump}
    (placed : Placed image binding place (jumpTo symbol .d condition)) :
    Reaches image ⟨place, core⟩
      ⟨if condition.holds core.data then (Address.ofWord (binding symbol)).val else place + 2,
        { core with address := addressWord (binding symbol) }⟩ := by
  rcases placed with ⟨loads, jumps, -⟩
  have jumped := reaches_jump { core with address := addressWord (binding symbol) }
    (by decide : Computation.operand .d ∈ Computation.all) jumps
  rw [Core.pointed, Address.ofWord_addressWord] at jumped
  exact (Reaches.step (step?_load loads)).trans jumped

theorem reaches_goTo (core : Core) {symbol : String}
    (placed : Placed image binding place (goTo symbol)) :
    Reaches image ⟨place, core⟩
      ⟨(Address.ofWord (binding symbol)).val,
        { core with address := addressWord (binding symbol) }⟩ := by
  rcases placed with ⟨loads, jumps, -⟩
  have jumped := reaches_jump { core with address := addressWord (binding symbol) }
    (by decide : Computation.operand .zero ∈ Computation.all) jumps
  rw [Core.pointed, Address.ofWord_addressWord] at jumped
  exact (Reaches.step (step?_load loads)).trans jumped

theorem memory_pushTruth (standard : Standard binding) (holds : Bool) (core : Core) :
    (core.after binding (pushTruth holds)).memory =
      pushed core.memory (Machine.truth holds) := by
  cases holds with
  | true => exact congrArg Core.memory (after_pushBy standard core (.unary .minus .one))
  | false => exact congrArg Core.memory (after_pushBy standard core (.operand .zero))

/-- A comparison leaves whether its condition holds of the difference, whichever of its two ways is
taken. -/
theorem reaches_compare (standard : Standard binding) (core : Core) {condition : Jump}
    {label : String} (placed : Placed image binding place (Code.compare condition label)) :
    ∃ last, Reaches image ⟨place, core⟩
        ⟨place + Listing.size (Code.compare condition label), last⟩ ∧
      last.memory = pushed (lowered (lowered core.memory))
        (Machine.truth (condition.holds (top (lowered core.memory) - top core.memory))) := by
  have size : Listing.size (Code.compare condition label) = 20 := by
    simp [Code.compare, setBinary]
  rw [size]
  unfold Code.compare at placed
  have finish := placed.right
  have holds := placed.left.right
  have target := placed.left.left.right
  have leaves := placed.left.left.left.right
  have fails := placed.left.left.left.left.right
  have jump := placed.left.left.left.left.left.right
  simp only [Listing.size_append, Listing.size_cons, Listing.size_nil, size_popData, size_lower,
    size_jumpTo, size_pushTruth, size_goTo, setBinary, size_compute, size_label, Nat.reduceAdd,
    Nat.add_zero] at finish holds target leaves fails jump
  let difference : Core := ⟨lowered core.memory 0 - 1,
    top (lowered core.memory) - top core.memory, lowered (lowered core.memory)⟩
  have computed : Reaches image ⟨place, core⟩ ⟨place + 6, difference⟩ := by
    have reached := reaches_after core placed.left.left.left.left.left.left rfl
    rwa [Core.after_append, Core.after_append, after_popData standard,
      after_lower standard] at reached
  have branch := computed.trans (reaches_jumpTo difference jump)
  cases verdict : condition.holds (top (lowered core.memory) - top core.memory) with
  | true =>
      rw [if_pos verdict, target.label] at branch
      exact ⟨_, branch.trans (reaches_after _ holds rfl), memory_pushTruth standard true _⟩
  | false =>
      rw [if_neg (Bool.eq_false_iff.mp verdict)] at branch
      have passed := branch.trans (reaches_after _ fails rfl)
      have left := passed.trans (reaches_goTo _ leaves)
      rw [finish.label] at left
      exact ⟨_, left, memory_pushTruth standard false _⟩

end Jumps

/-! ## Calls and returns -/

/-- Memory with the contents of a cell pushed. -/
def saved (memory : Memory) (cell : Address) : Memory := pushed memory (memory cell)

/-- Memory with a frame pushed: the way back, and the four segments. -/
def framed (memory : Memory) (back : UInt16) : Memory :=
  saved (saved (saved (saved (pushed memory back) 1) 2) 3) 4

/-- Memory with the segment of arguments put below a frame and that of local variables behind it. -/
def based (memory : Memory) (arguments : UInt16) : Memory :=
  let memory := Function.update memory 2 (memory 0 - (arguments + 5))
  Function.update memory 1 (memory 0)

/-- Memory with a segment's first cell restored from a distance below the frame that waits in
scratch. -/
def restored (distance : UInt16) (memory : Memory) (cell : Address) : Memory :=
  Function.update memory cell (memory (Address.ofWord (memory 13 - distance)))

/-- Memory with the frame in the first scratch cell and the way back in the second. -/
def prepared (memory : Memory) : Memory :=
  let memory := Function.update memory 13 (memory 1)
  Function.update memory 14 (memory (Address.ofWord (memory 13 - 5)))

/-- Memory with the word on top moved to the first argument and the stack ending behind it. -/
def answered (memory : Memory) : Memory :=
  let result := top memory
  let memory := lowered memory
  let memory := Function.update memory (Address.ofWord (memory 2)) result
  Function.update memory 0 (memory 2 + 1)

/-- Memory with all four segments restored, the last one first. -/
def restoredSegments (memory : Memory) : Memory :=
  restored 4 (restored 3 (restored 2 (restored 1 memory 4) 3) 2) 1

/-- Memory behind a return, with the way back in scratch. -/
def returned (memory : Memory) : Memory := restoredSegments (answered (prepared memory))

section Calls

variable {image : List UInt16} {binding : String -> UInt16} {place : Nat}
  (standard : Standard binding)

open Processor

include standard in
theorem after_save (core : Core) {symbol : String} {cell : Address}
    (bound : Address.ofWord (binding symbol) = cell) :
    core.after binding (Code.load symbol ++ pushData) =
      ⟨0, core.memory cell, saved core.memory cell⟩ := by
  rw [Core.after_append, after_load, after_pushData standard, bound]
  rfl

include standard in
theorem after_frame (core : Core) (label : String) :
    ((core.after binding [.symbol label, Code.set .d .a]).after binding pushData).after binding
        (["LCL", "ARG", "THIS", "THAT"].flatMap fun symbol => Code.load symbol ++ pushData) =
      ⟨0, saved (saved (saved (pushed core.memory (addressWord (binding label))) 1) 2) 3 4,
        framed core.memory (addressWord (binding label))⟩ := by
  have locals : Address.ofWord (binding "LCL") = 1 := by rw [standard "LCL" 1 (by decide)]; rfl
  have argument : Address.ofWord (binding "ARG") = 2 := by rw [standard "ARG" 2 (by decide)]; rfl
  have this : Address.ofWord (binding "THIS") = 3 := by rw [standard "THIS" 3 (by decide)]; rfl
  have that : Address.ofWord (binding "THAT") = 4 := by rw [standard "THAT" 4 (by decide)]; rfl
  have back : core.after binding [.symbol label, Code.set .d .a] =
      ⟨addressWord (binding label), addressWord (binding label), core.memory⟩ := rfl
  rw [back, after_pushData standard, List.flatMap_cons, Core.after_append,
    after_save standard _ locals,
    List.flatMap_cons, Core.after_append, after_save standard _ argument,
    List.flatMap_cons, Core.after_append, after_save standard _ this,
    List.flatMap_cons, Core.after_append, after_save standard _ that,
    List.flatMap_nil, Core.after_nil]
  simp only [framed]

include standard in
theorem memory_rebase (core : Core) {arguments : UInt16}
    (few : (arguments + 5).toNat ≤ maxInteger) :
    (((((core.after binding [.value (arguments + 5), Code.set .d .a, .symbol "SP",
      setBinary .d .m .minus .d]).after binding (store "ARG")).after binding
        (load "SP")).after binding (store "LCL"))).memory = based core.memory arguments := by
  have argument : binding "ARG" = 2 := standard "ARG" 2 (by decide)
  have stack : binding "SP" = 0 := standard "SP" 0 (by decide)
  have locals : binding "LCL" = 1 := standard "LCL" 1 (by decide)
  simp only [after_store, after_load, Core.after_cons, Core.after_nil, Core.perform, argument,
    stack, locals, addressWord_eq few]
  rfl

include standard in
/-- A call leaves the frame and the callee's segments, and goes to the callee. -/
theorem reaches_call (core : Core) {name label : String} {arguments : UInt16}
    (few : (arguments + 5).toNat ≤ maxInteger)
    (placed : Placed image binding place (Code.call name arguments label)) :
    ∃ last, Reaches image ⟨place, core⟩ ⟨(Address.ofWord (binding name)).val, last⟩ ∧
      last.memory = based (framed core.memory (addressWord (binding label))) arguments := by
  unfold Code.call at placed
  have jump := placed.left.right
  have straight := reaches_after core placed.left.left rfl
  refine ⟨_, straight.trans (reaches_goTo _ jump), ?_⟩
  simp only [Core.after_append, after_frame standard]
  exact memory_rebase standard _ few

/-! The shared routine in three parts: what it keeps in scratch, the answer, and the segments. -/

include standard in
theorem memory_prepare (core : Core) :
    (core.after binding ([.label returnSymbol] ++ Code.load "LCL" ++ store "R13" ++
      pointFrom "R13" .down 5 ++ [Code.set .d .m] ++ store "R14")).memory =
        prepared core.memory := by
  have locals : Address.ofWord (binding "LCL") = 1 := by rw [standard "LCL" 1 (by decide)]; rfl
  have first : Address.ofWord (binding "R13") = 13 := by rw [standard "R13" 13 (by decide)]; rfl
  have second : Address.ofWord (binding "R14") = 14 := by rw [standard "R14" 14 (by decide)]; rfl
  have kept : (core.after binding ([.label returnSymbol] ++ Code.load "LCL" ++ store "R13")) =
      ⟨addressWord (binding "R13"), core.memory 1,
        Function.update core.memory 13 (core.memory 1)⟩ := by
    rw [Core.after_append, Core.after_append, after_store, after_load, locals, first]
    rfl
  rw [Core.after_append, List.append_assoc, Core.after_append, kept]
  rcases after_fetch binding ⟨addressWord (binding "R13"), core.memory 1,
    Function.update core.memory 13 (core.memory 1)⟩ "R13" .down 5 with ⟨address, fetched⟩
  rw [fetched, after_store, first, second]
  rfl

include standard in
theorem memory_answer (core : Core) :
    (core.after binding (popData ++ pointFrom "ARG" .up 0 ++ [Code.set .m .d] ++
      [.symbol "ARG", setBinary .d .m .plus .one] ++ store "SP")).memory =
        answered core.memory := by
  have stack : Address.ofWord (binding "SP") = 0 := by rw [standard "SP" 0 (by decide)]; rfl
  have argument : binding "ARG" = 2 := standard "ARG" 2 (by decide)
  simp only [Core.after_append, after_popData standard, after_store, stack]
  simp only [pointFrom, if_true, Core.after_cons, Core.after_nil, Core.perform, argument]
  rfl

include standard in
theorem memory_restore (core : Core) {symbol : String} {cell : Address}
    (bound : Address.ofWord (binding symbol) = cell) (distance : UInt16) :
    (core.after binding (pointFrom "R13" .down distance ++ [Code.set .d .m] ++
      store symbol)).memory = restored distance core.memory cell := by
  have scratch : Address.ofWord (binding "R13") = 13 := by
    rw [standard "R13" 13 (by decide)]
    rfl
  rcases after_fetch binding core "R13" .down distance with ⟨address, fetched⟩
  rw [Core.after_append, fetched, after_store, bound, scratch]
  rfl

/-- The shared routine up to its jump. -/
def leaving : Listing :=
  ([.label returnSymbol] ++ Code.load "LCL" ++ store "R13" ++ pointFrom "R13" .down 5 ++
      [Code.set .d .m] ++ store "R14") ++
    (popData ++ pointFrom "ARG" .up 0 ++ [Code.set .m .d] ++
      [.symbol "ARG", setBinary .d .m .plus .one] ++ store "SP") ++
    (pointFrom "R13" .down 1 ++ [Code.set .d .m] ++ store "THAT") ++
    (pointFrom "R13" .down 2 ++ [Code.set .d .m] ++ store "THIS") ++
    (pointFrom "R13" .down 3 ++ [Code.set .d .m] ++ store "ARG") ++
    (pointFrom "R13" .down 4 ++ [Code.set .d .m] ++ store "LCL")

theorem sharedReturn_eq : sharedReturn = leaving ++ [.symbol "R14", Code.set .a .m] ++
    [.compute .nowhere (.operand .zero) (some .always)] := by
  decide

include standard in
theorem memory_leaving (core : Core) :
    (core.after binding leaving).memory = returned core.memory := by
  have locals : Address.ofWord (binding "LCL") = 1 := by rw [standard "LCL" 1 (by decide)]; rfl
  have argument : Address.ofWord (binding "ARG") = 2 := by rw [standard "ARG" 2 (by decide)]; rfl
  have this : Address.ofWord (binding "THIS") = 3 := by rw [standard "THIS" 3 (by decide)]; rfl
  have that : Address.ofWord (binding "THAT") = 4 := by rw [standard "THAT" 4 (by decide)]; rfl
  rw [leaving, Core.after_append, memory_restore standard _ locals, Core.after_append,
    memory_restore standard _ argument, Core.after_append, memory_restore standard _ this,
    Core.after_append, memory_restore standard _ that, Core.after_append,
    memory_answer standard, memory_prepare standard, returned, restoredSegments]

include standard in
/-- The shared routine goes to where the second scratch cell says. -/
theorem reaches_sharedReturn (core : Core) (placed : Placed image binding place sharedReturn) :
    ∃ last, Reaches image ⟨place, core⟩
        ⟨(Address.ofWord (returned core.memory 14)).val, last⟩ ∧
      last.memory = returned core.memory := by
  rw [sharedReturn_eq] at placed
  have scratch : Address.ofWord (binding "R14") = 14 := by
    rw [standard "R14" 14 (by decide)]
    rfl
  have straight := reaches_after core placed.left rfl
  have pointed : (core.after binding (leaving ++ [.symbol "R14", Code.set .a .m])) =
      ⟨returned core.memory 14, (core.after binding leaving).data, returned core.memory⟩ := by
    rw [Core.after_append, after_follow, memory_leaving standard, scratch]
  rw [pointed] at straight
  rcases placed.right with ⟨jumps, -⟩
  have jumped := reaches_jump
    ⟨returned core.memory 14, (core.after binding leaving).data, returned core.memory⟩
    (by decide : Computation.operand .zero ∈ Computation.all) jumps
  rw [Core.pointed] at jumped
  exact ⟨_, straight.trans jumped, rfl⟩

end Calls

end Vm
end HackToolchain
