import HackToolchain.Hack.Image
import Mathlib.Logic.Function.Basic
import Mathlib.Tactic.IntervalCases

namespace HackToolchain
namespace Hack

/-!
# The processor

The machine that runs an image.  It has a counter into instruction memory, an address register, a
data register and a data memory.  A word whose highest bit is clear loads the address register.
Every other word computes, stores the result in up to three places and may jump to where the
address register points.

The processor sees words only.  It knows nothing of instructions, so that what an instruction is
meant to do has to be recovered from the bits of its word.  That is done here once: `execute` on the
word of an address or of a compute instruction is `load` or `compute`, which take the instruction's
fields.

Data memory has half as many cells as there are words, and the highest bit of an address is not
looked at.  An image may be shorter than instruction memory; the processor has no step where it ends.
-/

/-- The cells of data memory. -/
abbrev Address := Fin 32768

/-- Numbers stand for cells. -/
instance Address.neZero : NeZero 32768 := ⟨by decide⟩

/-- The cell that a word points to.  Its highest bit does not matter. -/
def Address.ofWord (word : UInt16) : Address := Fin.ofNat 32768 word.toNat

/-- The contents of data memory. -/
abbrev Memory := Address -> UInt16

/-- A bit of a word, the lowest one at place zero. -/
def bitAt (word : UInt16) (place : Nat) : Bool := word.toNat.testBit place

/-! ## The arithmetic unit -/

namespace Control

/-- The switches that a word sets. -/
def ofWord (word : UInt16) : Control where
  fromMemory := bitAt word 12
  zeroFirst := bitAt word 11
  invertFirst := bitAt word 10
  zeroSecond := bitAt word 9
  invertSecond := bitAt word 8
  add := bitAt word 7
  invertResult := bitAt word 6

/-- Prepare one input. -/
def prepare (zero invert : Bool) (input : UInt16) : UInt16 :=
  let kept := if zero then 0 else input
  if invert then ~~~kept else kept

/-- What the arithmetic unit makes of its two inputs. -/
def output (control : Control) (first second : UInt16) : UInt16 :=
  let first := prepare control.zeroFirst control.invertFirst first
  let second := prepare control.zeroSecond control.invertSecond second
  prepare false control.invertResult (if control.add then first + second else first &&& second)

end Control

/-- The places a word stores its result in. -/
def Destination.ofWord (word : UInt16) : Destination where
  address := bitAt word 5
  data := bitAt word 4
  memory := bitAt word 3

/-- Whether a word is below zero when its highest bit is read as a sign. -/
def isNegative (word : UInt16) : Bool := bitAt word 15

/-- Whether a word jumps on a result. -/
def wordJumps (word result : UInt16) : Bool :=
  (bitAt word 2 && isNegative result) || (bitAt word 1 && result == 0) ||
    (bitAt word 0 && !(isNegative result || result == 0))

/-! ## Steps -/

/-- What the processor works on besides its counter. -/
structure Core where
  address : UInt16
  data : UInt16
  memory : Memory

/-- A state of the processor. -/
structure Processor where
  /-- The place of the next word in instruction memory. -/
  counter : Nat
  core : Core

namespace Core

/-- The cell that the address register points to. -/
def pointed (core : Core) : Address := Address.ofWord core.address

/-- Store a result.  The cell is the one pointed to before the address register changes. -/
def store (core : Core) (destination : Destination) (result : UInt16) : Core where
  address := if destination.address then result else core.address
  data := if destination.data then result else core.data
  memory := if destination.memory then Function.update core.memory core.pointed result
    else core.memory

end Core

namespace Processor

/-- Execute one word. -/
def execute (state : Processor) (word : UInt16) : Processor :=
  let core := state.core
  if bitAt word 15 then
    let control := Control.ofWord word
    let second := if control.fromMemory then core.memory core.pointed else core.address
    let result := control.output core.data second
    { counter :=
        if wordJumps word result then core.pointed.val else state.counter + 1
      core := core.store (Destination.ofWord word) result }
  else ⟨state.counter + 1, { core with address := word }⟩

/-- One step of a program. -/
def step? (image : List UInt16) (state : Processor) : Option Processor :=
  image[state.counter]?.map state.execute

/-- Several steps of a program. -/
def run? (image : List UInt16) : Nat -> Processor -> Option Processor
  | 0, state => some state
  | count + 1, state => (state.step? image).bind (run? image count)

/-- Some number of steps leads from one state to another. -/
def Reaches (image : List UInt16) (first last : Processor) : Prop :=
  ∃ count, first.run? image count = some last

end Processor

/-! ## Bits of instruction words -/

theorem bitAt_or (left right : UInt16) (place : Nat) :
    bitAt (left ||| right) place = (bitAt left place || bitAt right place) := by
  simp only [bitAt, UInt16.toNat_or, Nat.testBit_or]

theorem bitAt_and (left right : UInt16) (place : Nat) :
    bitAt (left &&& right) place = (bitAt left place && bitAt right place) := by
  simp only [bitAt, UInt16.toNat_and, Nat.testBit_and]

theorem bitAt_shiftLeft (word amount : UInt16) (place : Nat) (inside : place < 16)
    (small : amount.toNat < 16) :
    bitAt (word <<< amount) place =
      (decide (amount.toNat ≤ place) && bitAt word (place - amount.toNat)) := by
  have shifted : (word <<< amount).toNat = (word.toNat <<< amount.toNat) % 2 ^ 16 := by
    rw [UInt16.toNat_shiftLeft, Nat.mod_eq_of_lt small]
  rw [bitAt, shifted, Nat.testBit_mod_two_pow, Nat.testBit_shiftLeft, decide_eq_true inside,
    Bool.true_and]
  rfl

theorem bitAt_ofBool (bit : Bool) (place : Nat) :
    bitAt bit.toUInt16 place = (decide (place = 0) && bit) := by
  cases bit with
  | false => simp [bitAt, Bool.toUInt16]
  | true =>
    have single : bitAt true.toUInt16 place = Nat.testBit (2 ^ 0) place := rfl
    rw [single, Nat.testBit_two_pow]
    simp [eq_comm]

theorem bitAt_shiftedBool (bit : Bool) (amount : UInt16) (place : Nat) (inside : place < 16)
    (small : amount.toNat < 16) :
    bitAt (bit.toUInt16 <<< amount) place = (decide (place = amount.toNat) && bit) := by
  rw [bitAt_shiftLeft _ _ _ inside small, bitAt_ofBool, ← Bool.and_assoc, ← Bool.decide_and]
  congr 2
  exact propext (by omega)

theorem bitAt_controlBits (control : Control) (place : Nat) (inside : place < 16) :
    bitAt control.bits place =
      ((decide (place = 6) && control.fromMemory) || (decide (place = 5) && control.zeroFirst) ||
        (decide (place = 4) && control.invertFirst) ||
        (decide (place = 3) && control.zeroSecond) ||
        (decide (place = 2) && control.invertSecond) || (decide (place = 1) && control.add) ||
        (decide (place = 0) && control.invertResult)) := by
  simp only [Control.bits, bitAt_or, bitAt_ofBool, bitAt_shiftedBool _ 6 _ inside (by decide),
    bitAt_shiftedBool _ 5 _ inside (by decide), bitAt_shiftedBool _ 4 _ inside (by decide),
    bitAt_shiftedBool _ 3 _ inside (by decide), bitAt_shiftedBool _ 2 _ inside (by decide),
    bitAt_shiftedBool _ 1 _ inside (by decide)]
  rfl

theorem bitAt_destinationBits (destination : Destination) (place : Nat) (inside : place < 16) :
    bitAt destination.bits place =
      ((decide (place = 2) && destination.address) || (decide (place = 1) && destination.data) ||
        (decide (place = 0) && destination.memory)) := by
  simp only [Destination.bits, bitAt_or, bitAt_ofBool,
    bitAt_shiftedBool _ 2 _ inside (by decide), bitAt_shiftedBool _ 1 _ inside (by decide)]
  rfl

/-- The jump field is three bits wide. -/
theorem bitAt_jumpBits (jump : Option Jump) (place : Nat) (outside : 3 ≤ place) :
    bitAt ((jump.map Jump.bits).getD 0) place = false := by
  have small : ((jump.map Jump.bits).getD 0).toNat < 2 ^ 3 := by
    cases jump with
    | none => decide
    | some jump => cases jump <;> decide
  exact Nat.testBit_lt_two_pow (Nat.lt_of_lt_of_le small (Nat.pow_le_pow_right (by decide) outside))

/-- The fields of a word do not overlap: bits six to twelve are the switches, three to five the
destination and the lowest three the jump. -/
theorem bitAt_computeWord (destination : Destination) (computation : Computation)
    (jump : Option Jump) (place : Nat) (inside : place < 16) :
    bitAt (computeWord destination computation jump) place =
      (bitAt 0b1110000000000000 place ||
        (decide (6 ≤ place) && bitAt (Control.ofComputation computation).bits (place - 6)) ||
        (decide (3 ≤ place) && bitAt destination.bits (place - 3)) ||
        bitAt ((jump.map Jump.bits).getD 0) place) := by
  have six : (6 : UInt16).toNat = 6 := rfl
  have three : (3 : UInt16).toNat = 3 := rfl
  simp only [computeWord, bitAt_or, bitAt_shiftLeft _ _ _ inside, six, three, Nat.reduceLT]

/-- The three highest bits mark a compute word, and no field has a part in them. -/
theorem bitAt_computeMark (place : Nat) (below : place < 13) :
    bitAt 0b1110000000000000 place = false := by
  interval_cases place <;> rfl

/-- The lowest three bits of a compute word are those of the jump. -/
theorem bitAt_computeWord_of_lt (destination : Destination) (computation : Computation)
    (jump : Option Jump) (place : Nat) (below : place < 3) :
    bitAt (computeWord destination computation jump) place =
      bitAt ((jump.map Jump.bits).getD 0) place := by
  rw [bitAt_computeWord _ _ _ _ (by omega), bitAt_computeMark _ (by omega),
    decide_eq_false (by omega), decide_eq_false (by omega)]
  simp only [Bool.false_or, Bool.false_and]

/-- Reading the switches off a word gives back the computation's switches. -/
theorem Control.ofWord_computeWord (destination : Destination) (computation : Computation)
    (jump : Option Jump) :
    Control.ofWord (computeWord destination computation jump) =
      Control.ofComputation computation := by
  have read (place : Nat) (above : 6 ≤ place) (below : place < 13) :
      bitAt (computeWord destination computation jump) place =
        bitAt (Control.ofComputation computation).bits (place - 6) := by
    have destinationBit : bitAt destination.bits (place - 3) = false := by
      rw [bitAt_destinationBits _ _ (by omega)]
      simp only [decide_eq_false (show place - 3 ≠ 2 by omega),
        decide_eq_false (show place - 3 ≠ 1 by omega),
        decide_eq_false (show place - 3 ≠ 0 by omega), Bool.false_and, Bool.or_self]
    rw [bitAt_computeWord _ _ _ _ (by omega), bitAt_computeMark _ below, destinationBit,
      bitAt_jumpBits _ _ (by omega), decide_eq_true above]
    simp only [Bool.false_or, Bool.true_and, Bool.and_false, Bool.or_false]
  simp only [Control.ofWord, read _ (show 6 ≤ 12 by decide) (by decide),
    read _ (show 6 ≤ 11 by decide) (by decide), read _ (show 6 ≤ 10 by decide) (by decide),
    read _ (show 6 ≤ 9 by decide) (by decide), read _ (show 6 ≤ 8 by decide) (by decide),
    read _ (show 6 ≤ 7 by decide) (by decide), read _ (show 6 ≤ 6 by decide) (by decide)]
  simp [bitAt_controlBits]

/-- Reading the destination off a word gives back the instruction's. -/
theorem Destination.ofWord_computeWord (destination : Destination) (computation : Computation)
    (jump : Option Jump) :
    Destination.ofWord (computeWord destination computation jump) = destination := by
  have read (place : Nat) (above : 3 ≤ place) (below : place < 6) :
      bitAt (computeWord destination computation jump) place =
        bitAt destination.bits (place - 3) := by
    rw [bitAt_computeWord _ _ _ _ (by omega), bitAt_computeMark _ (by omega),
      bitAt_jumpBits _ _ above, decide_eq_true above, decide_eq_false (by omega)]
    simp only [Bool.false_or, Bool.true_and, Bool.false_and, Bool.or_false]
  simp only [Destination.ofWord, read _ (show 3 ≤ 5 by decide) (by decide),
    read _ (show 3 ≤ 4 by decide) (by decide), read _ (show 3 ≤ 3 by decide) (by decide)]
  simp [bitAt_destinationBits]

/-! ## The meaning of the fields -/

/-- The word that an operand stands for. -/
def Operand.value (core : Core) : Operand -> UInt16
  | .zero => 0
  | .one => 1
  | .a => core.address
  | .d => core.data
  | .m => core.memory core.pointed

/-- The word that a computation denotes, in arithmetic that wraps.  An operator in a place where it
means nothing passes its first operand on. -/
def Computation.value (core : Core) : Computation -> UInt16
  | .operand x => x.value core
  | .unary .minus x => -x.value core
  | .unary .not x => ~~~x.value core
  | .unary _ x => x.value core
  | .binary left .plus right => left.value core + right.value core
  | .binary left .minus right => left.value core - right.value core
  | .binary left .and right => left.value core &&& right.value core
  | .binary left .or right => left.value core ||| right.value core
  | .binary left .not _ => left.value core

/-- Whether a result meets the condition of a jump. -/
def Jump.holds (result : UInt16) : Jump -> Bool
  | .greater => !(isNegative result || result == 0)
  | .equal => result == 0
  | .greaterOrEqual => !isNegative result
  | .less => isNegative result
  | .notEqual => result != 0
  | .lessOrEqual => isNegative result || result == 0
  | .always => true

theorem wordJumps_computeWord (destination : Destination) (computation : Computation)
    (jump : Option Jump) (result : UInt16) :
    wordJumps (computeWord destination computation jump) result =
      (jump.map (Jump.holds result)).getD false := by
  rw [wordJumps, bitAt_computeWord_of_lt _ _ _ 2 (by decide),
    bitAt_computeWord_of_lt _ _ _ 1 (by decide), bitAt_computeWord_of_lt _ _ _ 0 (by decide)]
  by_cases zero : result = 0
  · subst zero
    cases jump with
    | none => rfl
    | some jump => cases jump <;> rfl
  · have nonzero : (result == 0) = false := beq_eq_false_iff_ne.mpr zero
    cases jump with
    | none => simp [bitAt]
    | some jump =>
        cases jump <;> cases negative : isNegative result <;>
          simp [bitAt, Jump.bits, Jump.holds, Nat.testBit, nonzero, negative, bne]

/-! ## Executing words -/

theorem not_and_not (first second : UInt16) : ~~~(~~~first &&& ~~~second) = first ||| second := by
  rw [← UInt16.toBitVec_inj]
  simp [BitVec.not_and]

/-- The switches of every listed computation make the arithmetic unit compute what the computation
denotes.  Sums and differences come out of the steps because inverting a word negates it and
subtracts one. -/
theorem Control.output_ofComputation (core : Core) (computation : Computation)
    (listed : computation ∈ Computation.all) :
    (Control.ofComputation computation).output core.data
        (if (Control.ofComputation computation).fromMemory then core.memory core.pointed
          else core.address) = computation.value core := by
  simp only [Computation.all, List.mem_cons, List.not_mem_nil, or_false] at listed
  rcases listed with rfl | rfl | rfl | rfl | rfl | rfl | rfl | rfl | rfl | rfl | rfl | rfl | rfl |
      rfl | rfl | rfl | rfl | rfl | rfl | rfl | rfl | rfl | rfl | rfl | rfl | rfl | rfl | rfl <;>
    simp [ofComputation, ofOperand, ofSum, ofDifference, ofConjunction, ofDisjunction,
      readsMemory, output, prepare, Computation.value, Operand.value, not_and_not] <;>
    grind [UInt16.not_eq_neg_sub]

/-- The highest bit of an address is dropped from its word, and the processor does not look at it
either. -/
theorem Address.ofWord_addressWord (word : UInt16) :
    Address.ofWord (addressWord word) = Address.ofWord word := by
  apply Fin.ext
  have masked : (addressWord word).toNat = word.toNat % 32768 := by
    rw [addressWord, UInt16.toNat_and]
    exact Nat.and_two_pow_sub_one_eq_mod word.toNat 15
  simp only [Address.ofWord, Fin.val_ofNat, masked, Nat.mod_mod]

theorem bitAt_addressWord (word : UInt16) : bitAt (addressWord word) 15 = false := by
  rw [addressWord, bitAt_and]
  exact Bool.and_false _

namespace Processor

/-- Put the address of an address instruction into the address register. -/
def load (state : Processor) (word : UInt16) : Processor :=
  ⟨state.counter + 1, { state.core with address := addressWord word }⟩

/-- Do what the fields of a compute instruction say. -/
def compute (state : Processor) (destination : Destination) (computation : Computation)
    (jump : Option Jump) : Processor :=
  let result := computation.value state.core
  { counter :=
      if (jump.map (Jump.holds result)).getD false then state.core.pointed.val
      else state.counter + 1
    core := state.core.store destination result }

theorem execute_addressWord (state : Processor) (word : UInt16) :
    state.execute (addressWord word) = state.load word := by
  simp only [execute, bitAt_addressWord, Bool.false_eq_true, if_false, load]

/-- A compute word makes the processor do what the instruction's fields say. -/
theorem execute_computeWord (state : Processor) (destination : Destination)
    (computation : Computation) (jump : Option Jump) (listed : computation ∈ Computation.all) :
    state.execute (computeWord destination computation jump) =
      state.compute destination computation jump := by
  have compute : bitAt (computeWord destination computation jump) 15 = true := by
    rw [bitAt_computeWord _ _ _ _ (by decide)]
    rfl
  simp only [execute, compute, if_true, Control.ofWord_computeWord,
    Destination.ofWord_computeWord, wordJumps_computeWord,
    Control.output_ofComputation state.core computation listed]
  rfl

end Processor

end Hack
end HackToolchain
