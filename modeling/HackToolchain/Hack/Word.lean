import HackToolchain.Hack.Instruction
import HackToolchain.Hack.Symbols

namespace HackToolchain
namespace Hack

/-!
# Machine words

An address instruction is a word whose highest bit is clear, so that fifteen bits are left for
the address.  A compute instruction starts with three set bits, followed by the seven control
bits of the arithmetic unit, three destination bits and three jump bits.

The arithmetic unit knows no operators.  It can replace either input by zero and invert either
input, then adds or conjoins the two, and can invert the result.  The control bits below express
every operator by these steps; a difference, for instance, is the inverse of a sum with one
input inverted.
-/

/-- The switches of the arithmetic unit.  Its first input is the data register. -/
structure Control where
  /-- Take the second input from memory instead of the address register. -/
  fromMemory : Bool := false
  zeroFirst : Bool := false
  invertFirst : Bool := false
  zeroSecond : Bool := false
  invertSecond : Bool := false
  /-- Add the inputs instead of conjoining them. -/
  add : Bool := false
  invertResult : Bool := false
deriving DecidableEq, Repr

namespace Control

/-- The seven bits in the order of the word. -/
def bits (control : Control) : UInt16 :=
  control.fromMemory.toUInt16 <<< 6 ||| control.zeroFirst.toUInt16 <<< 5 |||
    control.invertFirst.toUInt16 <<< 4 ||| control.zeroSecond.toUInt16 <<< 3 |||
    control.invertSecond.toUInt16 <<< 2 ||| control.add.toUInt16 <<< 1 |||
    control.invertResult.toUInt16

/-- Pass one operand on, inverted if `inverts` and negated if `negates`.  Negation adds minus one
and inverts the sum. -/
def ofOperand (negates inverts : Bool) : Operand -> Control
  | .zero => { zeroFirst := true, zeroSecond := true, add := true }
  | .one =>
    { zeroFirst := true, invertFirst := true, zeroSecond := true, invertSecond := !negates,
      add := true, invertResult := !negates }
  | .d =>
    { zeroSecond := true, invertSecond := true, add := negates,
      invertResult := inverts || negates }
  | .a =>
    { zeroFirst := true, invertFirst := true, add := negates, invertResult := inverts || negates }
  | .m =>
    { fromMemory := true, zeroFirst := true, invertFirst := true, add := negates,
      invertResult := inverts || negates }

/-- Whether one of two operands is the memory cell. -/
def readsMemory (left right : Operand) : Bool := left == .m || right == .m

/-- A sum.  One is added by inverting the operand, adding minus one and inverting the sum. -/
def ofSum (left right : Operand) : Control :=
  let increments := right == .one
  let firstIsLeft := left == .d
  { fromMemory := readsMemory left right
    zeroFirst := increments && !firstIsLeft
    invertFirst := increments
    zeroSecond := increments && firstIsLeft
    invertSecond := increments
    add := true
    invertResult := increments }

/-- A difference.  One is subtracted by adding minus one. -/
def ofDifference (left right : Operand) : Control :=
  let decrements := right == .one
  let firstIsLeft := left == .d
  { fromMemory := readsMemory left right
    zeroFirst := decrements && !firstIsLeft
    invertFirst := firstIsLeft != decrements
    zeroSecond := decrements && firstIsLeft
    invertSecond := firstIsLeft == decrements
    add := true
    invertResult := !decrements }

/-- A bitwise conjunction. -/
def ofConjunction (left right : Operand) : Control :=
  { fromMemory := readsMemory left right }

/-- A bitwise disjunction, which is the inverse of the conjunction of the inverses. -/
def ofDisjunction (left right : Operand) : Control :=
  { fromMemory := readsMemory left right
    invertFirst := true
    invertSecond := true
    invertResult := true }

/-- The switches for a computation.  An operator that the arithmetic unit does not have in the
given place is passed over: one operand is then passed on, and two are conjoined. -/
def ofComputation : Computation -> Control
  | .operand x => ofOperand false false x
  | .unary .minus x => ofOperand true false x
  | .unary .not x => ofOperand false true x
  | .unary _ x => ofOperand false false x
  | .binary left .plus right => ofSum left right
  | .binary left .minus right => ofDifference left right
  | .binary left .or right => ofDisjunction left right
  | .binary left _ right => ofConjunction left right

end Control

/-- The bits of an address that fit into an instruction. -/
def addressWord (address : UInt16) : UInt16 := address &&& 0x7fff

/-- The word of a compute instruction. -/
def computeWord (destination : Destination) (computation : Computation) (jump : Option Jump) :
    UInt16 :=
  (0b1110000000000000 : UInt16) ||| (Control.ofComputation computation).bits <<< 6 |||
    destination.bits <<< 3 ||| (jump.map Jump.bits).getD 0

/-- The word of an entry, if it takes up one.  A symbol may bind a variable in the table. -/
def Instruction.encode (table : SymbolTable) : Instruction -> Option UInt16 × SymbolTable
  | .value number => (some (addressWord number), table)
  | .symbol name =>
    let (address, table) := table.resolve name
    (some (addressWord address), table)
  | .compute destination computation jump =>
    (some (computeWord destination computation jump), table)
  | .label _ | .comment _ => (none, table)

end Hack
end HackToolchain
