import HackToolchain.Hack.Instruction
import HackToolchain.Vm.Fault

namespace HackToolchain
namespace Vm

/-!
# Assembly code of the commands

The machine keeps its state in fixed cells of data memory.  `SP` holds the address of the cell
above the stack; `LCL`, `ARG`, `THIS` and `THAT` hold the first cells of four segments; eight
cells from `R5` on are the temporary segment; `R13` and `R14` are scratch.  The data register
carries a word from one idiom to the next.

Code is built from idioms, each a short listing with a stated effect, so that the code of a
command is a concatenation of them.  A command's code depends on its scope and, where it has
labels of its own, on one label that no other command gets.

All returns share one routine behind the program; a `return` only jumps there.
-/

open Hack

namespace Code

/-! ## Single instructions -/

/-- Store an operand. -/
def set (destination : Destination) (operand : Operand) : Instruction :=
  .compute destination (.operand operand) none

/-- Store an operand under an operator. -/
def setUnary (destination : Destination) (operator : Operator) (operand : Operand) : Instruction :=
  .compute destination (.unary operator operand) none

/-- Store the result of an operator between two operands. -/
def setBinary (destination : Destination) (left : Operand) (operator : Operator)
    (right : Operand) : Instruction :=
  .compute destination (.binary left operator right) none

/-! ## Jumps -/

/-- Jump to a symbol if the operand meets the condition. -/
def jumpTo (symbol : String) (operand : Operand) (condition : Jump) : Listing :=
  [.symbol symbol, .compute .nowhere (.operand operand) (some condition)]

/-- Jump to a symbol. -/
def goTo (symbol : String) : Listing := jumpTo symbol .zero .always

/-! ## Cells -/

/-- Load the cell of a symbol into the data register. -/
def load (symbol : String) : Listing := [.symbol symbol, set .d .m]

/-- Store the data register in the cell of a symbol. -/
def store (symbol : String) : Listing := [.symbol symbol, set .m .d]

/-- The two directions of an offset. -/
inductive Direction where
  | up
  | down
deriving DecidableEq, Repr

/-- The operator that takes a step in a direction. -/
def Direction.operator : Direction -> Operator
  | .up => .plus
  | .down => .minus

/-- Put the memory cell's contents, offset by the data register, into the address register. -/
def Direction.apply : Direction -> Instruction
  | .up => setBinary .a .d .plus .m
  | .down => setBinary .a .m .minus .d

/-- The largest offset that is taken in steps of one. -/
def maxSteps : Nat := 2

/-- Put the contents of a symbol's cell, offset in a direction, into the address register.  Short
offsets are taken in steps; a longer one goes through the data register. -/
def pointFrom (symbol : String) (direction : Direction) (offset : UInt16) : Listing :=
  if offset = 0 then [.symbol symbol, set .a .m]
  else if offset.toNat ≤ maxSteps then
    [.symbol symbol, setBinary .a .m direction.operator .one] ++
      List.replicate (offset.toNat - 1) (setBinary .a .a direction.operator .one)
  else [.value offset, set .d .a, .symbol symbol, direction.apply]

/-! ## The stack -/

/-- Move the stack pointer up. -/
def raise : Listing := [.symbol "SP", setBinary .m .m .plus .one]

/-- Move the stack pointer down and point to the cell that was on top. -/
def lower : Listing :=
  [.symbol "SP", setBinary { address := true, memory := true } .m .minus .one]

/-- Push what an instruction stores in memory. -/
def pushBy (instruction : Instruction) : Listing :=
  [.symbol "SP", set .a .m, instruction] ++ raise

/-- Push the data register. -/
def pushData : Listing := pushBy (set .m .d)

/-- Push the word that stands for true or for false. -/
def pushTruth (truth : Bool) : Listing :=
  pushBy (if truth then setUnary .m .minus .one else set .m .zero)

/-- Pop into the data register. -/
def popData : Listing := lower ++ [set .d .m]

/-! ## Segments -/

/-- The cells of the temporary segment. -/
def tempSymbol (index : UInt16) : String := "R" ++ toString (5 + index.toNat)

/-- The cells of the pointer segment. -/
def pointerSymbol (index : UInt16) : String := if index = 0 then "THIS" else "THAT"

/-- Where a cell of a segment is found. -/
inductive Cell where
  /-- At an offset from the address that a symbol's cell holds. -/
  | indirect (base : String) (offset : UInt16)
  /-- In a symbol's own cell. -/
  | direct (symbol : String)
  /-- Nowhere: the word is the index itself. -/
  | literal (value : UInt16)
deriving DecidableEq, Repr

/-- The cell of a segment that a scope's command means by an index. -/
def cell (scope : Scope) (segment : Segment) (index : UInt16) : Cell :=
  match segment with
  | .«local» => .indirect "LCL" index
  | .argument => .indirect "ARG" index
  | .this => .indirect "THIS" index
  | .that => .indirect "THAT" index
  | .constant => .literal index
  | .static => .direct (scope.staticSymbol index)
  | .temp => .direct (tempSymbol index)
  | .pointer => .direct (pointerSymbol index)

/-- Push a cell.  The arithmetic unit makes zero and one by itself. -/
def push : Cell -> Listing
  | .indirect base offset => pointFrom base .up offset ++ [set .d .m] ++ pushData
  | .direct symbol => load symbol ++ pushData
  | .literal value =>
    if value = 0 then pushBy (set .m .zero)
    else if value = 1 then pushBy (set .m .one)
    else [.value value, set .d .a] ++ pushData

/-- Pop to a cell.  An offset that needs the data register is added before the word is popped
into it, and the address waits in scratch.  A word cannot be popped to a literal. -/
def pop : Cell -> Listing
  | .indirect base offset =>
    if offset.toNat ≤ maxSteps then popData ++ pointFrom base .up offset ++ [set .m .d]
    else pointFrom base .up offset ++ [set .d .a] ++ store "R13" ++ popData ++
      [.symbol "R13", set .a .m, set .m .d]
  | .direct symbol => popData ++ store symbol
  | .literal _ => []

/-! ## Arithmetic -/

/-- Replace the two words on top by the result of an operator between them. -/
def binary (left : Operand) (operator : Operator) (right : Operand) : Listing :=
  popData ++ lower ++ [setBinary .d left operator right] ++ pushData

/-- Replace the word on top by the result of an operator. -/
def unary (operator : Operator) : Listing := lower ++ [setUnary .d operator .m] ++ pushData

/-- Replace the two words on top by whether their difference meets a condition.  The code jumps
between two labels that are made from the given one. -/
def compare (condition : Jump) (label : String) : Listing :=
  let finish := label ++ ".end"
  popData ++ lower ++ [setBinary .d .m .minus .d] ++ jumpTo label .d condition ++
    pushTruth false ++ goTo finish ++ [.label label] ++ pushTruth true ++ [.label finish]

/-- The code of an operation.  Only comparisons use the label. -/
def operation (label : String) : Operation -> Listing
  | .add => binary .d .plus .m
  | .sub => binary .m .minus .d
  | .and => binary .d .and .m
  | .or => binary .d .or .m
  | .neg => unary .minus
  | .not => unary .not
  | .eq => compare .equal label
  | .gt => compare .greater label
  | .lt => compare .less label

/-! ## Functions -/

/-- Define a function's entry and push a zero for each of its local variables. -/
def enter (name : String) (locals : UInt16) : Listing :=
  [.label name] ++
    if locals = 0 then []
    else set .d .zero :: (List.replicate locals.toNat pushData).flatten

/-- Call a function.  A frame of five words saves the place to go on at and the four segments;
the callee's arguments start below the frame and its local variables behind it. -/
def call (name : String) (arguments : UInt16) (label : String) : Listing :=
  [.symbol label, set .d .a] ++ pushData ++
    ["LCL", "ARG", "THIS", "THAT"].flatMap (fun symbol => load symbol ++ pushData) ++
    [.value (arguments + 5), set .d .a, .symbol "SP", setBinary .d .m .minus .d] ++ store "ARG" ++
    load "SP" ++ store "LCL" ++ goTo name ++ [.label label]

/-- The symbol of the routine that all returns share. -/
def returnSymbol : String := "$RETURN"

/-- The routine that all returns share.  The place to go on at is read before the result is
stored, because without arguments the result overwrites it. -/
def sharedReturn : Listing :=
  [.label returnSymbol] ++ load "LCL" ++ store "R13" ++
    pointFrom "R13" .down 5 ++ [set .d .m] ++ store "R14" ++
    popData ++ pointFrom "ARG" .up 0 ++ [set .m .d] ++
    [.symbol "ARG", setBinary .d .m .plus .one] ++ store "SP" ++
    [("THAT", 1), ("THIS", 2), ("ARG", 3), ("LCL", 4)].flatMap (fun (symbol, offset) =>
      pointFrom "R13" .down offset ++ [set .d .m] ++ store symbol) ++
    [.symbol "R14", set .a .m, .compute .nowhere (.operand .zero) (some .always)]

/-! ## Starting a program -/

/-- Store the negative of a number in the cell of a symbol. -/
def storeNegative (symbol : String) (number : UInt16) : Listing :=
  if number = 1 then [.symbol symbol, setUnary .m .minus .one]
  else [.value number, setUnary .d .minus .a] ++ store symbol

/-- The first cell of the stack. -/
def stackBase : UInt16 := 256

/-- The function a program starts with. -/
def entryPoint : String := "Sys.init"

/-- Set up the stack and call the entry point.  The segments start out at distinct addresses far
outside the memory, where a stray access is noticed. -/
def bootstrap (label : String) : Listing :=
  [.value stackBase, set .d .a] ++ store "SP" ++
    storeNegative "LCL" 1 ++ storeNegative "ARG" 2 ++ storeNegative "THIS" 3 ++
    storeNegative "THAT" 4 ++ call entryPoint 0 label

end Code

/-- The code of a command that stands in a scope.  `label` is a label that no other command has,
for the commands that need one of their own. -/
def Command.code (scope : Scope) (label : String) : Command -> Listing
  | .arithmetic operation => Code.operation label operation
  | .push segment index => Code.push (Code.cell scope segment index)
  | .pop segment index => Code.pop (Code.cell scope segment index)
  | .label name => [.label (scope.labelSymbol name)]
  | .goto target => Code.goTo (scope.labelSymbol target)
  | .ifGoto target => Code.popData ++ Code.jumpTo (scope.labelSymbol target) .d .notEqual
  | .function name locals => Code.enter name locals
  | .call name arguments => Code.call name arguments label
  | .«return» => Code.goTo Code.returnSymbol

end Vm
end HackToolchain
