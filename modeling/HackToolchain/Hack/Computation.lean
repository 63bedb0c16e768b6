namespace HackToolchain
namespace Hack

/-!
# The fields of a compute instruction

A compute instruction says where a result goes, how it is computed and when to jump.  Each field
has a type for its meaning, a text, and a reader of that text.

`Computation` can express more than the arithmetic unit can do.  The twenty-eight computations
that have an encoding are listed in `Computation.all`, and only those can be read from text.
-/

/-- What is wrong with the text of a field. -/
inductive FieldError where
  /-- An equals sign with nothing in front of it. -/
  | missingDestination
  | invalidDestination (text : String)
  | invalidComputation (text : String)
  | invalidJump (text : String)
deriving DecidableEq, Repr

/-- The wording of a field error. -/
def FieldError.message : FieldError -> String
  | .missingDestination => "missing destination before '='"
  | .invalidDestination text => "invalid destination '" ++ text ++ "'"
  | .invalidComputation text => "invalid computation '" ++ text ++ "'"
  | .invalidJump text => "invalid jump '" ++ text ++ "'"

/-! ## Destinations -/

/-- The registers a result is stored in: the address register, the data register, and the memory
cell that the address register points to. -/
structure Destination where
  address : Bool := false
  data : Bool := false
  memory : Bool := false
deriving DecidableEq, Repr

namespace Destination

/-- Store the result nowhere. -/
def nowhere : Destination := {}

/-- The address register alone. -/
def a : Destination := { address := true }

/-- The data register alone. -/
def d : Destination := { data := true }

/-- The memory cell alone. -/
def m : Destination := { memory := true }

/-- Whether the result is stored nowhere. -/
def isNowhere (destination : Destination) : Bool :=
  !(destination.address || destination.data || destination.memory)

/-- The three bits of the field, the address register first. -/
def bits (destination : Destination) : UInt16 :=
  destination.address.toUInt16 <<< 2 ||| destination.data.toUInt16 <<< 1 |||
    destination.memory.toUInt16

/-- The registers' letters, the data register last. -/
def text (destination : Destination) : String :=
  (if destination.address then "A" else "") ++ (if destination.memory then "M" else "") ++
    (if destination.data then "D" else "")

/-- Add the register a letter names, unless it is there already. -/
def include? (destination : Destination) (letter : Char) : Option Destination :=
  if letter = 'A' ∧ !destination.address then some { destination with address := true }
  else if letter = 'D' ∧ !destination.data then some { destination with data := true }
  else if letter = 'M' ∧ !destination.memory then some { destination with memory := true }
  else none

/-- Read letters in any order, each at most once and at least one of them. -/
def ofText (text : String) : Except FieldError Destination :=
  if text.isEmpty then .error .missingDestination
  else match text.toList.foldlM include? nowhere with
    | some destination => .ok destination
    | none => .error (.invalidDestination text)

end Destination

/-! ## Computations -/

/-- What a computation takes in. -/
inductive Operand where
  | zero
  | one
  | a
  | d
  | m
deriving DecidableEq, Repr

/-- The character of an operand. -/
def Operand.character : Operand -> Char
  | .zero => '0'
  | .one => '1'
  | .a => 'A'
  | .d => 'D'
  | .m => 'M'

/-- What a computation does. -/
inductive Operator where
  | plus
  | minus
  | and
  | or
  | not
deriving DecidableEq, Repr

/-- The character of an operator. -/
def Operator.character : Operator -> Char
  | .plus => '+'
  | .minus => '-'
  | .and => '&'
  | .or => '|'
  | .not => '!'

/-- An operand, an operand under an operator, or two operands with an operator between them. -/
inductive Computation where
  | operand (operand : Operand)
  | unary (operator : Operator) (operand : Operand)
  | binary (left : Operand) (operator : Operator) (right : Operand)
deriving DecidableEq, Repr

namespace Computation

/-- The computation without blanks, as it stands in an instruction. -/
def text : Computation -> String
  | .operand x => String.ofList [x.character]
  | .unary sign x => String.ofList [sign.character, x.character]
  | .binary left sign right => String.ofList [left.character, sign.character, right.character]

/-- The computations of the arithmetic unit. -/
def all : List Computation :=
  [.operand .zero, .operand .one, .unary .minus .one,
    .operand .d, .operand .a, .operand .m,
    .unary .not .d, .unary .not .a, .unary .not .m,
    .unary .minus .d, .unary .minus .a, .unary .minus .m,
    .binary .d .plus .one, .binary .a .plus .one, .binary .m .plus .one,
    .binary .d .minus .one, .binary .a .minus .one, .binary .m .minus .one,
    .binary .d .plus .a, .binary .d .plus .m,
    .binary .d .minus .a, .binary .d .minus .m,
    .binary .a .minus .d, .binary .m .minus .d,
    .binary .d .and .a, .binary .d .and .m,
    .binary .d .or .a, .binary .d .or .m]

/-- Read one of the arithmetic unit's computations.  The operands have to stand in the order of
the list, so that a sum is written in one way only. -/
def ofText (text : String) : Except FieldError Computation :=
  match all.find? fun computation => computation.text == text with
  | some computation => .ok computation
  | none => .error (.invalidComputation text)

end Computation

/-! ## Jumps -/

/-- The conditions on the result under which the machine jumps. -/
inductive Jump where
  | greater
  | equal
  | greaterOrEqual
  | less
  | notEqual
  | lessOrEqual
  | always
deriving DecidableEq, Repr

namespace Jump

/-- The three bits of the field: jump if negative, if zero, if positive. -/
def bits : Jump -> UInt16
  | .greater => 0b001
  | .equal => 0b010
  | .greaterOrEqual => 0b011
  | .less => 0b100
  | .notEqual => 0b101
  | .lessOrEqual => 0b110
  | .always => 0b111

/-- The mnemonic of a jump. -/
def text : Jump -> String
  | .greater => "JGT"
  | .equal => "JEQ"
  | .greaterOrEqual => "JGE"
  | .less => "JLT"
  | .notEqual => "JNE"
  | .lessOrEqual => "JLE"
  | .always => "JMP"

/-- Every jump, in the order of the bits. -/
def all : List Jump :=
  [.greater, .equal, .greaterOrEqual, .less, .notEqual, .lessOrEqual, .always]

/-- Read a mnemonic. -/
def ofText (text : String) : Except FieldError Jump :=
  match all.find? fun jump => jump.text == text with
  | some jump => .ok jump
  | none => .error (.invalidJump text)

end Jump
end Hack
end HackToolchain
