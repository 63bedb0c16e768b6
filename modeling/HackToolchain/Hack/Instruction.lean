import HackToolchain.Hack.Computation
import HackToolchain.Text.Lines

namespace HackToolchain
namespace Hack

/-!
# Assembly listings

A listing is what an assembler takes in and a translator puts out: a sequence of entries, of
which only some take up a word of instruction memory.  Labels name the place of the next word,
and comments are for the reader.
-/

/-- An entry of a listing. -/
inductive Instruction where
  /-- Load a number into the address register. -/
  | value (value : UInt16)
  /-- Load what a symbol stands for into the address register. -/
  | symbol (name : String)
  /-- Compute, store the result and perhaps jump. -/
  | compute (destination : Destination) (computation : Computation) (jump : Option Jump)
  /-- Give the next word a name. -/
  | label (name : String)
  /-- A line for the reader. -/
  | comment (text : String)
deriving DecidableEq, Repr

/-- Entries in the order of the program. -/
abbrev Listing := List Instruction

namespace Instruction

/-- Whether the entry takes up a word of instruction memory. -/
def isEncoded : Instruction -> Bool
  | .value _ | .symbol _ | .compute _ _ _ => true
  | .label _ | .comment _ => false

/-- An entry as one line of assembly. -/
def text : Instruction -> String
  | .value number => "@" ++ toString number.toNat
  | .symbol name => "@" ++ name
  | .compute destination computation jump =>
    (if destination.isNowhere then "" else destination.text ++ "=") ++ computation.text ++
      match jump with
      | some jump => ";" ++ jump.text
      | none => ""
  | .label name => "(" ++ name ++ ")"
  | .comment remark => "// " ++ remark

end Instruction

/-- A listing as assembly source, one entry per line. -/
def Listing.text (listing : Listing) : String :=
  Text.closedLines (listing.map Instruction.text)

end Hack
end HackToolchain
