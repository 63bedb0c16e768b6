import HackToolchain.Hack.Source
import HackToolchain.Hack.Word

namespace HackToolchain
namespace Hack

/-!
# Memory images

Assembling a listing gives the image of instruction memory.  A symbol may be used before its
label, so the listing is read twice: first to bind the labels to the places of the words behind
them, then to encode the entries, whereby variables are bound in the order of their first use.

Only the first reading can fail.  A label has to address a word that instruction memory has room
for and may not be bound already, and the words have to fit.  Of several faults the first in the
listing is answered; whether the words fit is known only at the end.
-/

/-- The number of words that instruction memory holds. -/
def memorySize : Nat := 32768

/-- Why a program has no image. -/
inductive AssemblyError where
  /-- The source has malformed lines. -/
  | malformed (diagnostics : List Diagnostic)
  | duplicateLabel (label : String) (line : Nat)
  /-- The program needs at least `count` words, or addresses one behind so many. -/
  | programTooLarge (count : Nat)
deriving DecidableEq, Repr

/-- The wording of an assembly error. -/
def AssemblyError.message : AssemblyError -> String
  | .malformed diagnostics => Diagnostic.joined diagnostics
  | .duplicateLabel label line =>
    "line " ++ toString line ++ ": label '" ++ label ++ "' is already defined"
  | .programTooLarge count =>
    "program has " ++ toString count ++ " instructions, instruction memory holds " ++
      toString memorySize

/-- Bind the labels of a program.  `count` words stand in front of it. -/
def bindLabels (count : Nat) (table : SymbolTable) :
    List (Located Instruction) -> Except AssemblyError SymbolTable
  | [] => if count ≤ memorySize then .ok table else .error (.programTooLarge count)
  | ⟨.label name, line⟩ :: rest =>
    if count < memorySize then
      match table.defineLabel? name (UInt16.ofNat count) with
      | some table => bindLabels count table rest
      | none => .error (.duplicateLabel name line)
    else .error (.programTooLarge (count + 1))
  | entry :: rest => bindLabels (if entry.item.isEncoded then count + 1 else count) table rest

/-- Append the words of a program to an image. -/
def encodeAll (table : SymbolTable) (image : Array UInt16) :
    List (Located Instruction) -> Array UInt16
  | [] => image
  | entry :: rest =>
    match entry.item.encode table with
    | (some word, table) => encodeAll table (image.push word) rest
    | (none, table) => encodeAll table image rest

/-- The image of a program whose entries have the given lines. -/
def assembleLocated (program : List (Located Instruction)) :
    Except AssemblyError (List UInt16) := do
  let table ← bindLabels 0 .initial program
  return (encodeAll table #[] program).toList

/-- The image of a listing.  Errors count its entries from one, which is how the lines of its
text are counted. -/
def assemble (listing : Listing) : Except AssemblyError (List UInt16) :=
  assembleLocated (listing.mapIdx fun index instruction => ⟨instruction, index + 1⟩)

/-- The image of an assembly source. -/
def assembleSource (source : String) : Except AssemblyError (List UInt16) :=
  match parse source with
  | .ok program => assembleLocated program
  | .error diagnostics => .error (.malformed diagnostics)

/-- A word as sixteen binary digits. -/
def wordText (word : UInt16) : String :=
  String.ofList ((List.range 16).map fun place =>
    if word.toNat.testBit (15 - place) then '1' else '0')

/-- An image with one word per line and no line end behind the last. -/
def imageText (image : List UInt16) : String :=
  Text.joinLines (image.map wordText)

end Hack
end HackToolchain
