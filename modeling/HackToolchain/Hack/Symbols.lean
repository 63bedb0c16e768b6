import Std.Data.TreeMap

namespace HackToolchain
namespace Hack

/-!
# Symbols of an assembly program

A symbol stands for an address.  The registers and the memory-mapped devices have fixed symbols;
labels are bound to places in instruction memory; every other symbol is a variable, and gets the
next free cell of data memory when it is first met.

A name is bound at most once and keeps its address.  Cells are handed out upwards from the first
one behind the registers.  The count stops at the largest word, so that it can never start over
at the registers.
-/

/-- The first cell of the screen's memory map. -/
def screenAddress : UInt16 := 16384

/-- The cell that holds the pressed key. -/
def keyboardAddress : UInt16 := 24576

/-- The first cell for variables. -/
def variableBase : UInt16 := 16

/-- The names bound so far and the cell of the next variable. -/
structure SymbolTable where
  addresses : Std.TreeMap String UInt16
  nextVariable : UInt16

namespace SymbolTable

/-- The symbols every program may use: sixteen numbered registers, the five that a stack machine
keeps its pointers in, and two devices. -/
def predefined : List (String × UInt16) :=
  (List.range 16).map (fun number => ("R" ++ toString number, UInt16.ofNat number)) ++
    [("SP", 0), ("LCL", 1), ("ARG", 2), ("THIS", 3), ("THAT", 4), ("SCREEN", screenAddress),
      ("KBD", keyboardAddress)]

/-- Only the predefined symbols. -/
def initial : SymbolTable := ⟨Std.TreeMap.ofList predefined, variableBase⟩

/-- The address a name is bound to. -/
def get? (table : SymbolTable) (name : String) : Option UInt16 := table.addresses[name]?

/-- Bind a label, unless the name is bound already. -/
def defineLabel? (table : SymbolTable) (name : String) (address : UInt16) : Option SymbolTable :=
  if table.addresses.contains name then none
  else some { table with addresses := table.addresses.insert name address }

/-- The cell after the given one, or the given one if there is none. -/
def nextCell (cell : UInt16) : UInt16 :=
  if cell.toNat + 1 < UInt16.size then cell + 1 else cell

/-- The address of a name.  A name that is not bound becomes a variable. -/
def resolve (table : SymbolTable) (name : String) : UInt16 × SymbolTable :=
  match table.get? name with
  | some address => (address, table)
  | none => (table.nextVariable,
      ⟨table.addresses.insert name table.nextVariable, nextCell table.nextVariable⟩)

/-- The number of cells handed out to variables. -/
def variableCount (table : SymbolTable) : Nat :=
  table.nextVariable.toNat - variableBase.toNat

end SymbolTable
end Hack
end HackToolchain
