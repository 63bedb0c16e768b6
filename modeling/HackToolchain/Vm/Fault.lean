import Std.Data.TreeSet
import HackToolchain.Token.Diagnostic
import HackToolchain.Vm.Site

namespace HackToolchain
namespace Vm

/-!
# Faults of a program

A well-formed source can still have commands that mean nothing: an index behind the end of a
short segment, a pop to the constants, a call with more arguments than an address can hold, a
label defined twice, a jump to a label that is never defined.  `faults` lists all of them.

Every command has at most one fault that can be told when it is reached, and these come in the
order of the commands.  Whether a label is ever defined is known only at the end of the program,
so the jumps to undefined labels come last, in their own order.
-/

/-- What can be wrong with a command. -/
inductive Fault where
  /-- An index behind the last of a segment's `size` cells. -/
  | invalidIndex (segment : Segment) (index : UInt16) (size : UInt16)
  | popConstant
  /-- A function's name or a label's symbol that the program has defined before. -/
  | duplicateLabel (symbol : String)
  | undefinedLabel (label : String)
  | tooManyArguments (count : UInt16)
deriving DecidableEq, Repr

/-- The largest number of arguments of a call.  With the five words of a frame it is still an
address. -/
def maxArguments : UInt16 := 32762

/-- The number of cells of a segment that is shorter than the address space. -/
def Segment.size? : Segment -> Option UInt16
  | .temp => some 8
  | .pointer => some 2
  | _ => none

/-- How a message tells the indices of a segment of the given size. -/
def indexRange (size : UInt16) : String :=
  if size = 2 then "0 or 1" else "0-" ++ toString (size.toNat - 1)

/-- The wording of a fault. -/
def Fault.message : Fault -> String
  | .invalidIndex segment index size =>
    "invalid index '" ++ toString index.toNat ++ "' for segment '" ++ segment.name ++
      "' (must be " ++ indexRange size ++ ")"
  | .popConstant => "cannot pop from the 'constant' segment"
  | .duplicateLabel symbol => "label '" ++ symbol ++ "' is already defined"
  | .undefinedLabel label => "label '" ++ label ++ "' is never defined"
  | .tooManyArguments count =>
    "call passes " ++ toString count.toNat ++ " arguments (at most " ++
      toString maxArguments.toNat ++ ")"

/-- Why a program cannot be translated. -/
inductive ProgramError where
  /-- A source file has malformed lines. -/
  | malformed (file : String) (diagnostics : List Diagnostic)
  /-- A command is faulty; it is found by its function or file and its line. -/
  | faulty (context : String) (line : Nat) (fault : Fault)
deriving DecidableEq, Repr

/-- The wording of what is wrong with a program. -/
def ProgramError.message : ProgramError -> String
  | .malformed file diagnostics => file ++ ": " ++ Diagnostic.joined diagnostics
  | .faulty context line fault =>
    "translation error (" ++ context ++ " - line " ++ toString line ++ "): " ++ fault.message

/-- What is wrong with an index of a segment. -/
def Segment.fault? (segment : Segment) (index : UInt16) : Option Fault :=
  match segment.size? with
  | some size => if index < size then none else some (.invalidIndex segment index size)
  | none => none

/-- What is wrong with a command wherever it stands. -/
def Command.fault? : Command -> Option Fault
  | .push segment index => segment.fault? index
  | .pop .constant _ => some .popConstant
  | .pop segment index => segment.fault? index
  | .call _ arguments =>
    if arguments ≤ maxArguments then none else some (.tooManyArguments arguments)
  | _ => none

namespace Site

/-- A fault at the place of a site. -/
def error (site : Site) (fault : Fault) : ProgramError :=
  .faulty site.scope.context site.line fault

/-- The faults that can be told when a command is reached, and all symbols that are defined in
the end.  `defined` holds the symbols defined in front of the sites, and `found` the faults. -/
def check (defined : Std.TreeSet String) (found : Array ProgramError) :
    List Site -> Array ProgramError × Std.TreeSet String
  | [] => (found, defined)
  | site :: rest =>
    match site.definition? with
    | some symbol =>
      if defined.contains symbol then
        check defined (found.push (site.error (.duplicateLabel symbol))) rest
      else check (defined.insert symbol) found rest
    | none =>
      match site.command.fault? with
      | some fault => check defined (found.push (site.error fault)) rest
      | none => check defined found rest

/-- The fault of a jump to a label that is not among the defined symbols. -/
def undefinedTarget? (defined : Std.TreeSet String) (site : Site) : Option ProgramError :=
  match site.target? with
  | some label =>
    if defined.contains (site.scope.labelSymbol label) then none
    else some (site.error (.undefinedLabel label))
  | none => none

/-- Everything that is wrong with a program. -/
def faults (sites : List Site) : List ProgramError :=
  let (found, defined) := check ∅ #[] sites
  found.toList ++ sites.filterMap (undefinedTarget? defined)

end Site
end Vm
end HackToolchain
