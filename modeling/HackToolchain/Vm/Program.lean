import Std.Data.TreeMap
import HackToolchain.Vm.Code
import HackToolchain.Vm.Source

namespace HackToolchain
namespace Vm

/-!
# Programs

The files of a program are translated together, in order, into one listing: labels are numbered
across files, and a jump may not leave its function but a call may go anywhere.

A program without faults always has a listing.  A program with faults has none, and is answered
by all of them.
-/

open Hack

/-- What a listing holds besides the code of the commands. -/
structure Options where
  /-- Set up the stack and call the entry point in front of the program. -/
  bootstrap : Bool := false
  /-- Put a comment in front of the code of every command. -/
  annotate : Bool := false
deriving DecidableEq, Repr

/-! ## Labels of the translator's own -/

/-- For each base, the number of its next label. -/
abbrev LabelNumbers := Std.TreeMap String Nat

/-- The next label of a base.  The labels of a base are numbered from zero. -/
def LabelNumbers.next (numbers : LabelNumbers) (base : String) : String × LabelNumbers :=
  let number := numbers.getD base 0
  (base ++ "." ++ toString number, numbers.insert base (number + 1))

/-- The base of the label that returns to behind a call. -/
def returnBase (function : String) : String := "$RET." ++ function

/-- The base of the labels of a comparison. -/
def comparisonBase (name context : String) : String := "$" ++ name ++ "." ++ context

/-- How the labels of a comparison name it. -/
def Operation.labelName? : Operation -> Option String
  | .eq => some "EQ"
  | .gt => some "GT"
  | .lt => some "LT"
  | _ => none

/-- The base of the label a command needs for itself, if it needs one.  The dollar sign in front
keeps these labels apart from every name in a source. -/
def Site.labelBase? (site : Site) : Option String :=
  match site.command with
  | .arithmetic operation =>
    operation.labelName?.map fun name => comparisonBase name site.scope.context
  | .call function _ => some (returnBase function)
  | _ => none

/-! ## Laying out the listing -/

/-- A listing in the making. -/
structure Draft where
  listing : Array Instruction
  numbers : LabelNumbers

namespace Draft

/-- Append a comment where comments are wanted. -/
def note (options : Options) (text : String) (draft : Draft) : Draft :=
  if options.annotate then { draft with listing := draft.listing.push (.comment text) } else draft

/-- Append instructions. -/
def append (draft : Draft) (code : Listing) : Draft :=
  { draft with listing := draft.listing.appendList code }

/-- The beginning of a program's listing. -/
def start (options : Options) : Draft :=
  let draft : Draft := ⟨#[], ∅⟩
  if options.bootstrap then
    let (label, numbers) := draft.numbers.next (returnBase Code.entryPoint)
    { draft.note options "bootstrap" with numbers := numbers }.append (Code.bootstrap label)
  else draft

/-- How a comment names the command of a site. -/
def caption (site : Site) : String :=
  site.before.context ++ " (line " ++ toString site.line ++ "): '" ++ site.command.text ++ "'"

/-- Append the code of a site. -/
def addSite (options : Options) (draft : Draft) (site : Site) : Draft :=
  let draft := draft.note options (caption site)
  match site.labelBase? with
  | some base =>
    let (label, numbers) := draft.numbers.next base
    { draft with numbers := numbers }.append (site.command.code site.scope label)
  | none => draft.append (site.command.code site.scope "")

/-- Append the shared routine if the program returns anywhere. -/
def finish (options : Options) (draft : Draft) (sites : List Site) : Draft :=
  if sites.any fun site => site.command == .«return» then
    (draft.note options "shared return").append Code.sharedReturn
  else draft

end Draft

/-- The listing of a program's sites. -/
def listing (options : Options) (sites : List Site) : Listing :=
  ((sites.foldl (Draft.addSite options) (Draft.start options)).finish options sites).listing.toList

/-- Translate the files of a program, or tell everything that is wrong with it. -/
def translate (options : Options) (files : List File) :
    Except (List ProgramError) Listing :=
  let sites := Site.ofFiles files
  match Site.faults sites with
  | [] => .ok (listing options sites)
  | faults => .error faults

/-- Read one source file. -/
def File.parse (name source : String) : Except (List Diagnostic) File :=
  match Vm.parse source with
  | .ok commands => .ok ⟨name, commands⟩
  | .error diagnostics => .error diagnostics

/-- Put what came of reading one file in front of what came of the files behind it. -/
def readBefore (source : String × String) (others : Except (List ProgramError) (List File)) :
    Except (List ProgramError) (List File) :=
  match File.parse source.1 source.2, others with
  | .ok file, .ok files => .ok (file :: files)
  | .ok _, .error errors => .error errors
  | .error diagnostics, .ok _ => .error [.malformed source.1 diagnostics]
  | .error diagnostics, .error errors => .error (.malformed source.1 diagnostics :: errors)

/-- Read the files of a program, each given as its name and source.  If any is malformed, the
errors of all malformed ones are answered. -/
def readFiles (sources : List (String × String)) : Except (List ProgramError) (List File) :=
  sources.foldr readBefore (.ok [])

/-- Translate a program given as names and sources of its files.  Nothing is translated unless
all files can be read. -/
def translateSources (options : Options) (sources : List (String × String)) :
    Except (List ProgramError) Listing := do
  translate options (← readFiles sources)

end Vm
end HackToolchain
