import HackToolchain.Hack.Image
import HackToolchain.Jack.Generator
import HackToolchain.Vm.Program

namespace HackToolchain

/-!
# Builds

A build takes sources of all three languages down to a target.  Classes are compiled one by one;
what they compile to is linked with the stack-machine sources into one program, which is
translated and assembled.  Assembly sources are programs of their own.

A source that has errors costs its diagnostics and nothing of what the other sources give by
themselves.  Only the program needs all its parts: if any of them failed, nothing is linked.
Artifacts and diagnostics come in the order of these steps, and within a step in the order of the
sources.

A run that is aborted in one class is the run of the whole build.  There is no report then, neither
of the class nor of any other source.
-/

namespace Build

open Hack Vm

/-! ## Sources and artifacts -/

/-- The name extension of a language's sources. -/
def extension : Dialect -> String
  | .jack => "jack"
  | .vm => "vm"
  | .asm => "asm"

/-- The language whose sources have the given name extension. -/
def language? (text : String) : Option Dialect :=
  [Dialect.jack, .vm, .asm].find? fun language => extension language == text

/-- How far down a build goes. -/
inductive Target where
  | vm
  | asm
  | hack
deriving DecidableEq, Repr

/-- The name extension of a target's artifacts. -/
def Target.extension : Target -> String
  | .vm => "vm"
  | .asm => "asm"
  | .hack => "hack"

/-- What to build and how. -/
structure Options where
  target : Target := .hack
  /-- Whether the program sets up the stack and calls its entry point.  If nothing is said, it
  does when it has more than one file. -/
  bootstrap : Option Bool := none
  annotate : Bool := false
  /-- The name of the linked artifacts.  If it is empty, they are named after the program's first
  file. -/
  programName : String := ""
deriving DecidableEq, Repr

/-- An input file, named without its extension. -/
structure Source where
  name : String
  language : Dialect
  text : String
deriving DecidableEq, Repr

/-- The name of a source's file. -/
def Source.fileName (source : Source) : String := source.name ++ "." ++ extension source.language

/-- An output file, named without its extension. -/
structure Artifact where
  name : String
  kind : Target
  text : String
deriving DecidableEq, Repr

/-- The name of an artifact's file. -/
def Artifact.fileName (artifact : Artifact) : String :=
  artifact.name ++ "." ++ artifact.kind.extension

/-! ## Reports -/

/-- What came of a build, or of a part of it. -/
structure Report where
  artifacts : List Artifact
  diagnostics : List String
deriving DecidableEq, Repr

namespace Report

/-- Nothing came of it. -/
def empty : Report := ⟨[], []⟩

/-- One part of a build followed by another. -/
def append (first second : Report) : Report :=
  ⟨first.artifacts ++ second.artifacts, first.diagnostics ++ second.diagnostics⟩

instance : Append Report := ⟨append⟩

/-- Parts of a build in order. -/
def concat (reports : List Report) : Report :=
  ⟨reports.flatMap artifacts, reports.flatMap diagnostics⟩

/-- One artifact. -/
def artifact (name : String) (kind : Target) (text : String) : Report :=
  ⟨[⟨name, kind, text⟩], []⟩

/-- The lines of a message, each under the name of the file that it is about. -/
def complaint (file message : String) : Report :=
  ⟨[], (Text.lines message).map fun line => file ++ ": " ++ line⟩

/-- Whether nothing was complained about. -/
def isOk (report : Report) : Bool := report.diagnostics.isEmpty

/-- The first artifact with the given file name. -/
def find? (report : Report) (fileName : String) : Option Artifact :=
  report.artifacts.find? fun artifact => artifact.fileName == fileName

end Report

/-! ## The parts of a build -/

/-- A part of a program: its report, and its file if it could be made. -/
structure Part where
  report : Report
  file : Option File

/-- Compile a class. -/
def compileClass (source : Source) : Except Abort Part :=
  match Jack.compile source.text with
  | .ok commands =>
    .ok ⟨.artifact source.name .vm (sourceText commands), some (.ofCommands source.name commands)⟩
  | .error (.refused error) => .ok ⟨.complaint source.fileName error.message, none⟩
  | .error (.aborted abort) => .error abort

/-- Read a stack-machine source. -/
def readFile (source : Source) : Part :=
  match File.parse source.name source.text with
  | .ok file => ⟨.empty, some file⟩
  | .error diagnostics => ⟨.complaint source.fileName (Diagnostic.joined diagnostics), none⟩

/-- Assemble the listing of a program. -/
def assembleProgram (name : String) (listing : Listing) : Report :=
  match assemble listing with
  | .ok image => .artifact name .hack (imageText image)
  | .error error => .complaint name error.message

/-- Link the files of a program. -/
def link (options : Options) (first : File) (others : List File) : Report :=
  let files := first :: others
  let name := if options.programName.isEmpty then first.name else options.programName
  let linking : Vm.Options :=
    { bootstrap := options.bootstrap.getD (files.length > 1), annotate := options.annotate }
  match translate linking files with
  | .error errors => .concat (errors.map fun error => .complaint name error.message)
  | .ok listing =>
    .artifact name .asm (Listing.text listing) ++
      if options.target = .hack then assembleProgram name listing else .empty

/-- Link the parts of a program, unless some part is missing or the target is reached without
linking. -/
def linkParts (options : Options) (parts : List Part) : Report :=
  if options.target = .vm || parts.any fun part => part.file.isNone then .empty
  else match parts.filterMap Part.file with
    | [] => .empty
    | first :: others => link options first others

/-- Assemble an assembly source. -/
def assembleSource (source : Source) : Report :=
  match Hack.assembleSource source.text with
  | .ok image => .artifact source.name .hack (imageText image)
  | .error error => .complaint source.fileName error.message

/-- The sources of one language in order. -/
def sourcesOf (language : Dialect) (sources : List Source) : List Source :=
  sources.filter fun source => source.language == language

/-- Build sources as far as the target, given what has become of the classes among them. -/
def conclude (options : Options) (sources : List Source) (classes : List Part) : Report :=
  let parts := classes ++ (sourcesOf .vm sources).map readFile
  .concat (parts.map Part.report) ++ linkParts options parts ++
    if options.target = .hack then .concat ((sourcesOf .asm sources).map assembleSource)
    else .empty

/-- Build sources as far as the target. -/
def run (options : Options) (sources : List Source) : Except Abort Report := do
  let classes ← (sourcesOf .jack sources).mapM compileClass
  return conclude options sources classes

end Build
end HackToolchain
