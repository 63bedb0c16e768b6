import HackToolchain.Proofs.Token.Names
import HackToolchain.Proofs.Vm.Faults
import HackToolchain.Proofs.Vm.Simulation

namespace HackToolchain
namespace Vm

open Hack Machine

/-!
# Translated sources

A program that was read from sources has constants of fifteen bits, because the reader accepts no
larger ones.  A program that could be translated has no faults, so no call of it passes more
arguments than an address can hold.  With these two facts a program that was translated and assembled
is loaded, and what the processor does with its image is what the stack machine does with the
program.

Static variables get cells of their own if no file name holds a dollar sign and no function is named
like a static variable.  Otherwise the symbol of a static variable could be that of a label.
-/

/-! ## What sources hold -/

open Production in
theorem finds_number {known : Token -> Prop} :
    Source.number.Finds known fun value => value.toNat ≤ maxInteger := by
  refine .bind (.expect _) fun _ _ => .bind .current fun token _ => ?_
  cases accepted : token.value? with
  | none => exact .reject _
  | some value => exact .pure (Token.value?_eq_some.mp accepted).2.2

section Names

open Production

variable {known : Token -> Prop} {names : String -> Prop}

theorem finds_name_of (sound : ∀ token, known token -> token.kind = .identifier -> names token.literal) :
    Source.name.Finds known names := by
  refine (Finds.expectLiteral (by decide)).mono ?_
  rintro name ⟨token, holds, isIdentifier, rfl⟩
  exact sound token holds isIdentifier

theorem finds_segment : Source.segment.Finds known fun _ => True := by
  refine .bind (.expectLiteral (by decide)) fun name _ => ?_
  cases Segment.ofName? name with
  | none => exact .reject _
  | some segment => exact .pure True.intro

/-- The name in a command, if there is one. -/
def Command.name? : Command -> Option String
  | .label name | .goto name | .ifGoto name | .function name _ | .call name _ => some name
  | _ => none

/-- The number in a command, if there is one. -/
def Command.number? : Command -> Option UInt16
  | .push _ number | .pop _ number | .function _ number | .call _ number => some number
  | _ => none

/-- Commands have the names that are found, and numbers of fifteen bits. -/
theorem finds_command_of
    (sound : ∀ token, known token -> token.kind = .identifier -> names token.literal) :
    Source.command.Finds known fun command =>
      (∀ number ∈ command.number?, number.toNat ≤ maxInteger) ∧
        ∀ name, command.name? = some name -> names name := by
  have finds_name : Source.name.Finds known names := finds_name_of sound
  have single {number : UInt16} (small : number.toNat ≤ maxInteger) :
      ∀ other ∈ some number, other.toNat ≤ maxInteger := by
    rintro _ ⟨⟩
    exact small
  have only {name : String} (found : names name) : ∀ other, some name = some other -> names other := by
    rintro _ ⟨⟩
    exact found
  apply Finds.bind .current
  intro token _
  split
  · exact finds_segment.bind fun _ _ => finds_number.bind fun _ small => .pure ⟨single small, nofun⟩
  · exact finds_segment.bind fun _ _ => finds_number.bind fun _ small => .pure ⟨single small, nofun⟩
  · exact finds_name.bind fun _ found => .pure ⟨nofun, only found⟩
  · exact finds_name.bind fun _ found => .pure ⟨nofun, only found⟩
  · exact (Finds.expect _).bind fun _ _ => (Finds.expect _).bind fun _ _ =>
      finds_name.bind fun _ found => .pure ⟨nofun, only found⟩
  · exact finds_name.bind fun _ found => finds_number.bind fun _ small =>
      .pure ⟨single small, only found⟩
  · exact finds_name.bind fun _ found => finds_number.bind fun _ small =>
      .pure ⟨single small, only found⟩
  · exact .pure ⟨nofun, nofun⟩
  · split
    · exact .pure ⟨nofun, nofun⟩
    · exact .rejectCurrent _
  · exact .rejectCurrent _

end Names

/-- Whether a command's number fits an address instruction if it is pushed as it is. -/
def Command.IsSmall (command : Command) : Prop :=
  ∀ value, command = .push .constant value -> value.toNat ≤ maxInteger

/-- A command as it can be read from a source. -/
structure Command.IsReadable (command : Command) : Prop where
  small : command.IsSmall
  named : ∀ name, command.name? = some name -> Dialect.vm.IsName name

theorem finds_command : Source.command.Finds (Token.Names .vm) Command.IsReadable := by
  refine (finds_command_of fun _ names => names).mono fun command found => ⟨?_, found.2⟩
  rintro value rfl
  exact found.1 value rfl

theorem readFiles_cons (source : String × String) (rest : List (String × String)) :
    readFiles (source :: rest) = readBefore source (readFiles rest) := by
  unfold readFiles
  rw [List.foldr_cons]

/-- Files are read when the first source holds commands and the others are read. -/
theorem parts_of_readFiles_cons {source : String × String} {rest : List (String × String)}
    {files : List File} (read : readFiles (source :: rest) = .ok files) :
    ∃ commands others, Vm.parse source.2 = .ok commands ∧ readFiles rest = .ok others ∧
      files = ⟨source.1, commands⟩ :: others := by
  rw [readFiles_cons] at read
  unfold readBefore at read
  split at read
  · rename_i file others parsed readRest
    cases read
    unfold File.parse at parsed
    split at parsed
    · rename_i commands readCommands
      cases parsed
      exact ⟨commands, others, readCommands, readRest, rfl⟩
    · cases parsed
  · cases read
  · cases read
  · cases read

/-- What all commands of any source have, all commands of files that are read have. -/
theorem forall_of_readFiles {found : Command -> Prop}
    (reads : ∀ source commands, Vm.parse source = .ok commands -> ∀ entry ∈ commands, found entry.item)
    {sources : List (String × String)} {files : List File} (read : readFiles sources = .ok files) :
    ∀ file ∈ files, file.name ∈ sources.map Prod.fst ∧
      ∀ entry ∈ file.commands, found entry.item := by
  induction sources generalizing files with
  | nil =>
      cases read
      exact fun file member => absurd member List.not_mem_nil
  | cons source rest inductionHypothesis =>
      obtain ⟨commands, others, readCommands, readRest, rfl⟩ := parts_of_readFiles_cons read
      intro other member
      rcases List.mem_cons.mp member with rfl | member
      · exact ⟨List.mem_cons_self, reads _ _ readCommands⟩
      · rcases inductionHypothesis readRest other member with ⟨named, readable⟩
        exact ⟨List.mem_cons_of_mem _ named, readable⟩

theorem isReadable_of_readFiles {sources : List (String × String)} {files : List File}
    (read : readFiles sources = .ok files) :
    ∀ file ∈ files, file.name ∈ sources.map Prod.fst ∧
      ∀ entry ∈ file.commands, entry.item.IsReadable :=
  forall_of_readFiles (fun _ _ parsed => mem_readLines finds_command parsed) read

theorem isSmall_of_readFiles {sources : List (String × String)} {files : List File}
    (read : readFiles sources = .ok files) :
    ∀ file ∈ files, file.name ∈ sources.map Prod.fst ∧
      ∀ entry ∈ file.commands, entry.item.IsSmall := by
  intro file inside
  obtain ⟨named, readable⟩ := isReadable_of_readFiles read file inside
  exact ⟨named, fun entry member => (readable entry member).small⟩

/-! ## Sites of files -/

/-- No command leaves its file. -/
theorem Scope.file_enter (scope : Scope) (command : Command) :
    (scope.enter command).file = scope.file := by
  cases command <;> rfl

theorem mem_ofCommands {scope : Scope} {commands : List (Located Command)} {site : Site}
    (member : site ∈ Site.ofCommands scope commands) :
    site.scope.file = scope.file ∧ ∃ entry ∈ commands, entry.item = site.command := by
  induction commands generalizing scope with
  | nil => cases member
  | cons entry rest inductionHypothesis =>
      rcases List.mem_cons.mp member with rfl | member
      · exact ⟨scope.file_enter _, entry, List.mem_cons_self, rfl⟩
      · rcases inductionHypothesis member with ⟨file, other, inside, same⟩
        exact ⟨file.trans (scope.file_enter _), other, List.mem_cons_of_mem _ inside, same⟩

theorem mem_ofFiles {files : List File} {site : Site} (member : site ∈ Site.ofFiles files) :
    ∃ file ∈ files, site.scope.file = file.name ∧
      ∃ entry ∈ file.commands, entry.item = site.command := by
  rcases List.mem_flatMap.mp member with ⟨file, inside, member⟩
  exact ⟨file, inside, mem_ofCommands member⟩

/-! ## What programs without faults hold -/

theorem translate_ok {options : Options} {files : List File} {code : Listing}
    (translated : translate options files = .ok code) :
    code = listing options (Site.ofFiles files) ∧
      ∀ site ∈ Site.ofFiles files, site.command.fault? = none := by
  obtain ⟨faultless, same⟩ := translate_eq_ok.mp translated
  exact ⟨same, faultless.valid⟩

/-- A call without faults leaves room for the frame. -/
theorem few_of_fault? {name : String} {arguments : UInt16}
    (faultless : (Command.call name arguments).fault? = none) :
    (arguments + 5).toNat ≤ maxInteger := by
  unfold Command.fault? at faultless
  dsimp only at faultless
  split at faultless
  · rename_i few
    have bound : arguments.toNat ≤ 32762 := few
    rw [UInt16.toNat_add, show (5 : UInt16).toNat = 5 from rfl, Nat.mod_eq_of_lt (by omega)]
    simp only [maxInteger]
    omega
  · cases faultless

theorem loaded_of_translate {options : Options} {files : List File} {code : Listing}
    {image : List UInt16} (translated : translate options files = .ok code)
    (assembled : assemble code = .ok image)
    (small : ∀ site ∈ Site.ofFiles files, site.command.IsSmall) :
    Loaded image (binding code) options (Site.ofFiles files) := by
  rcases translate_ok translated with ⟨rfl, faultless⟩
  refine ⟨fun _ _ listed => binding_predefined assembled listed, placed_of_assemble assembled,
    fun site member value command => small site member value command, ?_⟩
  intro site member name arguments command
  have none := faultless site member
  rw [command] at none
  exact few_of_fault? none

theorem translateSources_ok {options : Options} {sources : List (String × String)}
    {files : List File} {code : Listing} (read : readFiles sources = .ok files)
    (translated : translateSources options sources = .ok code) :
    translate options files = .ok code := by
  unfold translateSources at translated
  rw [read] at translated
  exact translated

/-- The symbols of a listing are few enough for all of them to have cells within memory. -/
theorem symbolCount_lt {options : Options} {sites : List Site} {image : List UInt16}
    (assembled : assemble (listing options sites) = .ok image) :
    variableBase.toNat + symbolCount (listing options sites) < 32768 := by
  have balanced : 2 * symbolCount (listing options sites) ≤ Listing.size (listing options sites) :=
    balanced_listing options sites
  have fits : Listing.size (listing options sites) ≤ 32768 := size_of_assemble assembled
  change 16 + _ < 32768
  omega

/-- Static variables of a translated program have cells behind the registers and within memory, and
no two of them share one. -/
theorem static_cells {options : Options} {sites : List Site} {image : List UInt16}
    (assembled : assemble (listing options sites) = .ok image)
    (plain : ∀ site ∈ sites, '$' ∉ site.scope.file.toList)
    (noFunction : ∀ site ∈ sites, ∀ symbol, site.static? = some symbol ->
      ∀ other ∈ sites, ∀ locals, other.command ≠ .function symbol locals)
    {first second : Site} (firstInside : first ∈ sites) (secondInside : second ∈ sites)
    {symbol other : String} (gets : first.static? = some symbol)
    (getsOther : second.static? = some other) :
    (16 ≤ (binding (listing options sites) symbol).toNat ∧
        (binding (listing options sites) symbol).toNat < 32768) ∧
      (binding (listing options sites) symbol = binding (listing options sites) other ->
        symbol = other) := by
  have few := symbolCount_lt assembled
  have room := Nat.lt_trans few (show 32768 < UInt16.size by decide)
  have isVariable := isVariable_static options firstInside gets (plain first firstInside)
    (noFunction first firstInside symbol gets)
  have otherVariable := isVariable_static options secondInside getsOther
    (plain second secondInside) (noFunction second secondInside other getsOther)
  rcases binding_variable assembled room isVariable with ⟨behind, within⟩
  exact ⟨⟨behind, Nat.lt_trans within few⟩,
    binding_distinct assembled room isVariable otherVariable⟩

/-! ## Translated programs mean what their sources mean -/

/-- Take sources that are translated and assembled.  From any matching states, whichever command the
stack machine is at, a step of it is some number of steps of the processor, which end in matching
states; and so is a run of any length.  The static variables that the stack machine has in the
assembler's cells are memory of their own there. -/
theorem processor_runs_translation {options : Options} {sources : List (String × String)}
    {files : List File} {code : Listing} {image : List UInt16}
    (plain : ∀ source ∈ sources, '$' ∉ source.1.toList)
    (read : readFiles sources = .ok files)
    (translated : translateSources options sources = .ok code)
    (assembled : assemble code = .ok image)
    (apart : ∀ site ∈ Site.ofFiles files, ∀ name locals, site.command = .function name locals ->
      ∀ source ∈ sources, ∀ index, name ≠ (Scope.ofFile source.1).staticSymbol index) :
    (∀ state processor next, Matches options (Site.ofFiles files) state processor ->
      (Program.ofSites options (Site.ofFiles files) (binding code)).step? state = some next ->
        ∃ last, Processor.Reaches image processor last ∧
          Matches options (Site.ofFiles files) next last) ∧
    (∀ count state processor final, Matches options (Site.ofFiles files) state processor ->
      (Program.ofSites options (Site.ofFiles files) (binding code)).run? count state =
        some final ->
        ∃ last, Processor.Reaches image processor last ∧
          Matches options (Site.ofFiles files) final last) ∧
    (∀ first ∈ Site.ofFiles files, ∀ second ∈ Site.ofFiles files, ∀ symbol other,
      first.static? = some symbol -> second.static? = some other ->
        (16 ≤ (binding code symbol).toNat ∧ (binding code symbol).toNat < 32768) ∧
          (binding code symbol = binding code other -> symbol = other)) := by
  have translated := translateSources_ok read translated
  have small := isSmall_of_readFiles read
  have loaded := loaded_of_translate translated assembled fun site member => by
    rcases mem_ofFiles member with ⟨file, inside, -, entry, known, same⟩
    rw [← same]
    exact (small file inside).2 entry known
  have named (site : Site) (member : site ∈ Site.ofFiles files) :
      ∃ source ∈ sources, site.scope.file = source.1 := by
    rcases mem_ofFiles member with ⟨file, inside, sameFile, -⟩
    rcases List.mem_map.mp (small file inside).1 with ⟨source, given, sameName⟩
    exact ⟨source, given, sameFile.trans sameName.symm⟩
  refine ⟨fun _ _ _ same step => simulates_step loaded same step,
    fun _ _ _ _ same run => simulates_run loaded same run, ?_⟩
  intro first firstInside second secondInside symbol other gets getsOther
  rcases translate_ok translated with ⟨rfl, -⟩
  refine static_cells assembled ?plain ?noFunction firstInside secondInside gets getsOther
  case plain =>
    intro site member
    rcases named site member with ⟨source, given, sameName⟩
    rw [sameName]
    exact plain source given
  case noFunction =>
    intro site member symbol gets begins inside locals command
    rcases named site member with ⟨source, given, sameName⟩
    rcases Site.static?_eq_some gets with ⟨index, rfl⟩
    refine apart begins inside _ locals command source given index ?_
    rw [Scope.staticSymbol, Scope.staticSymbol, sameName]
    rfl

/-- A program of two commands puts a number into the cell of its static variable. -/
theorem processor_runs_two_commands :
    let files : List File := [⟨"A", [⟨.push .constant 7, 1⟩, ⟨.pop .static 0, 2⟩]⟩]
    let code := Code.push (.literal 7) ++ Code.pop (.direct "A.0")
    let memory : Memory := fun cell => if cell = 0 then 256 else 0
    readFiles [("A", "push constant 7\npop static 0\n")] = .ok files ∧
      translateSources {} [("A", "push constant 7\npop static 0\n")] = .ok code ∧
      ∃ image, assemble code = .ok image ∧
        ∃ last, Processor.Reaches image ⟨0, ⟨0, 0, memory⟩⟩ last ∧
          last.counter = 12 ∧ last.core.memory 16 = 7 := by
  intro files code memory
  have read : readFiles [("A", "push constant 7\npop static 0\n")] = .ok files := by
    decide +kernel
  have translated : translateSources {} [("A", "push constant 7\npop static 0\n")] = .ok code := by
    decide +kernel
  have assembled : assemble code = .ok [7, 60432, 0, 64544, 58120, 0, 64968, 0, 64680, 64528, 16,
      58120] := by
    decide +kernel
  have noFunction : ∀ site ∈ Site.ofFiles files, ∀ name locals,
      site.command ≠ .function name locals := by
    intro site member name locals command
    rcases List.mem_cons.mp member with rfl | member
    · cases command
    · rw [List.mem_singleton.mp member] at command
      cases command
  refine ⟨read, translated, _, assembled, ?_⟩
  rcases processor_runs_translation (by decide) read translated assembled
    (fun site member name locals command => absurd command (noFunction site member name locals))
    with ⟨-, runs, -⟩
  have computed : ((Program.ofSites {} (Site.ofFiles files) (binding code)).run? 2
      ⟨0, memory⟩).map (fun final => (final.position, final.memory 16)) = some (2, 7) := by
    decide +kernel
  rcases Option.map_eq_some_iff.mp computed with ⟨final, run, result⟩
  rcases Prod.mk.inj result with ⟨position, stored⟩
  rcases runs 2 ⟨0, memory⟩ ⟨0, ⟨0, 0, memory⟩⟩ final ⟨rfl, fun _ _ => rfl⟩ run with
    ⟨last, reached, counter, agrees⟩
  refine ⟨last, reached, ?_, ?_⟩
  · rw [counter, position]
    decide +kernel
  · rw [← agrees 16 (by decide), stored]

end Vm
end HackToolchain
