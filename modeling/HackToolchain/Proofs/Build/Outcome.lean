import Mathlib.Data.List.Forall2
import HackToolchain.Proofs.Build.Linking
import HackToolchain.Proofs.Jack.Complaints
import HackToolchain.Proofs.Jack.Operands

namespace HackToolchain
namespace Build

/-!
# What comes of a build

A build answers with artifacts and with lines of text.  Whether it went well is told by the lines alone:
there are none if nothing failed.  That is only right if no step fails without a word, and so all the
readers, the generator, the translator and the assembler are asked here for a wording of every error
that they end with.

A source of a class or of assembly code has its artifact whatever the other sources answer.  Only the
program asks for all of its sources at once.  But a class that declares more variables than can be
counted has no answer.  The run is aborted there, and nothing comes of the other sources either.
-/

open Hack Vm

/-! ## What a build is to give -/

/-- The commands of a class, if it compiles. -/
def Source.commandArtifact? (source : Source) : Option Artifact :=
  match Jack.compile source.text with
  | .ok commands => some ⟨source.name, .vm, sourceText commands⟩
  | .error _ => none

/-- The image of an assembly source, if it assembles. -/
def Source.imageArtifact? (source : Source) : Option Artifact :=
  match Hack.assembleSource source.text with
  | .ok image => some ⟨source.name, .hack, imageText image⟩
  | .error _ => none

/-- The sources of the program in the order of its files. -/
def programSources (sources : List Source) : List Source :=
  sourcesOf .jack sources ++ sourcesOf .vm sources

/-- The file of the program that a source gives. -/
inductive Source.Gives (source : Source) : File -> Prop where
  | compiled {commands : List Command} (language : source.language = .jack)
      (done : Jack.compile source.text = .ok commands) :
      source.Gives (.ofCommands source.name commands)
  | read {commands : List (Located Command)} (language : source.language = .vm)
      (done : Vm.parse source.text = .ok commands) : source.Gives ⟨source.name, commands⟩

/-- A build links some files: its target is behind the linker, there is a source for the program, and
every such source gives its file. -/
structure Links (options : Options) (sources : List Source) (files : List File) : Prop where
  target : options.target ≠ .vm
  inhabited : programSources sources ≠ []
  complete : List.Forall₂ Source.Gives (programSources sources) files

/-- The name of a program. -/
def programName (options : Options) (files : List File) : String :=
  if options.programName.isEmpty then (files.head?.map File.name).getD "" else options.programName

/-- How a program is translated. -/
def translation (options : Options) (files : List File) : Except (List ProgramError) Listing :=
  translate ⟨options.bootstrap.getD (files.length > 1), options.annotate⟩ files

/-- An artifact of the linker. -/
inductive LinkerGives (options : Options) (files : List File) : Artifact -> Prop where
  | listing {code : Listing} (translated : translation options files = .ok code) :
      LinkerGives options files ⟨programName options files, .asm, Listing.text code⟩
  | image {code : Listing} {image : List UInt16} (translated : translation options files = .ok code)
      (wanted : options.target = .hack) (assembled : assemble code = .ok image) :
      LinkerGives options files ⟨programName options files, .hack, imageText image⟩

/-- A step of the linker that fails, with the name it is reported by and what there is to report. -/
inductive LinkerFails (options : Options) (files : List File) : String -> List String -> Prop where
  | translating {errors : List ProgramError} (failed : translation options files = .error errors) :
      LinkerFails options files (programName options files) (errors.map ProgramError.message)
  | assembling {code : Listing} {error : AssemblyError}
      (translated : translation options files = .ok code) (wanted : options.target = .hack)
      (failed : assemble code = .error error) :
      LinkerFails options files (programName options files) [error.message]

/-- A step of a build that fails, with the name it is reported by and what there is to report. -/
inductive Fails (options : Options) (sources : List Source) : String -> List String -> Prop where
  | compiling {source : Source} {failure : Jack.Failure} (member : source ∈ sources)
      (language : source.language = .jack) (failed : Jack.compile source.text = .error failure) :
      Fails options sources source.fileName [failure.message]
  | reading {source : Source} {diagnostics : List Diagnostic} (member : source ∈ sources)
      (language : source.language = .vm) (failed : Vm.parse source.text = .error diagnostics) :
      Fails options sources source.fileName [Diagnostic.joined diagnostics]
  | linking {files : List File} {name : String} {messages : List String}
      (links : Links options sources files) (failed : LinkerFails options files name messages) :
      Fails options sources name messages
  | assembling {source : Source} {error : AssemblyError} (member : source ∈ sources)
      (language : source.language = .asm) (wanted : options.target = .hack)
      (failed : Hack.assembleSource source.text = .error error) :
      Fails options sources source.fileName [error.message]

/-! ## Reports that tell failures -/

/-- A line of text that reports some messages under a name. -/
def IsLineOf (name : String) (messages : List String) (text : String) : Prop :=
  ∃ message ∈ messages, ∃ line ∈ Text.lines message, text = name ++ ": " ++ line

/-- A report has a line for everything that failed, and only such lines. -/
structure Report.Tells (report : Report) (failed : String -> List String -> Prop) : Prop where
  complete : ∀ name messages, failed name messages -> ∃ text ∈ report.diagnostics,
    IsLineOf name messages text
  sound : ∀ text ∈ report.diagnostics, ∃ name messages, failed name messages ∧
    IsLineOf name messages text

namespace Report

variable {failed others : String -> List String -> Prop}

theorem Tells.congr {report : Report} (tells : report.Tells failed)
    (same : ∀ name messages, failed name messages ↔ others name messages) : report.Tells others := by
  have equal : failed = others := funext₂ fun name messages => propext (same name messages)
  exact equal ▸ tells

theorem tells_nothing {report : Report} (silent : report.diagnostics = []) :
    report.Tells fun _ _ => False := by
  refine ⟨fun _ _ => False.elim, fun text member => ?_⟩
  rw [silent] at member
  cases member

theorem Tells.append {first second : Report} (before : first.Tells failed)
    (behind : second.Tells others) :
    (first ++ second).Tells fun name messages => failed name messages ∨ others name messages := by
  constructor
  · rintro name messages (fails | fails)
    · obtain ⟨text, member, isLine⟩ := before.complete name messages fails
      exact ⟨text, List.mem_append_left _ member, isLine⟩
    · obtain ⟨text, member, isLine⟩ := behind.complete name messages fails
      exact ⟨text, List.mem_append_right _ member, isLine⟩
  · intro text member
    rcases List.mem_append.mp member with member | member
    · obtain ⟨name, messages, fails, isLine⟩ := before.sound text member
      exact ⟨name, messages, .inl fails, isLine⟩
    · obtain ⟨name, messages, fails, isLine⟩ := behind.sound text member
      exact ⟨name, messages, .inr fails, isLine⟩

theorem tells_concat {items : List α} {report : α -> Report}
    {failed : α -> String -> List String -> Prop}
    (tells : ∀ item ∈ items, (report item).Tells (failed item)) :
    (concat (items.map report)).Tells fun name messages =>
      ∃ item ∈ items, failed item name messages := by
  have lines {text : String} : text ∈ (concat (items.map report)).diagnostics ↔
      ∃ item ∈ items, text ∈ (report item).diagnostics := by
    simp only [concat, List.mem_flatMap, List.mem_map, exists_exists_and_eq_and]
  constructor
  · rintro name messages ⟨item, member, fails⟩
    obtain ⟨text, inside, isLine⟩ := (tells item member).complete name messages fails
    exact ⟨text, lines.mpr ⟨item, member, inside⟩, isLine⟩
  · intro text inside
    obtain ⟨item, member, here⟩ := lines.mp inside
    obtain ⟨name, messages, fails, isLine⟩ := (tells item member).sound text here
    exact ⟨name, messages, ⟨item, member, fails⟩, isLine⟩

/-- Complaints are heard if one of them has a wording. -/
theorem tells_complaints (name : String) {messages : List String}
    (worded : ∃ message ∈ messages, message ≠ "") :
    (concat (messages.map (complaint name))).Tells fun file texts => file = name ∧ texts = messages := by
  have lines {text : String} : text ∈ (concat (messages.map (complaint name))).diagnostics ↔
      IsLineOf name messages text := by
    simp only [concat, complaint, IsLineOf, List.mem_flatMap, List.mem_map,
      exists_exists_and_eq_and, eq_comm (b := text)]
  constructor
  · rintro file texts ⟨rfl, rfl⟩
    obtain ⟨message, member, nonempty⟩ := worded
    obtain ⟨line, inside⟩ :=
      List.exists_mem_of_ne_nil _ fun none => nonempty (Text.lines_eq_nil_iff.mp none)
    have isLine := (⟨message, member, line, inside, rfl⟩ : IsLineOf file texts _)
    exact ⟨_, lines.mpr isLine, isLine⟩
  · exact fun text member => ⟨name, messages, ⟨rfl, rfl⟩, lines.mp member⟩

theorem tells_complaint (name : String) {message : String} (nonempty : message ≠ "") :
    (complaint name message).Tells fun file texts => file = name ∧ texts = [message] := by
  have tells := tells_complaints name ⟨message, List.mem_singleton_self message, nonempty⟩
  have whole : concat [complaint name message] = complaint name message := by
    simp [concat, complaint]
  exact whole ▸ tells

/-- A report is silent exactly if nothing failed. -/
theorem Tells.silent_iff {report : Report} (tells : report.Tells failed) :
    report.diagnostics = [] ↔ ¬∃ name messages, failed name messages := by
  constructor
  · rintro silent ⟨name, messages, fails⟩
    obtain ⟨text, member, -⟩ := tells.complete name messages fails
    rw [silent] at member
    cases member
  · intro nothing
    refine List.eq_nil_iff_forall_not_mem.mpr fun text member => nothing ?_
    obtain ⟨name, messages, fails, -⟩ := tells.sound text member
    exact ⟨name, messages, fails⟩

end Report

/-! ## Wordings -/

theorem message_ne_empty_of_program (error : ProgramError) : error.message ≠ "" := by
  cases error with
  | malformed file diagnostics =>
      intro none
      exact absurd (String.append_eq_empty_iff.mp (String.append_eq_empty_iff.mp none).1).2 (by decide)
  | faulty context line fault =>
      unfold ProgramError.message
      iterate 5 refine append_ne_empty ?_ _
      decide

theorem message_ne_empty_of_bindLabels {count : Nat} {table : SymbolTable}
    {program : List (Located Instruction)} {error : AssemblyError}
    (failed : bindLabels count table program = .error error) : error.message ≠ "" := by
  have large (count : Nat) : (AssemblyError.programTooLarge count).message ≠ "" := by
    unfold AssemblyError.message
    iterate 3 refine append_ne_empty ?_ _
    decide
  have duplicate (label : String) (line : Nat) :
      (AssemblyError.duplicateLabel label line).message ≠ "" := by
    unfold AssemblyError.message
    iterate 4 refine append_ne_empty ?_ _
    decide
  fun_induction bindLabels count table program with
  | case1 => cases failed
  | case2 =>
      cases failed
      exact large _
  | case3 _ _ _ _ _ _ _ _ inductionHypothesis => exact inductionHypothesis failed
  | case4 =>
      cases failed
      exact duplicate _ _
  | case5 =>
      cases failed
      exact large _
  | case6 _ _ _ _ _ inductionHypothesis => exact inductionHypothesis failed

theorem message_ne_empty_of_assembleLocated {program : List (Located Instruction)}
    {error : AssemblyError} (failed : assembleLocated program = .error error) : error.message ≠ "" := by
  unfold assembleLocated at failed
  cases bound : bindLabels 0 .initial program with
  | ok table =>
      rw [bound] at failed
      cases failed
  | error reason =>
      rw [bound] at failed
      cases failed
      exact message_ne_empty_of_bindLabels bound

theorem message_ne_empty_of_assembleSource {source : String} {error : AssemblyError}
    (failed : Hack.assembleSource source = .error error) : error.message ≠ "" := by
  unfold Hack.assembleSource at failed
  cases parsed : Hack.parse source with
  | ok program =>
      rw [parsed] at failed
      exact message_ne_empty_of_assembleLocated failed
  | error diagnostics =>
      rw [parsed] at failed
      cases failed
      exact Diagnostic.joined_ne_empty (readLines_error_ne_nil parsed)

/-! ## Sources of their own -/

theorem tells_classPart (source : Source) :
    (classPart source).report.Tells fun name messages => ∃ error,
      Jack.compile source.text = .error error ∧ name = source.fileName ∧ messages = [error.message] := by
  unfold classPart
  cases compiled : Jack.compile source.text with
  | ok commands => exact (Report.tells_nothing rfl).congr fun _ _ => by simp
  | error error =>
      refine (Report.tells_complaint _ (Jack.message_ne_empty_of_compile compiled)).congr
        fun _ _ => ?_
      simp

theorem tells_readFile (source : Source) :
    (readFile source).report.Tells fun name messages => ∃ diagnostics,
      Vm.parse source.text = .error diagnostics ∧ name = source.fileName ∧
        messages = [Diagnostic.joined diagnostics] := by
  unfold readFile File.parse
  cases parsed : Vm.parse source.text with
  | ok commands => exact (Report.tells_nothing rfl).congr fun _ _ => by simp
  | error diagnostics =>
      have worded := Diagnostic.joined_ne_empty (readLines_error_ne_nil parsed)
      refine (Report.tells_complaint _ worded).congr fun _ _ => ?_
      simp

theorem tells_assembleSource (source : Source) :
    (assembleSource source).Tells fun name messages => ∃ error,
      Hack.assembleSource source.text = .error error ∧ name = source.fileName ∧
        messages = [error.message] := by
  unfold assembleSource
  cases assembled : Hack.assembleSource source.text with
  | ok image => exact (Report.tells_nothing rfl).congr fun _ _ => by simp
  | error error =>
      refine (Report.tells_complaint _ (message_ne_empty_of_assembleSource assembled)).congr
        fun _ _ => ?_
      simp

theorem artifacts_classPart (source : Source) :
    (classPart source).report.artifacts = source.commandArtifact?.toList := by
  unfold classPart Source.commandArtifact?
  cases Jack.compile source.text with
  | ok commands => rfl
  | error error => rfl

theorem artifacts_readFile (source : Source) : (readFile source).report.artifacts = [] := by
  unfold readFile
  cases File.parse source.name source.text with
  | ok file => rfl
  | error diagnostics => rfl

theorem artifacts_assembleSource (source : Source) :
    (assembleSource source).artifacts = source.imageArtifact?.toList := by
  unfold assembleSource Source.imageArtifact?
  cases Hack.assembleSource source.text with
  | ok image => rfl
  | error error => rfl

/-! ## The linker -/

theorem translate_error_ne_nil {options : Vm.Options} {files : List File}
    {errors : List ProgramError} (failed : translate options files = .error errors) : errors ≠ [] := by
  unfold Vm.translate at failed
  dsimp only at failed
  split at failed
  · cases failed
  · rename_i some
    cases failed
    exact some

theorem link_eq (options : Options) (first : File) (others : List File) :
    link options first others =
      match translation options (first :: others) with
      | .error errors => .concat ((errors.map ProgramError.message).map
          (.complaint (programName options (first :: others))))
      | .ok code => .artifact (programName options (first :: others)) .asm (Listing.text code) ++
          if options.target = .hack then assembleProgram (programName options (first :: others)) code
          else .empty := by
  simp only [List.map_map]
  rfl

section Linker

variable {options : Options} {first : File} {others : List File}

/-- What the linker tells, and which artifacts it gives. -/
structure LinkOutcome (options : Options) (files : List File) (report : Report) : Prop where
  tells : report.Tells (LinkerFails options files)
  kinds : report.artifacts.map Artifact.kind <+: [.asm, .hack]
  gives : ∀ artifact, artifact ∈ report.artifacts ↔ LinkerGives options files artifact

theorem linkOutcome_of_error {errors : List ProgramError}
    (failed : translation options (first :: others) = .error errors) :
    LinkOutcome options (first :: others) (link options first others) := by
  rw [link_eq, failed]
  have worded : ∃ message ∈ errors.map ProgramError.message, message ≠ "" := by
    obtain ⟨error, member⟩ := List.exists_mem_of_ne_nil _ (translate_error_ne_nil failed)
    exact ⟨_, List.mem_map_of_mem member, message_ne_empty_of_program error⟩
  have silent : (Report.concat ((errors.map ProgramError.message).map
      (.complaint (programName options (first :: others))))).artifacts = [] := by
    simp [Report.concat, Report.complaint]
  refine ⟨(Report.tells_complaints _ worded).congr fun name messages => ?_, ?_, fun artifact => ?_⟩
  · constructor
    · rintro ⟨rfl, rfl⟩
      exact .translating failed
    · rintro (failed' | translated)
      · rw [failed] at failed'
        cases failed'
        exact ⟨rfl, rfl⟩
      · rw [failed] at translated
        cases translated
  · rw [silent]
    exact List.nil_prefix
  · rw [silent]
    constructor
    · nofun
    · rintro (translated | translated)
      · rw [failed] at translated
        cases translated
      · rw [failed] at translated
        cases translated

theorem linkerGives_iff {files : List File} {code : Listing}
    (translated : translation options files = .ok code) (artifact : Artifact) :
    LinkerGives options files artifact ↔
      artifact = ⟨programName options files, .asm, Listing.text code⟩ ∨
        options.target = .hack ∧ ∃ image, assemble code = .ok image ∧
          artifact = ⟨programName options files, .hack, imageText image⟩ := by
  constructor
  · rintro (translated' | ⟨translated', wanted, assembled⟩)
    · rw [translated] at translated'
      cases translated'
      exact .inl rfl
    · rw [translated] at translated'
      cases translated'
      exact .inr ⟨wanted, _, assembled, rfl⟩
  · rintro (rfl | ⟨wanted, image, assembled, rfl⟩)
    · exact .listing translated
    · exact .image translated wanted assembled

theorem linkerFails_iff {files : List File} {code : Listing}
    (translated : translation options files = .ok code) (name : String) (messages : List String) :
    LinkerFails options files name messages ↔
      options.target = .hack ∧ ∃ error, assemble code = .error error ∧
        name = programName options files ∧ messages = [error.message] := by
  constructor
  · rintro (failed | ⟨translated', wanted, failed⟩)
    · rw [translated] at failed
      cases failed
    · rw [translated] at translated'
      cases translated'
      exact ⟨wanted, _, failed, rfl, rfl⟩
  · rintro ⟨wanted, error, failed, rfl, rfl⟩
    exact .assembling translated wanted failed

theorem linkOutcome_of_ok {code : Listing}
    (translated : translation options (first :: others) = .ok code) :
    LinkOutcome options (first :: others) (link options first others) := by
  have silent (name : String) (kind : Target) (text : String) :
      (Report.artifact name kind text).Tells fun _ _ => False := Report.tells_nothing rfl
  rw [link_eq, translated]
  dsimp only
  by_cases wanted : options.target = .hack
  · rw [if_pos wanted, assembleProgram]
    cases assembled : assemble code with
    | ok image =>
        refine ⟨((silent ..).append (silent ..)).congr fun name messages => ?_, List.prefix_rfl,
          fun artifact => ?_⟩
        · rw [linkerFails_iff translated, assembled]
          simp
        · rw [linkerGives_iff translated, assembled]
          change artifact ∈ [_, _] ↔ _
          simp [wanted]
    | error error =>
        have worded := message_ne_empty_of_assembleLocated assembled
        refine ⟨((silent ..).append (Report.tells_complaint _ worded)).congr fun name messages => ?_,
          ⟨[.hack], rfl⟩, fun artifact => ?_⟩
        · rw [linkerFails_iff translated, assembled]
          simp [wanted]
        · rw [linkerGives_iff translated, assembled]
          change artifact ∈ [_] ↔ _
          simp
  · rw [if_neg wanted, append_empty]
    refine ⟨(silent ..).congr fun name messages => ?_, ⟨[.hack], rfl⟩, fun artifact => ?_⟩
    · rw [linkerFails_iff translated]
      simp [wanted]
    · rw [linkerGives_iff translated]
      change artifact ∈ [_] ↔ _
      simp [wanted]

theorem linkOutcome (options : Options) (first : File) (others : List File) :
    LinkOutcome options (first :: others) (link options first others) := by
  cases translated : translation options (first :: others) with
  | error errors => exact linkOutcome_of_error translated
  | ok code => exact linkOutcome_of_ok translated

end Linker

/-! ## The parts of a program -/

/-- The part of a program that a source makes. -/
def partOf (source : Source) : Part :=
  if source.language = .jack then classPart source else readFile source

theorem parts_eq (sources : List Source) :
    (sourcesOf .jack sources).map classPart ++ (sourcesOf .vm sources).map readFile =
      (programSources sources).map partOf := by
  unfold programSources
  rw [List.map_append]
  refine congrArg₂ _ (List.map_congr_left fun source member => ?_)
    (List.map_congr_left fun source member => ?_)
  · rw [partOf, if_pos (mem_sourcesOf.mp member).2]
  · rw [partOf, if_neg (by rw [(mem_sourcesOf.mp member).2]; exact nofun)]

theorem mem_programSources {sources : List Source} {source : Source} :
    source ∈ programSources sources ↔
      source ∈ sources ∧ (source.language = .jack ∨ source.language = .vm) := by
  rw [programSources, List.mem_append, mem_sourcesOf, mem_sourcesOf, ← and_or_left]

theorem file_classPart (source : Source) : (classPart source).file =
    match Jack.compile source.text with
    | .ok commands => some (.ofCommands source.name commands)
    | .error _ => none := by
  unfold classPart
  cases Jack.compile source.text with
  | ok commands => rfl
  | error error => rfl

theorem file_readFile (source : Source) : (readFile source).file =
    match Vm.parse source.text with
    | .ok commands => some ⟨source.name, commands⟩
    | .error _ => none := by
  unfold readFile File.parse
  cases Vm.parse source.text with
  | ok commands => rfl
  | error diagnostics => rfl

theorem gives_iff_of_jack {source : Source} (language : source.language = .jack) (file : File) :
    source.Gives file ↔ ∃ commands, Jack.compile source.text = .ok commands ∧
      file = .ofCommands source.name commands := by
  constructor
  · rintro (⟨-, done⟩ | ⟨isVm, -⟩)
    · exact ⟨_, done, rfl⟩
    · rw [language] at isVm
      cases isVm
  · rintro ⟨commands, done, rfl⟩
    exact .compiled language done

theorem gives_iff_of_vm {source : Source} (language : source.language = .vm) (file : File) :
    source.Gives file ↔ ∃ commands, Vm.parse source.text = .ok commands ∧
      file = ⟨source.name, commands⟩ := by
  constructor
  · rintro (⟨isJack, -⟩ | ⟨-, done⟩)
    · rw [language] at isJack
      cases isJack
    · exact ⟨_, done, rfl⟩
  · rintro ⟨commands, done, rfl⟩
    exact .read language done

/-- The file of a part is the one that its source gives. -/
theorem file_partOf {source : Source} (ofProgram : source.language = .jack ∨ source.language = .vm)
    (file : File) : (partOf source).file = some file ↔ source.Gives file := by
  unfold partOf
  rcases ofProgram with language | language
  · rw [if_pos language, file_classPart, gives_iff_of_jack language]
    cases Jack.compile source.text with
    | ok commands => simp [eq_comm]
    | error error => simp
  · rw [if_neg (by rw [language]; exact nofun), file_readFile, gives_iff_of_vm language]
    cases Vm.parse source.text with
    | ok commands => simp [eq_comm]
    | error diagnostics => simp

/-- The files of parts are all there exactly if every source gives its own. -/
theorem forall₂_gives_iff {sources : List Source}
    (ofProgram : ∀ source ∈ sources, source.language = .jack ∨ source.language = .vm)
    (files : List File) : List.Forall₂ Source.Gives sources files ↔
      (sources.map partOf).map Part.file = files.map some := by
  induction sources generalizing files with
  | nil => cases files <;> simp
  | cons source rest inductionHypothesis =>
      obtain ⟨here, later⟩ := List.forall_mem_cons.mp ofProgram
      cases files with
      | nil => simp
      | cons file others =>
          rw [List.forall₂_cons, inductionHypothesis later, ← file_partOf here]
          simp

theorem Links.files {options : Options} {sources : List Source} {files : List File}
    (links : Links options sources files) :
    ((programSources sources).map partOf).map Part.file = files.map some :=
  (forall₂_gives_iff (fun _ member => (mem_programSources.mp member).2) files).mp links.complete

theorem Links.unique {options : Options} {sources : List Source} {files others : List File}
    (links : Links options sources files) (links' : Links options sources others) : files = others :=
  List.map_injective_iff.mpr (Option.some_injective File) (links.files.symm.trans links'.files)

theorem map_filterMap_file {parts : List Part} (complete : ∀ part ∈ parts, part.file ≠ none) :
    (parts.filterMap Part.file).map some = parts.map Part.file := by
  induction parts with
  | nil => rfl
  | cons part rest inductionHypothesis =>
      obtain ⟨here, later⟩ := List.forall_mem_cons.mp complete
      obtain ⟨file, given⟩ := Option.ne_none_iff_exists'.mp here
      rw [List.filterMap_cons_some given, List.map_cons, List.map_cons, inductionHypothesis later, given]

/-- The parts of a program are linked if there is a program, and to nothing if there is none. -/
theorem linkParts_cases (options : Options) (sources : List Source) :
    (∃ first others, Links options sources (first :: others) ∧
      linkParts options ((programSources sources).map partOf) = link options first others) ∨
    (¬∃ files, Links options sources files) ∧
      linkParts options ((programSources sources).map partOf) = .empty := by
  unfold linkParts
  by_cases stays : options.target = .vm ∨
      ((programSources sources).map partOf).any (fun part => part.file.isNone) = true
  · right
    constructor
    · rintro ⟨files, links⟩
      rcases stays with target | missing
      · exact links.target target
      · obtain ⟨part, member, none⟩ := List.any_eq_true.mp missing
        have given := List.mem_map_of_mem (f := Part.file) member
        rw [links.files, Option.isNone_iff_eq_none.mp none] at given
        simp at given
    · rw [if_pos (by simpa using stays)]
  · rw [if_neg (by simpa using stays)]
    obtain ⟨target, complete⟩ := not_or.mp stays
    have files : (((programSources sources).map partOf).filterMap Part.file).map some =
        ((programSources sources).map partOf).map Part.file :=
      map_filterMap_file fun part member none =>
        complete (List.any_eq_true.mpr ⟨part, member, by simp [none]⟩)
    cases given : ((programSources sources).map partOf).filterMap Part.file with
    | nil =>
        rw [given] at files
        refine .inr ⟨?_, rfl⟩
        rintro ⟨_, links⟩
        exact links.inhabited (by simpa using files)
    | cons first others =>
        rw [given] at files
        refine .inl ⟨first, others, ⟨target, ?_, ?_⟩, rfl⟩
        · intro none
          rw [none] at files
          cases files
        · exact (forall₂_gives_iff (fun _ member => (mem_programSources.mp member).2) _).mpr files.symm

theorem linkParts_outcome (options : Options) (sources : List Source) :
    (linkParts options ((programSources sources).map partOf)).Tells (fun name messages =>
        ∃ files, Links options sources files ∧ LinkerFails options files name messages) ∧
      (linkParts options ((programSources sources).map partOf)).artifacts.map Artifact.kind <+:
        [.asm, .hack] ∧
      ∀ artifact, artifact ∈ (linkParts options ((programSources sources).map partOf)).artifacts ↔
        ∃ files, Links options sources files ∧ LinkerGives options files artifact := by
  rcases linkParts_cases options sources with ⟨first, others, links, linked⟩ | ⟨none, linked⟩
  · have only (holds : List File -> Prop) :
        (∃ files, Links options sources files ∧ holds files) ↔ holds (first :: others) :=
      ⟨fun ⟨files, links', held⟩ => links.unique links' ▸ held, fun held => ⟨_, links, held⟩⟩
    obtain ⟨tells, kinds, gives⟩ := linkOutcome options first others
    rw [linked]
    refine ⟨tells.congr fun name messages => ?_, kinds, fun artifact => ?_⟩
    · rw [only fun files => LinkerFails options files name messages]
    · rw [gives, only fun files => LinkerGives options files artifact]
  · have never {holds : List File -> Prop} : ¬∃ files, Links options sources files ∧ holds files :=
      fun ⟨files, links, _⟩ => none ⟨files, links⟩
    rw [linked]
    refine ⟨(Report.tells_nothing rfl).congr fun _ _ => (iff_false_right never).mpr id,
      List.nil_prefix, fun artifact => ⟨nofun, fun given => absurd given never⟩⟩

/-! ## The whole build -/

theorem concat_append (front behind : List Report) :
    Report.concat (front ++ behind) = .concat front ++ .concat behind :=
  congrArg₂ Report.mk List.flatMap_append List.flatMap_append

theorem reportOf_eq (options : Options) (sources : List Source) :
    reportOf options sources =
      .concat ((sourcesOf .jack sources).map fun source => (classPart source).report) ++
        .concat ((sourcesOf .vm sources).map fun source => (readFile source).report) ++
        linkParts options ((programSources sources).map partOf) ++
        if options.target = .hack then .concat ((sourcesOf .asm sources).map assembleSource)
        else .empty := by
  unfold reportOf conclude
  dsimp only
  rw [List.map_append, concat_append, List.map_map, List.map_map, parts_eq]
  rfl

theorem artifacts_append (first second : Report) :
    (first ++ second).artifacts = first.artifacts ++ second.artifacts := rfl

/-- The artifacts of sources that give one at most. -/
theorem artifacts_concat {report : Source -> Report} {artifact? : Source -> Option Artifact}
    (each : ∀ source, (report source).artifacts = (artifact? source).toList) (sources : List Source) :
    (Report.concat (sources.map report)).artifacts = sources.filterMap artifact? := by
  rw [Report.concat, List.flatMap_map, List.filterMap_eq_flatMap_toList]
  exact congrArg (List.flatMap · sources) (funext each)

theorem artifacts_reportOf (options : Options) (sources : List Source) :
    (reportOf options sources).artifacts =
      (sourcesOf .jack sources).filterMap Source.commandArtifact? ++
        (linkParts options ((programSources sources).map partOf)).artifacts ++
        (if options.target = .hack then (sourcesOf .asm sources).filterMap Source.imageArtifact?
          else []) := by
  have noFiles : (sourcesOf .vm sources).filterMap (fun _ => (none : Option Artifact)) = [] :=
    List.filterMap_eq_nil_iff.mpr fun _ _ => rfl
  rw [reportOf_eq, artifacts_append, artifacts_append, artifacts_append,
    artifacts_concat artifacts_classPart, @artifacts_concat _ (fun _ => none) artifacts_readFile, noFiles,
    List.append_nil]
  split
  · rw [artifacts_concat artifacts_assembleSource]
  · rfl

theorem reportOf_tells (options : Options) (sources : List Source) :
    (reportOf options sources).Tells (Fails options sources) := by
  have classes := Report.tells_concat fun source (_ : source ∈ sourcesOf .jack sources) =>
    tells_classPart source
  have files := Report.tells_concat fun source (_ : source ∈ sourcesOf .vm sources) =>
    tells_readFile source
  have linker := (linkParts_outcome options sources).1
  have images : (if options.target = .hack then
      Report.concat ((sourcesOf .asm sources).map assembleSource) else .empty).Tells
        fun name messages => options.target = .hack ∧ ∃ source ∈ sourcesOf .asm sources, ∃ error,
          Hack.assembleSource source.text = .error error ∧ name = source.fileName ∧
            messages = [error.message] := by
    by_cases wanted : options.target = .hack
    · rw [if_pos wanted]
      refine (Report.tells_concat fun source _ => tells_assembleSource source).congr fun _ _ => ?_
      rw [and_iff_right wanted]
    · rw [if_neg wanted]
      refine (Report.tells_nothing rfl).congr fun _ _ => ?_
      rw [false_iff, not_and]
      exact fun target => absurd target wanted
  rw [reportOf_eq]
  refine (((classes.append files).append linker).append images).congr fun name messages => ?_
  constructor
  · rintro (((⟨source, member, error, failed, rfl, rfl⟩ | ⟨source, member, diagnostics, failed, rfl, rfl⟩) |
      ⟨files, links, failed⟩) | ⟨wanted, source, member, error, failed, rfl, rfl⟩)
    · obtain ⟨inside, language⟩ := mem_sourcesOf.mp member
      exact .compiling inside language failed
    · obtain ⟨inside, language⟩ := mem_sourcesOf.mp member
      exact .reading inside language failed
    · exact .linking links failed
    · obtain ⟨inside, language⟩ := mem_sourcesOf.mp member
      exact .assembling inside language wanted failed
  · rintro (⟨member, language, failed⟩ | ⟨member, language, failed⟩ | ⟨links, failed⟩ |
      ⟨member, language, wanted, failed⟩)
    · exact .inl (.inl (.inl ⟨_, mem_sourcesOf.mpr ⟨member, language⟩, _, failed, rfl, rfl⟩))
    · exact .inl (.inl (.inr ⟨_, mem_sourcesOf.mpr ⟨member, language⟩, _, failed, rfl, rfl⟩))
    · exact .inl (.inr ⟨_, links, failed⟩)
    · exact .inr ⟨wanted, _, mem_sourcesOf.mpr ⟨member, language⟩, _, failed, rfl, rfl⟩

/-- What comes of a build.  The run is aborted only in a class with more variables of a kind than there
are cells, and gives a report if it is aborted in none.  The artifacts of the report are those of the
classes that compile, in order, then those of the linker, and with the last target those of the assembly
sources that assemble, in order.  The linker gives its listing exactly if there is a program and it can
be translated, and behind it the image exactly if the target asks for it and the listing can be
assembled.  There is a line for every step that fails, and no other line; so there are no lines exactly
if nothing fails. -/
theorem build_outcome (options : Options) (sources : List Source) :
    match run options sources with
    | .error abort => ∃ source ∈ sources, source.language = .jack ∧
        Jack.compile source.text = .error (.aborted abort) ∧
        ∃ tree, Jack.parse source.text = .ok tree ∧ ¬tree.FewVariables
    | .ok report =>
      (∀ source ∈ sources, source.language = .jack -> ¬source.Aborts) ∧
      (∃ linked : List Artifact,
        report.artifacts =
          (sourcesOf .jack sources).filterMap Source.commandArtifact? ++ linked ++
            (if options.target = .hack then (sourcesOf .asm sources).filterMap Source.imageArtifact?
              else []) ∧
        linked.map Artifact.kind <+: [.asm, .hack] ∧
        ∀ artifact, artifact ∈ linked ↔
          ∃ files, Links options sources files ∧ LinkerGives options files artifact) ∧
      (∀ name messages, Fails options sources name messages ->
        ∃ text ∈ report.diagnostics, IsLineOf name messages text) ∧
      (∀ text ∈ report.diagnostics,
        ∃ name messages, Fails options sources name messages ∧ IsLineOf name messages text) ∧
      (report.diagnostics = [] ↔ ¬∃ name messages, Fails options sources name messages) := by
  rcases run_cases options sources with
    ⟨goesOn, ended⟩ | ⟨source, member, language, abort, aborts, ended⟩
  · obtain ⟨-, kinds, gives⟩ := linkParts_outcome options sources
    have tells := reportOf_tells options sources
    rw [ended]
    exact ⟨goesOn, ⟨_, artifacts_reportOf options sources, kinds, gives⟩, tells.complete, tells.sound,
      tells.silent_iff⟩
  · rw [ended]
    exact ⟨source, member, language, aborts, Jack.exists_of_aborted aborts⟩

/-- An assembly source that assembles has no artifact beside a class whose variables cannot be
counted. -/
theorem wide_class_ends_build : Hack.assembleSource "@1\n" = .ok [1] ∧
    run {} [⟨"A", .jack, Jack.wideSource 65535⟩, ⟨"B", .asm, "@1\n"⟩] = .error .overflow := by
  have aborts : Source.Aborts ⟨"A", .jack, Jack.wideSource 65535⟩ :=
    ⟨.overflow, Jack.compile_wideSource (by decide)⟩
  exact ⟨by decide +kernel, run_of_aborts {} List.mem_cons_self rfl aborts⟩

end Build
end HackToolchain
