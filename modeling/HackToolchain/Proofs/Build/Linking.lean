import HackToolchain.Build
import HackToolchain.Proofs.Jack.Naming

namespace HackToolchain
namespace Build

/-!
# Linking what a build has written

A build that compiles classes hands their commands to the linker without writing them down first.  It
also puts the text of the commands out, one artifact for each class.  To link these artifacts instead
of the classes comes to the same: the text is read back into the same commands on the same lines, so
the linker is given the same files.

What the linker makes of a program depends on its files alone, and no artifact of the linker is one of
a class.  This is why the second build gives all the artifacts of the first but those of the classes.
-/

open Vm

/-! ## Linking -/

/-- A report of the linker holds no commands of classes. -/
def Report.IsLinked (report : Report) : Prop := ∀ artifact ∈ report.artifacts, artifact.kind ≠ .vm

theorem isLinked_complaint (file message : String) : (Report.complaint file message).IsLinked := nofun

theorem isLinked_artifact (name : String) {kind : Target} (text : String) (linked : kind ≠ .vm) :
    (Report.artifact name kind text).IsLinked :=
  List.forall_mem_singleton.mpr linked

theorem Report.IsLinked.append {first second : Report} (before : first.IsLinked)
    (behind : second.IsLinked) : (first ++ second).IsLinked :=
  List.forall_mem_append.mpr ⟨before, behind⟩

theorem isLinked_assembleProgram (name : String) (listing : Hack.Listing) :
    (assembleProgram name listing).IsLinked := by
  unfold assembleProgram
  split
  · exact isLinked_artifact _ _ (by decide)
  · exact isLinked_complaint _ _

theorem isLinked_link (options : Options) (first : File) (others : List File) :
    (link options first others).IsLinked := by
  unfold link
  dsimp only
  split
  · intro artifact member
    obtain ⟨report, listed, inside⟩ := List.mem_flatMap.mp member
    obtain ⟨error, -, rfl⟩ := List.mem_map.mp listed
    cases inside
  · refine (isLinked_artifact _ _ (by decide)).append ?_
    split
    · exact isLinked_assembleProgram _ _
    · exact nofun

theorem isLinked_linkParts (options : Options) (parts : List Part) :
    (linkParts options parts).IsLinked := by
  unfold linkParts
  split
  · exact nofun
  · split
    · exact nofun
    · exact isLinked_link _ _ _

/-- Only the files of the parts are linked. -/
theorem linkParts_congr (options : Options) {parts others : List Part}
    (same : parts.map Part.file = others.map Part.file) :
    linkParts options parts = linkParts options others := by
  have missing (parts : List Part) : (parts.any fun part => part.file.isNone) =
      (parts.map Part.file).any Option.isNone := by
    rw [List.any_map]
    rfl
  have files (parts : List Part) :
      parts.filterMap Part.file = (parts.map Part.file).filterMap id := by
    rw [List.filterMap_map]
    rfl
  unfold linkParts
  rw [missing, missing, files, files, same]

/-! ## Sources of one language -/

theorem sourcesOf_eq {language : Dialect} {sources : List Source}
    (all : ∀ source ∈ sources, source.language = language) (other : Dialect) :
    sourcesOf other sources = if language = other then sources else [] := by
  unfold sourcesOf
  split
  · rename_i same
    rw [List.filter_eq_self]
    exact fun source member => beq_iff_eq.mpr ((all source member).trans same)
  · rename_i different
    rw [List.filter_eq_nil_iff]
    exact fun source member same => different ((all source member).symm.trans (beq_iff_eq.mp same))

theorem append_empty (report : Report) : report ++ Report.empty = report :=
  congrArg₂ Report.mk (List.append_nil _) (List.append_nil _)

theorem empty_append (report : Report) : Report.empty ++ report = report := rfl

/-! ## Runs that are not aborted -/

/-- The run of a build ends in a source. -/
def Source.Aborts (source : Source) : Prop :=
  ∃ abort, Jack.compile source.text = .error (.aborted abort)

/-- The part of a program that a class makes. -/
def classPart (source : Source) : Part :=
  match Jack.compile source.text with
  | .ok commands =>
    ⟨.artifact source.name .vm (sourceText commands), some (.ofCommands source.name commands)⟩
  | .error failure => ⟨.complaint source.fileName failure.message, none⟩

/-- What is reported of a build that gets to its end. -/
def reportOf (options : Options) (sources : List Source) : Report :=
  conclude options sources ((sourcesOf .jack sources).map classPart)

theorem compileClass_cases (source : Source) :
    (¬source.Aborts ∧ compileClass source = .ok (classPart source)) ∨
      ∃ abort, Jack.compile source.text = .error (.aborted abort) ∧
        compileClass source = .error abort := by
  unfold Source.Aborts compileClass classPart
  cases Jack.compile source.text with
  | ok commands => exact .inl ⟨nofun, rfl⟩
  | error failure =>
      cases failure with
      | refused error => exact .inl ⟨nofun, rfl⟩
      | aborted abort => exact .inr ⟨abort, rfl, rfl⟩

theorem mapM_compileClass_cases (sources : List Source) :
    (∀ source ∈ sources, ¬source.Aborts) ∧ sources.mapM compileClass = .ok (sources.map classPart) ∨
      ∃ source ∈ sources, ∃ abort, Jack.compile source.text = .error (.aborted abort) ∧
        sources.mapM compileClass = .error abort := by
  induction sources with
  | nil => exact .inl ⟨nofun, rfl⟩
  | cons first rest inductionHypothesis =>
      rw [List.mapM_cons]
      rcases compileClass_cases first with ⟨goesOn, made⟩ | ⟨abort, aborts, ended⟩
      · rcases inductionHypothesis with ⟨others, parts⟩ | ⟨source, member, abort, aborts, ended⟩
        · refine .inl ⟨List.forall_mem_cons.mpr ⟨goesOn, others⟩, ?_⟩
          rw [made, parts]
          rfl
        · refine .inr ⟨source, List.mem_cons_of_mem first member, abort, aborts, ?_⟩
          rw [made, ended]
          rfl
      · refine .inr ⟨first, List.mem_cons_self, abort, aborts, ?_⟩
        rw [ended]
        rfl

theorem mem_sourcesOf {language : Dialect} {sources : List Source} {source : Source} :
    source ∈ sourcesOf language sources ↔ source ∈ sources ∧ source.language = language := by
  rw [sourcesOf, List.mem_filter, beq_iff_eq]

/-- A build gets to its end, or the run ends in one of its classes. -/
theorem run_cases (options : Options) (sources : List Source) :
    (∀ source ∈ sources, source.language = .jack -> ¬source.Aborts) ∧
        run options sources = .ok (reportOf options sources) ∨
      ∃ source ∈ sources, source.language = .jack ∧ ∃ abort,
        Jack.compile source.text = .error (.aborted abort) ∧ run options sources = .error abort := by
  unfold run
  rcases mapM_compileClass_cases (sourcesOf .jack sources) with
    ⟨goesOn, parts⟩ | ⟨source, member, abort, aborts, ended⟩
  · refine .inl ⟨fun source member language => goesOn source (mem_sourcesOf.mpr ⟨member, language⟩), ?_⟩
    rw [parts]
    rfl
  · obtain ⟨inside, language⟩ := mem_sourcesOf.mp member
    refine .inr ⟨source, inside, language, abort, aborts, ?_⟩
    rw [ended]
    rfl

/-- The run of a build ends if it ends in one of the classes. -/
theorem run_of_aborts (options : Options) {sources : List Source} {source : Source}
    (member : source ∈ sources) (language : source.language = .jack) (aborts : source.Aborts) :
    run options sources = .error .overflow := by
  rcases run_cases options sources with ⟨goesOn, -⟩ | ⟨-, -, -, abort, -, ended⟩
  · exact absurd aborts (goesOn source member language)
  · cases abort
    exact ended

/-- Without assembly sources a build ends with linking. -/
theorem reportOf_of_language {language : Dialect} (notAssembly : language ≠ .asm)
    {sources : List Source} (all : ∀ source ∈ sources, source.language = language)
    (options : Options) :
    reportOf options sources =
      .concat ((sources.map (if language = .jack then classPart else readFile)).map Part.report) ++
        linkParts options (sources.map (if language = .jack then classPart else readFile)) := by
  have noAssembly : (if options.target = .hack then
      Report.concat ((sourcesOf .asm sources).map assembleSource) else .empty) = .empty := by
    rw [sourcesOf_eq all, if_neg notAssembly]
    split <;> rfl
  unfold reportOf conclude
  dsimp only
  rw [noAssembly, append_empty, sourcesOf_eq all, sourcesOf_eq all]
  cases language with
  | jack => simp
  | vm => simp
  | asm => exact absurd rfl notAssembly

/-! ## Compiled classes -/

/-- A class source that compiles to commands whose numbers are in range. -/
def Source.CompilesInRange (source : Source) : Prop :=
  ∃ commands, Jack.compile source.text = .ok commands ∧
    ∀ command ∈ commands, ∀ number ∈ command.number?, number.toNat ≤ maxInteger

/-- The artifact that a build makes of a class: the text of its commands. -/
def Source.classArtifact (source : Source) : Artifact :=
  ⟨source.name, .vm,
    match Jack.compile source.text with
    | .ok commands => sourceText commands
    | .error _ => ""⟩

/-- An artifact of a class as a source of the stack language. -/
def Artifact.source (artifact : Artifact) : Source := ⟨artifact.name, .vm, artifact.text⟩

/-- The artifacts of classes among those of a report. -/
def Report.classArtifacts (report : Report) : List Artifact :=
  report.artifacts.filter fun artifact => artifact.kind == .vm

/-- All the other artifacts of a report. -/
def Report.linkedArtifacts (report : Report) : List Artifact :=
  report.artifacts.filter fun artifact => artifact.kind != .vm

theorem isWritable_of_compile {text : String} {commands : List Command}
    (compiled : Jack.compile text = .ok commands)
    (small : ∀ command ∈ commands, ∀ number ∈ command.number?, number.toNat ≤ maxInteger) :
    ∀ command ∈ commands, command.IsWritable :=
  fun command member => ⟨Jack.isNamed_of_compile compiled command member, small command member⟩

/-- A compiled class gives its artifact and nothing else to report. -/
theorem report_classPart {source : Source} (compiles : source.CompilesInRange) :
    (classPart source).report = ⟨[source.classArtifact], []⟩ := by
  obtain ⟨commands, compiled, -⟩ := compiles
  unfold classPart Source.classArtifact
  rw [compiled]
  rfl

/-- Reading the artifact of a class gives what compiling the class does, and nothing to report. -/
theorem readFile_classArtifact {source : Source} (compiles : source.CompilesInRange) :
    readFile source.classArtifact.source = ⟨.empty, (classPart source).file⟩ := by
  obtain ⟨commands, compiled, small⟩ := compiles
  have read := parse_sourceText (isWritable_of_compile compiled small) source.name
  unfold readFile Artifact.source Source.classArtifact classPart File.parse
  rw [compiled]
  dsimp only
  rw [read]
  rfl

section Classes

variable {sources : List Source}

/-- A build of classes puts out their artifacts and what the linker makes of them. -/
theorem run_classes (options : Options) (classes : ∀ source ∈ sources, source.language = .jack)
    (compile : ∀ source ∈ sources, source.CompilesInRange) :
    run options sources = .ok (⟨sources.map Source.classArtifact, []⟩ ++
      linkParts options (sources.map classPart)) := by
  have reports : (sources.map classPart).map Part.report =
      sources.map fun source => ⟨[source.classArtifact], []⟩ := by
    rw [List.map_map]
    exact List.map_congr_left fun source member => report_classPart (compile source member)
  have whole : Report.concat (sources.map fun source => ⟨[source.classArtifact], []⟩) =
      ⟨sources.map Source.classArtifact, []⟩ := by
    unfold Report.concat
    rw [List.flatMap_map, List.flatMap_map, List.map_eq_flatMap]
    simp
  rcases run_cases options sources with ⟨-, ran⟩ | ⟨source, member, -, abort, aborts, -⟩
  · rw [ran, reportOf_of_language (by decide) classes, if_pos rfl, reports, whole]
  · obtain ⟨commands, compiled, -⟩ := compile source member
    rw [compiled] at aborts
    cases aborts

/-- A build of the artifacts of classes puts out only what the linker makes of the classes. -/
theorem run_classArtifacts (options : Options) (compile : ∀ source ∈ sources, source.CompilesInRange) :
    run options ((sources.map Source.classArtifact).map Artifact.source) =
      .ok (linkParts options (sources.map classPart)) := by
  have read : ((sources.map Source.classArtifact).map Artifact.source).map readFile =
      sources.map fun source => ⟨.empty, (classPart source).file⟩ := by
    rw [List.map_map, List.map_map]
    apply List.map_congr_left
    intro source member
    rw [Function.comp_apply, Function.comp_apply, readFile_classArtifact (compile source member)]
  have files : (sources.map fun source => (⟨.empty, (classPart source).file⟩ : Part)).map Part.file =
      (sources.map classPart).map Part.file := by
    rw [List.map_map, List.map_map]
    rfl
  have language : ∀ source ∈ (sources.map Source.classArtifact).map Artifact.source,
      source.language = .vm := by
    intro source member
    obtain ⟨artifact, -, rfl⟩ := List.mem_map.mp member
    rfl
  have silent : Report.concat
      ((sources.map fun source => (⟨.empty, (classPart source).file⟩ : Part)).map Part.report) =
        .empty := by
    unfold Report.concat
    rw [List.map_map, List.flatMap_map, List.flatMap_map]
    simp [Report.empty]
  rcases run_cases options ((sources.map Source.classArtifact).map Artifact.source) with
    ⟨-, ran⟩ | ⟨source, member, isClass, -⟩
  · rw [ran, reportOf_of_language (by decide) language, if_neg (by decide), read, silent, empty_append,
      linkParts_congr options files]
  · rw [language source member] at isClass
    cases isClass

/-- Building classes, and building what the first build has put out for them, end with the same
linking: both builds get to their end, and the second one gives all artifacts of the first but those of
the classes, and has the same diagnostics. -/
theorem linking_written_classes (options : Options)
    (classes : ∀ source ∈ sources, source.language = .jack)
    (compile : ∀ source ∈ sources, source.CompilesInRange) :
    ∃ report linked, run options sources = .ok report ∧
      report.classArtifacts = sources.map Source.classArtifact ∧
      run options (report.classArtifacts.map Artifact.source) = .ok linked ∧
      linked.artifacts = report.linkedArtifacts ∧ linked.diagnostics = report.diagnostics := by
  have isLinked := isLinked_linkParts options (sources.map classPart)
  have isClass : ∀ artifact ∈ sources.map Source.classArtifact, artifact.kind = .vm := by
    intro artifact member
    obtain ⟨source, -, rfl⟩ := List.mem_map.mp member
    rfl
  let linked := linkParts options (sources.map classPart)
  let report : Report := ⟨sources.map Source.classArtifact, []⟩ ++ linked
  have written : report.classArtifacts = sources.map Source.classArtifact := by
    change List.filter _ (_ ++ _) = _
    rw [List.filter_append, List.filter_eq_self.mpr, List.filter_eq_nil_iff.mpr, List.append_nil]
    · exact fun artifact member => by simp [isLinked artifact member]
    · exact fun artifact member => by simp [isClass artifact member]
  have others : report.linkedArtifacts = linked.artifacts := by
    change List.filter _ (_ ++ _) = _
    rw [List.filter_append, List.filter_eq_nil_iff.mpr, List.filter_eq_self.mpr, List.nil_append]
    · exact fun artifact member => by simp [isLinked artifact member]
    · exact fun artifact member => by simp [isClass artifact member]
  refine ⟨report, linked, run_classes options classes compile, written, ?_, others.symm, rfl⟩
  rw [written]
  exact run_classArtifacts options compile

/-- The classes of shelves and boxes as the sources of a program. -/
def boxes : List Source := [
  ⟨"Shelf", .jack, String.join Jack.shelfText⟩,
  ⟨"Box", .jack, String.join Jack.boxText⟩]

theorem compilesInRange_of_spellsClass {text : List String} {name : String} {routines : List String}
    (spells : Jack.SpellsClass text name routines = true) :
    Source.CompilesInRange ⟨name, .jack, String.join text⟩ := by
  obtain ⟨compiled, -, isSource, -, -, -, small⟩ := Jack.exists_compiled name spells
  refine ⟨compiled.commands, ?_, small⟩
  rw [← isSource, Jack.compile_of_parse_ok compiled.parsed, compiled.compiles]

theorem linking_written_boxes :
    (∀ source ∈ boxes, source.language = .jack) ∧ (∀ source ∈ boxes, source.CompilesInRange) ∧
      ∃ report linked, run { annotate := true } boxes = .ok report ∧
        report.classArtifacts = boxes.map Source.classArtifact ∧
        run { annotate := true } (report.classArtifacts.map Artifact.source) = .ok linked ∧
        linked.artifacts = report.linkedArtifacts ∧ linked.diagnostics = report.diagnostics := by
  have classes : ∀ source ∈ boxes, source.language = .jack := by simp [boxes]
  have compile : ∀ source ∈ boxes, source.CompilesInRange :=
    List.forall_mem_cons.mpr ⟨compilesInRange_of_spellsClass Jack.spellsClass_shelf,
      List.forall_mem_singleton.mpr (compilesInRange_of_spellsClass Jack.spellsClass_box)⟩
  exact ⟨classes, compile, linking_written_classes { annotate := true } classes compile⟩

end Classes

end Build
end HackToolchain
