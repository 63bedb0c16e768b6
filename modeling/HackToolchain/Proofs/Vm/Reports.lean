import HackToolchain.Proofs.Vm.Faults

namespace HackToolchain
namespace Vm

/-!
# What a translation reports

A program that is not translated is answered by a list of errors.  Here it is said which errors these
are, without the set of symbols and without the running scope that the check keeps.

Five mistakes are seen at a command: an index outside a short segment, a pop to the constants, a call
with too many arguments, and a function or a label whose symbol stands in front of it already.  One is
seen only at the end of the program: a jump to a label that has no place anywhere.  Every mistake is
reported once, in the order of the commands, and the jumps come behind all others.

What a command belongs to is told by its own file: the last function begun there, no matter whether
another function of that name came before.
-/

/-- A mistake that is seen at a command, given the sites in front of it. -/
inductive Mistake (front : List Site) (site : Site) : Fault -> Prop where
  | temp {index : UInt16}
      (access : site.command = .push .temp index ∨ site.command = .pop .temp index)
      (outside : 8 ≤ index.toNat) : Mistake front site (.invalidIndex .temp index 8)
  | pointer {index : UInt16}
      (access : site.command = .push .pointer index ∨ site.command = .pop .pointer index)
      (outside : 2 ≤ index.toNat) : Mistake front site (.invalidIndex .pointer index 2)
  | popConstant {index : UInt16} (access : site.command = .pop .constant index) :
      Mistake front site .popConstant
  | tooManyArguments {name : String} {count : UInt16} (calls : site.command = .call name count)
      (outside : 32762 < count.toNat) : Mistake front site (.tooManyArguments count)
  | duplicateFunction {name : String} {locals : UInt16}
      (defines : site.command = .function name locals) (taken : name ∈ Site.definitions front) :
      Mistake front site (.duplicateLabel name)
  | duplicateLabel {label : String} (defines : site.command = .label label)
      (taken : site.scope.labelSymbol label ∈ Site.definitions front) :
      Mistake front site (.duplicateLabel (site.scope.labelSymbol label))

/-- A mistake that is seen at the end of a program with the given sites. -/
inductive Unreachable (sites : List Site) (site : Site) : Fault -> Prop where
  | undefinedLabel {label : String}
      (jumps : site.command = .goto label ∨ site.command = .ifGoto label)
      (missing : site.scope.labelSymbol label ∉ Site.definitions sites) :
      Unreachable sites site (.undefinedLabel label)

/-- A fault at a site of a program, with the sites in front of it. -/
structure Finding where
  front : List Site
  site : Site
  fault : Fault

namespace Finding

/-- One finding stands in front of another. -/
def Before (first second : Finding) : Prop := first.front.length < second.front.length

/-- A finding as it is reported: by the function or file that the site belongs to, and by its line. -/
def error (finding : Finding) : ProgramError :=
  .faulty finding.site.scope.context finding.site.line finding.fault

/-- The finding is about a site of the program. -/
def Inside (finding : Finding) (sites : List Site) : Prop :=
  ∃ back, sites = finding.front ++ finding.site :: back

end Finding

/-! ## Mistakes are found by looking at each site -/

section Search

variable {fault? : List Site -> Site -> Option Fault}

/-- What a search finds at sites that stand behind others. -/
def findings (fault? : List Site -> Site -> Option Fault) (front : List Site) :
    List Site -> List Finding
  | [] => []
  | site :: rest =>
    ((fault? front site).map (Finding.mk front site)).toList ++ findings fault? (front ++ [site]) rest

theorem mem_findings {front sites : List Site} {finding : Finding} :
    finding ∈ findings fault? front sites ↔
      (∃ middle back, sites = middle ++ finding.site :: back ∧ finding.front = front ++ middle) ∧
        fault? finding.front finding.site = some finding.fault := by
  induction sites generalizing front with
  | nil => simp [findings]
  | cons site rest inductionHypothesis =>
      have here : finding ∈ ((fault? front site).map (Finding.mk front site)).toList ↔
          (finding.site = site ∧ finding.front = front) ∧
            fault? finding.front finding.site = some finding.fault := by
        rw [Option.mem_toList, Option.map_eq_some_iff]
        constructor
        · rintro ⟨fault, found, rfl⟩
          exact ⟨⟨rfl, rfl⟩, found⟩
        · rintro ⟨⟨rfl, rfl⟩, found⟩
          exact ⟨finding.fault, found, rfl⟩
      rw [findings, List.mem_append, here, inductionHypothesis, ← or_and_right]
      refine and_congr_left fun _ => ?_
      constructor
      · rintro (⟨rfl, same⟩ | ⟨middle, back, rfl, same⟩)
        · exact ⟨[], rest, rfl, same.trans (List.append_nil front).symm⟩
        · exact ⟨site :: middle, back, rfl, same.trans (List.append_assoc ..)⟩
      · rintro ⟨middle, back, split, same⟩
        rcases middle with _ | ⟨first, middle⟩
        · exact .inl ⟨(List.cons.inj split).1.symm, same.trans (List.append_nil front)⟩
        · obtain ⟨rfl, tail⟩ := List.cons.inj split
          exact .inr ⟨middle, back, tail, same.trans (List.append_assoc front [site] middle).symm⟩

/-- Findings come in the order of the sites, one at most for each. -/
theorem pairwise_findings (front sites : List Site) :
    (findings fault? front sites).Pairwise Finding.Before := by
  induction sites generalizing front with
  | nil => exact .nil
  | cons site rest inductionHypothesis =>
      rw [findings]
      cases found : fault? front site with
      | none => exact inductionHypothesis _
      | some fault =>
          refine List.pairwise_cons.mpr ⟨fun later member => ?_, inductionHypothesis _⟩
          obtain ⟨⟨middle, back, -, same⟩, -⟩ := mem_findings.mp member
          unfold Finding.Before
          rw [same, List.length_append, List.length_append, List.length_singleton]
          exact Nat.lt_of_lt_of_le (Nat.lt_succ_self _) (Nat.le_add_right _ _)

/-- A search of a whole program finds exactly what is wrong with its sites. -/
theorem mem_findings_iff {wrong : List Site -> Site -> Fault -> Prop}
    (decides : ∀ front site fault, fault? front site = some fault ↔ wrong front site fault)
    {sites : List Site} {finding : Finding} :
    finding ∈ findings fault? [] sites ↔
      finding.Inside sites ∧ wrong finding.front finding.site finding.fault := by
  rw [mem_findings, decides]
  refine and_congr_left fun _ => ?_
  constructor
  · rintro ⟨middle, back, split, rfl⟩
    exact ⟨back, split⟩
  · rintro ⟨back, split⟩
    exact ⟨finding.front, back, split, rfl⟩

end Search

/-! ## The mistakes of a site -/

theorem Segment.fault?_eq_some_iff {segment : Segment} {index : UInt16} {fault : Fault} :
    segment.fault? index = some fault ↔
      segment = .temp ∧ 8 ≤ index.toNat ∧ fault = .invalidIndex .temp index 8 ∨
      segment = .pointer ∧ 2 ≤ index.toNat ∧ fault = .invalidIndex .pointer index 2 := by
  have outside (size : UInt16) : (if index < size then none
      else some (Fault.invalidIndex segment index size)) = some fault ↔
        size.toNat ≤ index.toNat ∧ fault = .invalidIndex segment index size := by
    rw [Option.ite_none_left_eq_some, UInt16.lt_iff_toNat_lt, Nat.not_lt, Option.some.injEq,
      eq_comm (b := fault)]
  unfold fault?
  cases segment <;> simp [size?, outside]

theorem Command.fault?_pop {segment : Segment} (notConstant : segment ≠ .constant) (index : UInt16) :
    (Command.pop segment index).fault? = segment.fault? index := by
  cases segment with
  | constant => exact absurd rfl notConstant
  | _ => rfl

namespace Site

/-- The mistake that is seen at a site. -/
def mistake? (front : List Site) (site : Site) : Option Fault :=
  match site.definition? with
  | some symbol => if symbol ∈ definitions front then some (.duplicateLabel symbol) else none
  | none => site.command.fault?

/-- The mistake of a jump that leads nowhere in a program. -/
def unreachable? (sites : List Site) (site : Site) : Option Fault :=
  match site.target? with
  | some label =>
    if site.scope.labelSymbol label ∈ definitions sites then none else some (.undefinedLabel label)
  | none => none

theorem mistake?_eq_some_iff (front : List Site) (site : Site) (fault : Fault) :
    mistake? front site = some fault ↔ Mistake front site fault := by
  constructor
  · intro found
    unfold mistake? at found
    cases command : site.command with
    | push segment index =>
        simp only [definition?, command, Command.fault?] at found
        rcases Segment.fault?_eq_some_iff.mp found with ⟨rfl, outside, rfl⟩ | ⟨rfl, outside, rfl⟩
        · exact .temp (.inl command) outside
        · exact .pointer (.inl command) outside
    | pop segment index =>
        simp only [definition?, command] at found
        by_cases constant : segment = .constant
        · subst constant
          cases found
          exact .popConstant command
        · rw [Command.fault?_pop constant] at found
          rcases Segment.fault?_eq_some_iff.mp found with ⟨rfl, outside, rfl⟩ | ⟨rfl, outside, rfl⟩
          · exact .temp (.inr command) outside
          · exact .pointer (.inr command) outside
    | call name count =>
        simp only [definition?, command, Command.fault?] at found
        obtain ⟨outside, ⟨⟩⟩ := Option.ite_none_left_eq_some.mp found
        exact .tooManyArguments command (Nat.lt_of_not_le outside)
    | function name locals =>
        simp only [definition?, command] at found
        obtain ⟨taken, ⟨⟩⟩ := Option.ite_none_right_eq_some.mp found
        exact .duplicateFunction command taken
    | label name =>
        simp only [definition?, command] at found
        obtain ⟨taken, ⟨⟩⟩ := Option.ite_none_right_eq_some.mp found
        exact .duplicateLabel command taken
    | _ =>
        simp only [definition?, command, Command.fault?] at found
        cases found
  · intro wrong
    unfold mistake?
    cases wrong with
    | temp access outside =>
        have fault := Segment.fault?_eq_some_iff.mpr (.inl ⟨rfl, outside, rfl⟩)
        rcases access with command | command
        · simpa only [definition?, command, Command.fault?] using fault
        · simpa only [definition?, command, Command.fault?] using fault
    | pointer access outside =>
        have fault := Segment.fault?_eq_some_iff.mpr (.inr ⟨rfl, outside, rfl⟩)
        rcases access with command | command
        · simpa only [definition?, command, Command.fault?] using fault
        · simpa only [definition?, command, Command.fault?] using fault
    | popConstant access => simp only [definition?, access, Command.fault?]
    | tooManyArguments calls outside =>
        simp only [definition?, calls, Command.fault?]
        exact if_neg (Nat.not_le_of_lt outside)
    | duplicateFunction defines taken =>
        simp only [definition?, defines]
        exact if_pos taken
    | duplicateLabel defines taken =>
        simp only [definition?, defines]
        exact if_pos taken

theorem unreachable?_eq_some_iff (sites : List Site) (site : Site) (fault : Fault) :
    site.unreachable? sites = some fault ↔ Unreachable sites site fault := by
  constructor
  · intro found
    unfold unreachable? at found
    cases command : site.command with
    | goto label =>
        simp only [target?, command] at found
        obtain ⟨missing, ⟨⟩⟩ := Option.ite_none_left_eq_some.mp found
        exact .undefinedLabel (.inl command) missing
    | ifGoto label =>
        simp only [target?, command] at found
        obtain ⟨missing, ⟨⟩⟩ := Option.ite_none_left_eq_some.mp found
        exact .undefinedLabel (.inr command) missing
    | _ =>
        simp only [target?, command] at found
        cases found
  · rintro ⟨command | command, missing⟩
    · simp only [unreachable?, target?, command]
      exact if_neg missing
    · simp only [unreachable?, target?, command]
      exact if_neg missing

/-! ## The check is a search -/

theorem mem_definitions_snoc {front : List Site} {site : Site} {symbol : String} :
    symbol ∈ definitions (front ++ [site]) ↔
      symbol ∈ definitions front ∨ site.definition? = some symbol := by
  rw [definitions_append, List.mem_append, definitions, definitions, List.mem_filterMap (l := [site])]
  simp only [List.mem_singleton, exists_eq_left]

/-- The check of sites behind others reports what a search finds there, if it knows the symbols of the
sites in front. -/
theorem check_found {defined : Std.TreeSet String} {front : List Site}
    (known : ∀ symbol, symbol ∈ defined ↔ symbol ∈ definitions front) (found : Array ProgramError)
    (sites : List Site) :
    (check defined found sites).1.toList =
      found.toList ++ (findings mistake? front sites).map Finding.error := by
  induction sites generalizing defined front found with
  | nil => exact (List.append_nil _).symm
  | cons site rest inductionHypothesis =>
      -- A fault is pushed, and the sites behind it are searched with one more site in front.
      have report {defined : Std.TreeSet String} {fault : Fault}
          (wrong : mistake? front site = some fault)
          (known : ∀ symbol, symbol ∈ defined ↔ symbol ∈ definitions (front ++ [site])) :
          (check defined (found.push (site.error fault)) rest).1.toList =
            found.toList ++ (findings mistake? front (site :: rest)).map Finding.error := by
        rw [inductionHypothesis known, Array.toList_push, List.append_assoc, findings, wrong]
        rfl
      have pass {defined : Std.TreeSet String} (right : mistake? front site = none)
          (known : ∀ symbol, symbol ∈ defined ↔ symbol ∈ definitions (front ++ [site])) :
          (check defined found rest).1.toList =
            found.toList ++ (findings mistake? front (site :: rest)).map Finding.error := by
        rw [inductionHypothesis known, findings, right]
        rfl
      unfold check
      cases defines : site.definition? with
      | some symbol =>
          have mistake : mistake? front site =
              if symbol ∈ definitions front then some (.duplicateLabel symbol) else none := by
            rw [mistake?, defines]
          dsimp only
          by_cases taken : symbol ∈ definitions front
          · rw [if_pos (Std.TreeSet.contains_iff_mem.mpr ((known symbol).mpr taken))]
            refine report (mistake.trans (if_pos taken)) fun other => ?_
            rw [known, mem_definitions_snoc, defines, Option.some.injEq]
            exact ⟨.inl, fun either => either.elim id fun same => same ▸ taken⟩
          · have unknown : ¬defined.contains symbol = true := fun contained =>
              taken ((known symbol).mp (Std.TreeSet.contains_iff_mem.mp contained))
            rw [if_neg unknown]
            refine pass (mistake.trans (if_neg taken)) fun other => ?_
            rw [Std.TreeSet.mem_insert, Std.LawfulEqCmp.compare_eq_iff_eq, known,
              mem_definitions_snoc, defines, Option.some.injEq, or_comm]
      | none =>
          have mistake : mistake? front site = site.command.fault? := by
            rw [mistake?, defines]
          have same (symbol : String) : symbol ∈ defined ↔ symbol ∈ definitions (front ++ [site]) := by
            rw [known, mem_definitions_snoc, defines]
            simp only [reduceCtorEq, or_false]
          cases fault : site.command.fault? with
          | some fault' => exact report (mistake.trans fault) same
          | none => exact pass (mistake.trans fault) same

/-- The check of the jumps is a search too, if it knows the symbols of the program. -/
theorem filterMap_undefinedTarget? {defined : Std.TreeSet String} {program : List Site}
    (known : ∀ symbol, symbol ∈ defined ↔ symbol ∈ definitions program) (front sites : List Site) :
    sites.filterMap (undefinedTarget? defined) =
      (findings (fun _ => unreachable? program) front sites).map Finding.error := by
  have same (site : Site) :
      undefinedTarget? defined site = (site.unreachable? program).map site.error := by
    unfold undefinedTarget? unreachable?
    cases site.target? with
    | none => rfl
    | some label =>
        simp only [Std.TreeSet.contains_iff_mem, known]
        split
        · rfl
        · rfl
  induction sites generalizing front with
  | nil => rfl
  | cons site rest inductionHypothesis =>
      rw [List.filterMap_cons, same, findings, List.map_append,
        ← inductionHypothesis (front ++ [site])]
      cases unreachable? program site with
      | none => rfl
      | some fault => rfl

/-- All that is wrong with a program is found at its sites. -/
theorem faults_eq (sites : List Site) :
    faults sites = (findings mistake? [] sites ++
      findings (fun _ => unreachable? sites) [] sites).map Finding.error := by
  have nothing (symbol : String) : symbol ∈ (∅ : Std.TreeSet String) ↔ symbol ∈ definitions [] := by
    simp [definitions]
  have found := check_found nothing #[] sites
  have known := mem_check ∅ #[] sites
  unfold faults
  rcases answer : check ∅ #[] sites with ⟨errors, defined⟩
  rw [answer] at found known
  dsimp only at found known ⊢
  have everything (symbol : String) : symbol ∈ defined ↔ symbol ∈ definitions sites := by
    rw [known]
    simp
  rw [found, filterMap_undefinedTarget? everything [] sites, List.map_append]
  rfl

end Site

/-! ## Where a command belongs -/

/-- The function that a command begins. -/
def Command.function? : Command -> Option String
  | .function name _ => some name
  | _ => none

/-- The function begun last by some commands. -/
def lastFunction? (commands : List (Located Command)) : Option String :=
  (commands.filterMap fun entry => entry.item.function?).getLast?

/-- What the command at an index of a file belongs to: the function begun last, by that command or in
front of it, or else the file. -/
def File.contextAt (file : File) (index : Nat) : String :=
  (lastFunction? (file.commands.take (index + 1))).getD file.name

theorem enter_lastFunction? (name : String) (front : List (Located Command)) (entry : Located Command) :
    (Scope.mk name (lastFunction? front)).enter entry.item =
      ⟨name, lastFunction? (front ++ [entry])⟩ := by
  unfold lastFunction?
  rw [List.filterMap_append]
  cases command : entry.item with
  | function function locals =>
      rw [List.filterMap_cons_some (b := function) (by rw [command]; rfl), List.filterMap_nil,
        List.getLast?_concat]
      rfl
  | _ =>
      rw [List.filterMap_cons_none (by rw [command]; rfl), List.filterMap_nil, List.append_nil]
      rfl

theorem ofCommands_eq_mapIdx (file : File) {front back : List (Located Command)}
    (split : file.commands = front ++ back) :
    Site.ofCommands ⟨file.name, lastFunction? front⟩ back =
      back.mapIdx fun index entry =>
        ⟨⟨file.name, lastFunction? (file.commands.take (front.length + index))⟩, entry.item,
          entry.line⟩ := by
  induction back generalizing front with
  | nil => rfl
  | cons entry rest inductionHypothesis =>
      have later := @inductionHypothesis (front ++ [entry]) (by rw [split, List.append_assoc]; rfl)
      have taken : file.commands.take front.length = front := by rw [split, List.take_left]
      rw [Site.ofCommands, enter_lastFunction?, later, List.mapIdx_cons, Nat.add_zero, taken,
        List.length_append, List.length_singleton]
      simp only [Nat.add_assoc, Nat.add_comm 1]

/-- The scope of the command at an index of a file. -/
def File.scopeAt (file : File) (index : Nat) : Scope :=
  ⟨file.name, lastFunction? (file.commands.take (index + 1))⟩

/-- The site at an index of a file is the command there with its line, and stands in its scope. -/
theorem getElem?_ofFile {file : File} {index : Nat} {site : Site}
    (found : (Site.ofFile file)[index]? = some site) :
    ∃ entry, file.commands[index]? = some entry ∧ site.command = entry.item ∧
      site.line = entry.line ∧ site.scope = file.scopeAt index := by
  rw [Site.ofFile, Scope.ofFile, show none = lastFunction? [] from rfl,
    ofCommands_eq_mapIdx file (List.nil_append file.commands).symm, List.getElem?_mapIdx,
    Option.map_eq_some_iff] at found
  rcases found with ⟨entry, known, rfl⟩
  refine ⟨entry, known, rfl, rfl, ?_⟩
  rw [Site.scope, List.length_nil, Nat.zero_add, enter_lastFunction?, File.scopeAt,
    List.take_add_one, known]
  rfl

theorem length_ofCommands (scope : Scope) (commands : List (Located Command)) :
    (Site.ofCommands scope commands).length = commands.length := by
  induction commands generalizing scope with
  | nil => rfl
  | cons entry rest inductionHypothesis => exact congrArg (· + 1) (inductionHypothesis _)

/-- The sites of a file are its commands, each with its line and with what it belongs to. -/
theorem map_ofFile (file : File) :
    (Site.ofFile file).map (fun site => (site.command, site.line, site.scope.context)) =
      file.commands.mapIdx fun index entry => (entry.item, entry.line, file.contextAt index) := by
  have lengths := length_ofCommands (.ofFile file.name) file.commands
  apply List.ext_getElem
  · rw [List.length_map, List.length_mapIdx]
    exact lengths
  · intro index within _
    rw [List.length_map] at within
    rcases getElem?_ofFile (List.getElem?_eq_getElem within) with ⟨entry, known, command, line, scope⟩
    rcases List.getElem?_eq_some_iff.mp known with ⟨_, rfl⟩
    rw [List.getElem_map, List.getElem_mapIdx, command, line, scope]
    rfl

/-! ## The report -/

/-- A translation reports exactly what is wrong with the program.  There are mistakes found at the
commands and jumps found to lead nowhere, each in the order of the sites, and none is left out or made
up.  Whatever the options are, the program is translated if there are none of both, and is answered
by the mistakes and then the jumps if there are any.  The sites are the commands of the files in
order, with their lines and the functions or files that they belong to. -/
theorem translation_reports (files : List File) :
    ∃ mistakes unreachable : List Finding,
      (∀ options, translate options files =
        if mistakes ++ unreachable = [] then .ok (listing options (Site.ofFiles files))
        else .error ((mistakes ++ unreachable).map Finding.error)) ∧
      (∀ finding, finding ∈ mistakes ↔ finding.Inside (Site.ofFiles files) ∧
        Mistake finding.front finding.site finding.fault) ∧
      (∀ finding, finding ∈ unreachable ↔ finding.Inside (Site.ofFiles files) ∧
        Unreachable (Site.ofFiles files) finding.site finding.fault) ∧
      mistakes.Pairwise Finding.Before ∧ unreachable.Pairwise Finding.Before ∧
      (Site.ofFiles files).map (fun site => (site.command, site.line, site.scope.context)) =
        files.flatMap fun file => file.commands.mapIdx fun index entry =>
          (entry.item, entry.line, file.contextAt index) := by
  let sites := Site.ofFiles files
  refine ⟨findings Site.mistake? [] sites, findings (fun _ => Site.unreachable? sites) [] sites,
    fun options => ?_, fun finding => mem_findings_iff Site.mistake?_eq_some_iff,
    fun finding => mem_findings_iff fun _ => Site.unreachable?_eq_some_iff sites,
    pairwise_findings [] sites, pairwise_findings [] sites, ?_⟩
  · unfold translate
    dsimp only
    rw [Site.faults_eq]
    cases findings Site.mistake? [] sites ++ findings (fun _ => Site.unreachable? sites) [] sites with
    | nil => rfl
    | cons finding rest => rfl
  · rw [Site.ofFiles, List.map_flatMap]
    exact congrArg (List.flatMap · files) (funext map_ofFile)

end Vm
end HackToolchain
