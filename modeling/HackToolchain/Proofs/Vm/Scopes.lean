import Mathlib.Data.List.Pairwise
import HackToolchain.Proofs.Vm.Reports
import HackToolchain.Proofs.Vm.Symbols

namespace HackToolchain
namespace Vm

open Hack

/-!
# Where jumps lead

A jump and a label find each other by their symbols.  A symbol begins with the name of the function that
the command stands in, or with the name of the file in front of all functions.  No name that is read
holds a dollar sign, and a function begins only once in a program.  So a symbol tells which function it
belongs to, and a jump does not leave the stretch of its file in which no function begins.

The names of files and of functions are not kept apart from each other.  A function that is named like a
file shares its labels with the front of that file, and nothing else is shared.
-/

/-! ## Stretches of a file -/

namespace File

/-- The function that the command at an index begins. -/
def function? (file : File) (index : Nat) : Option String :=
  file.commands[index]?.bind fun entry => entry.item.function?

/-- No function begins from the first index on up to the last, which is left out. -/
def NoneBegins (file : File) (first last : Nat) : Prop :=
  ∀ index, first ≤ index -> index < last -> file.function? index = none

/-- The command stands in front of all functions. -/
def IsFront (file : File) (index : Nat) : Prop := file.NoneBegins 0 (index + 1)

/-- The command stands in the body of a function: the function begins there or in front of it, and no
other begins between them. -/
def IsBody (file : File) (function : String) (index : Nat) : Prop :=
  ∃ start ≤ index, file.function? start = some function ∧ file.NoneBegins (start + 1) (index + 1)

/-- No function begins behind one of two commands up to the other. -/
def SameStretch (file : File) (index position : Nat) : Prop :=
  file.NoneBegins (min index position + 1) (max index position + 1)

theorem lastFunction?_take_succ (file : File) (count : Nat) :
    lastFunction? (file.commands.take (count + 1)) =
      (file.function? count).or (lastFunction? (file.commands.take count)) := by
  unfold lastFunction? function?
  rw [List.take_add_one, List.filterMap_append, List.getLast?_append]
  cases file.commands[count]? with
  | none => rfl
  | some entry =>
      rw [Option.toList_some, List.filterMap_cons, Option.bind_some]
      cases entry.item.function? with
      | none => rfl
      | some function => rfl

/-- The function begun last by the first commands is the one whose body goes on up to their end. -/
theorem lastFunction?_take_cases (file : File) (count : Nat) :
    match lastFunction? (file.commands.take count) with
    | none => file.NoneBegins 0 count
    | some function => ∃ start < count, file.function? start = some function ∧
        file.NoneBegins (start + 1) count := by
  induction count with
  | zero => exact fun index _ within => absurd within (Nat.not_lt_zero index)
  | succ count inductionHypothesis =>
      rw [lastFunction?_take_succ]
      cases begins : file.function? count with
      | some function =>
          refine ⟨count, Nat.lt_add_one count, begins, ?_⟩
          intro index above within
          omega
      | none =>
          have longer {first : Nat} (before : file.NoneBegins first count) :
              file.NoneBegins first (count + 1) := by
            intro index above within
            rcases Nat.lt_succ_iff_lt_or_eq.mp within with within | rfl
            · exact before index above within
            · exact begins
          rw [Option.none_or]
          cases last : lastFunction? (file.commands.take count) with
          | none =>
              rw [last] at inductionHypothesis
              exact longer inductionHypothesis
          | some function =>
              rw [last] at inductionHypothesis
              rcases inductionHypothesis with ⟨start, within, begun, before⟩
              exact ⟨start, Nat.lt_add_right 1 within, begun, longer before⟩

/-- A command's scope tells whether it stands in front of all functions, or else in whose body. -/
theorem scopeAt_cases (file : File) (index : Nat) :
    (file.IsFront index ∧ (file.scopeAt index).context = file.name) ∨
      ∃ function, file.IsBody function index ∧ (file.scopeAt index).context = function := by
  have last := file.lastFunction?_take_cases (index + 1)
  unfold scopeAt Scope.context
  cases known : lastFunction? (file.commands.take (index + 1)) with
  | none =>
      rw [known] at last
      exact .inl ⟨last, rfl⟩
  | some function =>
      rw [known] at last
      rcases last with ⟨start, within, begun, before⟩
      exact .inr ⟨function, ⟨start, Nat.le_of_lt_succ within, begun, before⟩, rfl⟩

/-- Two commands belong together if no function begins from one index up to each of them. -/
theorem SameStretch.of_noneBegins {file : File} {first index position : Nat}
    (below : first ≤ index + 1) (belowOther : first ≤ position + 1)
    (none : file.NoneBegins first (index + 1)) (noneOther : file.NoneBegins first (position + 1)) :
    file.SameStretch index position := by
  intro between above within
  have behind : first ≤ between := by omega
  rcases Nat.le_total index position with order | order
  · rw [Nat.max_eq_right order] at within
    exact noneOther between behind within
  · rw [Nat.max_eq_left order] at within
    exact none between behind within

/-- A command that begins a function is found among the commands, and at its site. -/
theorem exists_site {file : File} {index : Nat} {function : String}
    (begins : file.function? index = some function) :
    ∃ entry ∈ file.commands, ∃ site locals, entry.item = .function function locals ∧
      (Site.ofFile file)[index]? = some site ∧ site.command = .function function locals := by
  rcases Option.bind_eq_some_iff.mp begins with ⟨entry, known, begins⟩
  rcases List.getElem?_eq_some_iff.mp known with ⟨within, -⟩
  rw [← length_ofCommands (.ofFile file.name) file.commands] at within
  have found := List.getElem?_eq_getElem within
  rcases getElem?_ofFile found with ⟨other, same, command, -, -⟩
  rw [known] at same
  cases same
  cases item : entry.item with
  | function name locals =>
      rw [item] at begins command
      cases begins
      exact ⟨entry, List.mem_of_getElem? known, _, locals, item, found, command⟩
  | _ =>
      rw [item] at begins
      cases begins

theorem IsBody.begins {files : List File} {file : File} {function : String} {index : Nat}
    (inside : file ∈ files) (body : file.IsBody function index) :
    Begins (Site.ofFiles files) function := by
  rcases body with ⟨start, -, begins, -⟩
  rcases exists_site begins with ⟨-, -, site, locals, -, found, command⟩
  exact ⟨site, List.mem_flatMap.mpr ⟨file, inside, List.mem_of_getElem? found⟩, locals, command⟩

end File

/-! ## Definitions and their places -/

/-- A symbol is defined at one place in a program. -/
theorem place_of_definition {files : List File}
    (distinct : (Site.definitions (Site.ofFiles files)).Nodup) {file other : File}
    (inside : file ∈ files) (among : other ∈ files) {index position : Nat} {site place : Site}
    (found : (Site.ofFile file)[index]? = some site)
    (here : (Site.ofFile other)[position]? = some place) {symbol : String}
    (defines : site.definition? = some symbol) (definesToo : place.definition? = some symbol) :
    file = other ∧ index = position := by
  unfold Site.definitions Site.ofFiles at distinct
  rw [List.filterMap_flatMap, List.nodup_flatMap] at distinct
  rcases distinct with ⟨inFile, apart⟩
  have sameFile : file = other := by
    have symmetric : Std.Symm
        (Function.onFun List.Disjoint fun file => (Site.ofFile file).filterMap Site.definition?) :=
      ⟨fun _ _ disjoint => disjoint.symm⟩
    by_contra different
    have disjoint := apart.forall inside among different
    have defined := List.mem_filterMap.mpr ⟨site, List.mem_of_getElem? found, defines⟩
    exact disjoint defined (List.mem_filterMap.mpr ⟨place, List.mem_of_getElem? here, definesToo⟩)
  subst sameFile
  refine ⟨rfl, ?_⟩
  have different := List.pairwise_iff_getElem.mp (List.pairwise_filterMap.mp (inFile file inside))
  rcases List.getElem?_eq_some_iff.mp found with ⟨within, rfl⟩
  rcases List.getElem?_eq_some_iff.mp here with ⟨withinToo, rfl⟩
  rcases Nat.lt_trichotomy index position with before | same | behind
  · exact absurd rfl (different _ _ within withinToo before symbol defines symbol definesToo)
  · exact same
  · exact absurd rfl (different _ _ withinToo within behind symbol definesToo symbol defines)

/-- A function begins at one place in a program. -/
theorem place_of_function {files : List File}
    (distinct : (Site.definitions (Site.ofFiles files)).Nodup) {file other : File}
    (inside : file ∈ files) (among : other ∈ files) {start otherStart : Nat} {function : String}
    (begins : file.function? start = some function)
    (beginsToo : other.function? otherStart = some function) : file = other ∧ start = otherStart := by
  rcases File.exists_site begins with ⟨-, -, site, locals, -, found, command⟩
  rcases File.exists_site beginsToo with ⟨-, -, place, otherLocals, -, here, otherCommand⟩
  apply place_of_definition distinct inside among found here
  · rw [Site.definition?, command]
  · rw [Site.definition?, otherCommand]

/-! ## Names of scopes -/

/-- The label of a dollar-free context can be read off its symbol. -/
theorem Scope.labelSymbol_inj {scope other : Scope} {label otherLabel : String}
    (plain : '$' ∉ scope.context.toList) (otherPlain : '$' ∉ other.context.toList)
    (same : scope.labelSymbol label = other.labelSymbol otherLabel) :
    scope.context = other.context ∧ label = otherLabel := by
  have characters := congrArg String.toList same
  simp only [Scope.labelSymbol, String.toList_append, List.append_assoc] at characters
  rcases cons_append_inj plain otherPlain characters with ⟨contexts, labels⟩
  exact ⟨String.toList_inj.mp contexts, String.toList_inj.mp labels⟩

theorem names_of_readFiles {sources : List (String × String)} {files : List File}
    (read : readFiles sources = .ok files) : files.map File.name = sources.map Prod.fst := by
  induction sources generalizing files with
  | nil =>
      cases read
      rfl
  | cons source rest inductionHypothesis =>
      obtain ⟨commands, others, -, readRest, rfl⟩ := parts_of_readFiles_cons read
      rw [List.map_cons, List.map_cons, inductionHypothesis readRest]

/-- The name of a scope is that of a file or a name that was read, and holds no dollar sign. -/
theorem context_noDollar {sources : List (String × String)} {files : List File}
    (named : ∀ source ∈ sources, '$' ∉ source.1.toList) (read : readFiles sources = .ok files)
    {file : File} (inside : file ∈ files) (index : Nat) :
    '$' ∉ (file.scopeAt index).context.toList := by
  rcases isReadable_of_readFiles read file inside with ⟨given, readable⟩
  rcases file.scopeAt_cases index with ⟨-, context⟩ | ⟨function, ⟨start, -, begins, -⟩, context⟩
  · rcases List.mem_map.mp given with ⟨source, among, same⟩
    rw [context, ← same]
    exact named source among
  · rcases File.exists_site begins with ⟨entry, known, -, locals, command, -⟩
    rw [context]
    apply IsPlain.noDollar
    apply isPlain_of_isName
    apply (readable entry known).named
    rw [command, Command.name?]

/-! ## Jumps -/

/-- Where the label of a jump can stand: in the same stretch of the same file, or else one of them in
front of all functions of its file and the other in a function that is named like that file. -/
inductive Leads (file : File) (index : Nat) (other : File) (position : Nat) : Prop where
  | stays (same : other = file) (stretch : file.SameStretch index position)
  | enters (front : file.IsFront index) (body : other.IsBody file.name position)
  | leaves (body : file.IsBody other.name index) (front : other.IsFront position)

/-- Two commands whose scopes have the same name. -/
theorem leads_of_context {files : List File}
    (distinct : (Site.definitions (Site.ofFiles files)).Nodup)
    (distinctFiles : (files.map File.name).Nodup) {file other : File} (inside : file ∈ files)
    (among : other ∈ files) {index position : Nat}
    (same : (other.scopeAt position).context = (file.scopeAt index).context) :
    Leads file index other position := by
  rcases file.scopeAt_cases index with ⟨front, context⟩ | ⟨function, body, context⟩
  · rcases other.scopeAt_cases position with ⟨otherFront, otherContext⟩ | ⟨_, otherBody, otherContext⟩
    · rw [context, otherContext] at same
      cases List.inj_on_of_nodup_map distinctFiles among inside same
      exact .stays rfl (.of_noneBegins (Nat.zero_le _) (Nat.zero_le _) front otherFront)
    · rw [context, otherContext] at same
      exact .enters front (same ▸ otherBody)
  · rcases other.scopeAt_cases position with ⟨otherFront, otherContext⟩ | ⟨_, otherBody, otherContext⟩
    · rw [context, otherContext] at same
      exact .leaves (same ▸ body) otherFront
    · rw [context, otherContext] at same
      subst same
      rcases body with ⟨start, below, begins, between⟩
      rcases otherBody with ⟨otherStart, belowOther, beginsToo, betweenToo⟩
      rcases place_of_function distinct inside among begins beginsToo with ⟨rfl, rfl⟩
      exact .stays rfl (.of_noneBegins (Nat.succ_le_succ below) (Nat.succ_le_succ belowOther) between
        betweenToo)

/-- Without functions that are named like files, nothing leads out of a stretch. -/
theorem Leads.sameStretch {files : List File} {file other : File} {index position : Nat}
    (leads : Leads file index other position) (inside : file ∈ files) (among : other ∈ files)
    (free : ∀ file ∈ files, ¬Begins (Site.ofFiles files) file.name) :
    other = file ∧ file.SameStretch index position := by
  cases leads with
  | stays same stretch => exact ⟨same, stretch⟩
  | enters _ body => exact absurd (body.begins among) (free file inside)
  | leaves body _ => exact absurd (body.begins inside) (free other among)

/-- Take sources that are translated, whose files have different plain names.  Every jump has the symbol
of a label command.  It stands in the stretch of the jump: in the same file, with no function beginning
between them.  The only way out leads between the front of a file and a function that is named like this
file, and there is none if no function is named like a file. -/
theorem jumps_stay_in_scope {options : Options} {sources : List (String × String)}
    {files : List File} {code : Listing}
    (named : ∀ source ∈ sources, source.1 ≠ "" ∧ '$' ∉ source.1.toList)
    (distinct : (sources.map Prod.fst).Nodup) (read : readFiles sources = .ok files)
    (translated : translateSources options sources = .ok code) :
    ∀ file ∈ files, ∀ index site label, (Site.ofFile file)[index]? = some site ->
      site.target? = some label ->
      ∃ other ∈ files, ∃ position place, (Site.ofFile other)[position]? = some place ∧
        place.command = .label label ∧
        place.scope.labelSymbol label = site.scope.labelSymbol label ∧
        Leads file index other position ∧
        ((∀ file ∈ files, ¬Begins (Site.ofFiles files) file.name) ->
          other = file ∧ file.SameStretch index position) := by
  intro file inside index site label found jumps
  rcases translate_eq_ok.mp (translateSources_ok read translated) with ⟨faultless, -⟩
  have noDollar {file : File} (inside : file ∈ files) (index : Nat) :=
    context_noDollar (fun source given => (named source given).2) read inside index
  have member : site ∈ Site.ofFiles files :=
    List.mem_flatMap.mpr ⟨file, inside, List.mem_of_getElem? found⟩
  rcases List.mem_filterMap.mp (faultless.reaches site member label jumps) with
    ⟨place, placeMember, defines⟩
  rcases List.mem_flatMap.mp placeMember with ⟨other, among, placeMember⟩
  rcases List.getElem?_of_mem placeMember with ⟨position, here⟩
  rcases getElem?_ofFile found with ⟨-, -, -, -, scope⟩
  rcases getElem?_ofFile here with ⟨entry, known, command, -, otherScope⟩
  unfold Site.definition? at defines
  cases placeCommand : place.command with
  | label name =>
      rw [placeCommand] at defines
      have symbols := Option.some.inj defines
      rw [scope, otherScope] at symbols
      rcases Scope.labelSymbol_inj (noDollar among position) (noDollar inside index) symbols with
        ⟨contexts, rfl⟩
      rw [← names_of_readFiles read] at distinct
      have leads := leads_of_context faultless.distinct distinct inside among contexts
      rw [← scope, ← otherScope] at symbols
      exact ⟨other, among, position, place, here, placeCommand, symbols, leads,
        leads.sameStretch inside among⟩
  | function name locals =>
      -- the name of a function was read and holds no dollar sign, while the jump's symbol does
      rw [placeCommand] at defines command
      cases defines
      have isName := ((isReadable_of_readFiles read other among).2 entry
        (List.mem_of_getElem? known)).named _ (by rw [← command]; rfl)
      apply absurd _ (isPlain_of_isName isName).noDollar
      simp [Scope.labelSymbol]
  | _ =>
      rw [placeCommand] at defines
      cases defines

/-- Two functions of one file with labels of the same name.  The jump stays in its function. -/
theorem jump_stays_in_first_function :
    let source := "function A.f 0\nlabel L\ngoto L\nfunction A.g 0\nlabel L\n"
    let file : File := ⟨"A", [⟨.function "A.f" 0, 1⟩, ⟨.label "L", 2⟩, ⟨.goto "L", 3⟩,
      ⟨.function "A.g" 0, 4⟩, ⟨.label "L", 5⟩]⟩
    readFiles [("A", source)] = .ok [file] ∧
      translateSources {} [("A", source)] = .ok (listing {} (Site.ofFile file)) ∧
      ∃ position place, (Site.ofFile file)[position]? = some place ∧ place.command = .label "L" ∧
        file.SameStretch 2 position := by
  intro source file
  have read : readFiles [("A", source)] = .ok [file] := by decide +kernel
  have translated : translateSources {} [("A", source)] = .ok (listing {} (Site.ofFile file)) := by
    decide +kernel
  refine ⟨read, translated, ?_⟩
  have found : (Site.ofFile file)[2]? = some ⟨⟨"A", some "A.f"⟩, .goto "L", 3⟩ := rfl
  rcases jumps_stay_in_scope (by decide) (by decide) read translated file List.mem_cons_self 2 _ "L"
    found rfl with ⟨other, -, position, place, here, command, -, -, stays⟩
  have free : ∀ other ∈ [file], ¬Begins (Site.ofFiles [file]) other.name := by
    intro other member
    rw [List.mem_singleton.mp member]
    rintro ⟨site, inside, locals, begins⟩
    have different : ∀ site ∈ Site.ofFiles [file], site.command.function? ≠ some "A" := by decide
    apply different site inside
    rw [begins]
    rfl
  rcases stays free with ⟨rfl, stretch⟩
  exact ⟨position, place, here, command, stretch⟩

/-- A jump in front of all functions goes to a label in a function that is named like the file, and no
label in the front of the file has its symbol. -/
theorem jump_into_function_named_like_file :
    let source := "goto L\nfunction A 0\nlabel L\n"
    let file : File := ⟨"A", [⟨.goto "L", 1⟩, ⟨.function "A" 0, 2⟩, ⟨.label "L", 3⟩]⟩
    let site : Site := ⟨.ofFile "A", .goto "L", 1⟩
    readFiles [("A", source)] = .ok [file] ∧
      translateSources {} [("A", source)] = .ok (listing {} (Site.ofFile file)) ∧
      (Site.ofFile file)[0]? = some site ∧ site.target? = some "L" ∧
      ∀ position place, (Site.ofFile file)[position]? = some place ->
        place.definition? = some (site.scope.labelSymbol "L") -> ¬file.SameStretch 0 position := by
  intro source file site
  refine ⟨by decide +kernel, by decide +kernel, rfl, rfl, ?_⟩
  intro position place here defines stretch
  have begins : file.function? 1 = some "A" := rfl
  have behind : 2 ≤ position := by
    match position with
    | 0 =>
        cases here
        cases defines
    | 1 =>
        cases here
        exact absurd defines (by decide)
    | position + 2 => exact Nat.le_add_left 2 position
  rw [stretch 1 (by omega) (by omega)] at begins
  cases begins

end Vm
end HackToolchain
