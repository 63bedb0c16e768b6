import Mathlib.Data.List.Nodup
import Mathlib.Data.List.TakeWhile
import HackToolchain.Proofs.Vm.Depth
import HackToolchain.Proofs.Vm.Faults

namespace HackToolchain
namespace Vm

/-!
# Linking functions

A program is often a sequence of functions, in as many files as one likes.  Whether it can be
translated is then a question about each function by itself, except for one condition: the functions
need different names.  Labels need not differ between functions, since every label carries the name of
its function in front of a dollar sign, and the name of a function holds none.

Neither the names of the files nor the translator's options matter, because no command stands in front
of the first function of a file.
-/

/-! ## Functions -/

/-- A command that may stand inside a function: it is not faulty in itself, and begins no function. -/
structure IsInner (command : Command) : Prop where
  valid : command.fault? = none
  noFunction : ∀ name locals, command ≠ .function name locals

/-- All commands may stand inside a function. -/
def AllInner (code : List Command) : Prop := ∀ command ∈ code, IsInner command

theorem AllInner.nil : AllInner [] := nofun

theorem AllInner.cons {command : Command} {rest : List Command} (first : IsInner command)
    (behind : AllInner rest) : AllInner (command :: rest) :=
  List.forall_mem_cons.mpr ⟨first, behind⟩

theorem AllInner.append {first second : List Command} (before : AllInner first)
    (behind : AllInner second) : AllInner (first ++ second) :=
  List.forall_mem_append.mpr ⟨before, behind⟩

/-- A function: its name, the number of its local variables and the commands behind its entry. -/
structure Function where
  name : String
  locals : UInt16
  body : List Command

namespace Function

/-- The commands of a function, its entry first. -/
def commands (function : Function) : List Command :=
  .function function.name function.locals :: function.body

/-- The symbols that a function defines: its name and those of its labels. -/
def symbols (function : Function) : List String :=
  function.name :: (definedLabels function.body).map fun label => function.name ++ "$" ++ label

/-- A function that can be translated in any file. -/
structure IsSound (function : Function) : Prop where
  plain : '$' ∉ function.name.toList
  inner : AllInner function.body
  distinct : (definedLabels function.body).Nodup
  closed : ∀ target ∈ jumpTargets function.body, target ∈ definedLabels function.body

/-- What stands in front of the first dollar sign of a symbol is the name of its function. -/
theorem IsSound.owner {function : Function} (sound : function.IsSound) {symbol : String}
    (member : symbol ∈ function.symbols) :
    symbol.toList.takeWhile (· ≠ '$') = function.name.toList := by
  have noDollar : ∀ character ∈ function.name.toList, decide (character ≠ '$') = true := by
    intro character inside
    rw [decide_eq_true_eq]
    intro same
    exact sound.plain (same ▸ inside)
  rcases List.mem_cons.mp member with rfl | label
  · exact List.takeWhile_eq_self_iff.mpr noDollar
  · obtain ⟨label, -, rfl⟩ := List.mem_map.mp label
    rw [String.toList_append, String.toList_append, List.append_assoc,
      List.takeWhile_append_of_pos noDollar]
    exact List.append_nil _

/-- The symbols of a function are all different. -/
theorem IsSound.nodup_symbols {function : Function} (sound : function.IsSound) :
    function.symbols.Nodup := by
  rw [symbols, List.nodup_cons]
  constructor
  · intro member
    obtain ⟨label, -, same⟩ := List.mem_map.mp member
    apply sound.plain
    rw [← same]
    simp
  · apply sound.distinct.map
    intro first second same
    exact (String.append_right_inj _).mp same

/-- Functions with different names define different symbols. -/
theorem nodup_flatMap_symbols {functions : List Function}
    (sound : ∀ function ∈ functions, function.IsSound)
    (distinct : (functions.map name).Nodup) : (functions.flatMap symbols).Nodup := by
  rw [List.nodup_flatMap]
  constructor
  · exact fun function member => (sound function member).nodup_symbols
  · apply (List.pairwise_map.mp distinct).imp_of_mem
    intro first second inFirst inSecond different symbol ofFirst ofSecond
    apply different
    apply String.toList_inj.mp
    rw [← (sound first inFirst).owner ofFirst, (sound second inSecond).owner ofSecond]

end Function

/-! ## Sites of functions -/

theorem ofCommands_append (scope : Scope) (first second : List (Located Command)) :
    Site.ofCommands scope (first ++ second) = Site.ofCommands scope first ++
      Site.ofCommands (first.foldl (fun scope entry => scope.enter entry.item) scope) second := by
  induction first generalizing scope with
  | nil => rfl
  | cons entry rest inductionHypothesis =>
      rw [List.cons_append, Site.ofCommands, Site.ofCommands, inductionHypothesis,
        List.cons_append]
      rfl

/-- Commands inside a function stay in its scope and define its labels. -/
theorem sites_of_inner (scope : Scope) {entries : List (Located Command)}
    (inner : AllInner (entries.map Located.item)) :
    Site.definitions (Site.ofCommands scope entries) =
        (definedLabels (entries.map Located.item)).map scope.labelSymbol ∧
      ∀ site ∈ Site.ofCommands scope entries,
        site.scope = scope ∧ site.command ∈ entries.map Located.item := by
  induction entries with
  | nil => exact ⟨rfl, nofun⟩
  | cons entry rest inductionHypothesis =>
      obtain ⟨first, later⟩ := List.forall_mem_cons.mp inner
      obtain ⟨definitions, sites⟩ := inductionHypothesis later
      have stays : scope.enter entry.item = scope := by
        cases command : entry.item with
        | function name locals => exact absurd command (first.noFunction name locals)
        | _ => rfl
      rw [Site.ofCommands, stays]
      constructor
      · cases command : entry.item with
        | function name locals => exact absurd command (first.noFunction name locals)
        | label name =>
            rw [Site.definitions_cons_of_some _ rfl, definitions, List.map_cons, command]
            rfl
        | _ =>
            rw [Site.definitions_cons_of_none _ rfl, definitions, List.map_cons, command]
            rfl
      · intro site member
        rcases List.mem_cons.mp member with rfl | behind
        · exact ⟨stays, List.mem_cons_self⟩
        · obtain ⟨sameScope, inside⟩ := sites site behind
          exact ⟨sameScope, List.mem_cons_of_mem _ inside⟩

/-- A site of a function has no fault, and jumps only to a symbol of the function. -/
structure Site.IsSettled (site : Site) (function : Function) : Prop where
  valid : site.command.fault? = none
  reaches : ∀ label, site.target? = some label -> site.scope.labelSymbol label ∈ function.symbols

/-- Wherever a function stands, its sites define its symbols and are settled. -/
theorem sites_of_function (scope : Scope) {entries : List (Located Command)}
    {function : Function} (sound : function.IsSound)
    (same : entries.map Located.item = function.commands) :
    Site.definitions (Site.ofCommands scope entries) = function.symbols ∧
      ∀ site ∈ Site.ofCommands scope entries, site.IsSettled function := by
  cases entries with
  | nil => cases same
  | cons entry rest =>
      obtain ⟨first, body⟩ := List.cons.inj same
      have inner : AllInner (rest.map Located.item) := body ▸ sound.inner
      obtain ⟨definitions, sites⟩ :=
        sites_of_inner (scope.enter (.function function.name function.locals)) inner
      rw [body] at definitions sites
      rw [Site.ofCommands, first]
      constructor
      · rw [Site.definitions_cons_of_some _ rfl, definitions]
        rfl
      · intro site member
        rcases List.mem_cons.mp member with rfl | behind
        · exact ⟨rfl, nofun⟩
        · obtain ⟨sameScope, inside⟩ := sites site behind
          refine ⟨(sound.inner _ inside).valid, ?_⟩
          intro label jumps
          have target : label ∈ jumpTargets function.body := by
            refine List.mem_filterMap.mpr ⟨site.command, inside, ?_⟩
            rw [← jumps]
            rfl
          rw [sameScope]
          exact List.mem_cons_of_mem _ (List.mem_map.mpr ⟨label, sound.closed label target, rfl⟩)

/-- The same holds of functions one behind the other. -/
theorem sites_of_functions (scope : Scope) {entries : List (Located Command)}
    {functions : List Function} (sound : ∀ function ∈ functions, function.IsSound)
    (same : entries.map Located.item = functions.flatMap Function.commands) :
    Site.definitions (Site.ofCommands scope entries) = functions.flatMap Function.symbols ∧
      ∀ site ∈ Site.ofCommands scope entries, ∃ function ∈ functions, site.IsSettled function := by
  induction functions generalizing scope entries with
  | nil =>
      cases List.map_eq_nil_iff.mp same
      exact ⟨rfl, nofun⟩
  | cons function rest inductionHypothesis =>
      obtain ⟨soundFirst, soundRest⟩ := List.forall_mem_cons.mp sound
      rw [List.flatMap_cons] at same
      obtain ⟨front, behind, rfl, sameFront, sameBehind⟩ := List.map_eq_append_iff.mp same
      rw [ofCommands_append]
      obtain ⟨definitions, settled⟩ := sites_of_function scope soundFirst sameFront
      obtain ⟨others, settledToo⟩ := inductionHypothesis
        (front.foldl (fun scope entry => scope.enter entry.item) scope) soundRest sameBehind
      constructor
      · rw [Site.definitions_append, definitions, others, List.flatMap_cons]
      · intro site member
        rcases List.mem_append.mp member with inFront | inBehind
        · exact ⟨function, List.mem_cons_self, settled site inFront⟩
        · obtain ⟨other, inside, has⟩ := settledToo site inBehind
          exact ⟨other, List.mem_cons_of_mem _ inside, has⟩

/-! ## Programs of functions -/

theorem items_ofCommands (name : String) (commands : List Command) :
    (File.ofCommands name commands).commands.map Located.item = commands := by
  apply List.ext_getElem?
  intro index
  simp only [File.ofCommands, List.getElem?_map, List.getElem?_mapIdx, Option.map_map,
    Function.comp_def, Option.map_id']

/-- A file of functions. -/
def fileOfFunctions (unit : String × List Function) : File :=
  .ofCommands unit.1 (unit.2.flatMap Function.commands)

theorem sites_of_files {units : List (String × List Function)}
    (sound : ∀ unit ∈ units, ∀ function ∈ unit.2, function.IsSound) :
    Site.definitions (Site.ofFiles (units.map fileOfFunctions)) =
        (units.flatMap Prod.snd).flatMap Function.symbols ∧
      ∀ site ∈ Site.ofFiles (units.map fileOfFunctions),
        ∃ function ∈ units.flatMap Prod.snd, site.IsSettled function := by
  induction units with
  | nil => exact ⟨rfl, nofun⟩
  | cons unit rest inductionHypothesis =>
      obtain ⟨soundFirst, soundRest⟩ := List.forall_mem_cons.mp sound
      obtain ⟨definitions, settled⟩ := sites_of_functions (.ofFile unit.1) soundFirst
        (items_ofCommands unit.1 _)
      obtain ⟨others, settledToo⟩ := inductionHypothesis soundRest
      have sites : Site.ofFiles ((unit :: rest).map fileOfFunctions) =
          Site.ofCommands (.ofFile unit.1)
              (File.ofCommands unit.1 (unit.2.flatMap Function.commands)).commands ++
            Site.ofFiles (rest.map fileOfFunctions) := rfl
      rw [sites, List.flatMap_cons]
      constructor
      · rw [Site.definitions_append, definitions, others, List.flatMap_append]
      · intro site member
        rcases List.mem_append.mp member with inFirst | inRest
        · obtain ⟨function, inside, has⟩ := settled site inFirst
          exact ⟨function, List.mem_append_left _ inside, has⟩
        · obtain ⟨function, inside, has⟩ := settledToo site inRest
          exact ⟨function, List.mem_append_right _ inside, has⟩

/-- Sound functions with different names can be linked: a program of them is translated, whatever its
files are called and whatever else the listing shall hold. -/
theorem translate_functions (options : Options) {units : List (String × List Function)}
    (sound : ∀ unit ∈ units, ∀ function ∈ unit.2, function.IsSound)
    (distinct : ((units.flatMap Prod.snd).map Function.name).Nodup) :
    ∃ code, translate options (units.map fileOfFunctions) = .ok code := by
  obtain ⟨definitions, settled⟩ := sites_of_files sound
  refine ⟨_, translate_eq_ok.mpr ⟨?_, rfl⟩⟩
  constructor
  case distinct =>
    rw [definitions]
    apply Function.nodup_flatMap_symbols _ distinct
    intro function member
    obtain ⟨unit, inside, member⟩ := List.mem_flatMap.mp member
    exact sound unit inside function member
  case valid =>
    intro site member
    obtain ⟨function, -, has⟩ := settled site member
    exact has.valid
  case reaches =>
    intro site member label jumps
    obtain ⟨function, inside, has⟩ := settled site member
    rw [definitions]
    exact List.mem_flatMap.mpr ⟨function, inside, has.reaches label jumps⟩

end Vm
end HackToolchain
