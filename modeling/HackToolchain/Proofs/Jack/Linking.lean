import HackToolchain.Proofs.Jack.Grammar
import HackToolchain.Proofs.Jack.Structure
import HackToolchain.Proofs.Token.Names
import HackToolchain.Proofs.Vm.Translation

namespace HackToolchain
namespace Jack

/-!
# Compiled classes can be linked

The generator numbers labels through a whole class, and the translator looks for them function by
function.  Both fit: a class uses no label twice, so no function does, and every jump has its label in
the same function, however branches and loops are nested.  Functions of one class have the names of
its subroutines behind the name of the class and a period, and a class cannot have a period in its
name; so functions have different names if subroutines and classes have.

That names hold neither periods nor dollar signs is a property of sources, and is taken from the
tokens that the trees are spelled by.  Nothing is assumed of the names under which the compiled classes
are linked.
-/

open Vm

/-! ## Names in class sources -/

theorem isName_of_mem {source name : String}
    (member : Token.ofName name ∈ (reading.stream source).tokens.map Token.unplaced) :
    Dialect.jack.IsName name := by
  obtain ⟨token, inside, same⟩ := List.mem_map.mp member
  have kind : token.kind = .identifier := congrArg Token.kind same
  have literal : token.literal = name := congrArg Token.literal same
  rw [← literal]
  exact reading.names_stream source token inside kind

/-- The names of a parsed class and of its subroutines are names of its source. -/
theorem isName_of_parse {source : String} {tree : Class} (parsed : parse source = .ok tree) :
    Dialect.jack.IsName tree.name ∧
      ∀ subroutine ∈ tree.subroutines, Dialect.jack.IsName subroutine.name := by
  obtain ⟨-, members, -, subroutines, spelled⟩ := parse_sound parsed
  constructor
  · apply isName_of_mem
    rw [spelled]
    exact List.mem_cons_of_mem _ List.mem_cons_self
  · intro subroutine member
    rw [← subroutines] at member
    obtain ⟨declared, inside, same⟩ := List.mem_filterMap.mp member
    cases declared with
    | inl declaration => cases same
    | inr routine =>
        cases same
        apply isName_of_mem
        rw [spelled]
        have named : Token.ofName subroutine.name ∈ memberSpelling (.inr subroutine) := by
          simp [memberSpelling, Subroutine.spelling]
        have listed := List.mem_flatMap.mpr ⟨_, inside, named⟩
        simp [enclosed, listed]

/-- The name of a function tells its class and its subroutine. -/
theorem qualified_inj {className className' routine routine' : String}
    (isName : Dialect.jack.IsName className) (isName' : Dialect.jack.IsName className')
    (same : Code.qualified className routine = Code.qualified className' routine') :
    className = className' ∧ routine = routine' := by
  have lists := congrArg String.toList same
  simp only [Code.qualified, String.toList_append, List.append_assoc] at lists
  obtain ⟨classes, routines⟩ := cons_append_inj (isName.notMem (by decide) (by decide))
    (isName'.notMem (by decide) (by decide)) lists
  exact ⟨String.toList_inj.mp classes, String.toList_inj.mp routines⟩

theorem dollar_notMem_qualified {className routine : String}
    (isName : Dialect.jack.IsName className) (isRoutine : Dialect.jack.IsName routine) :
    '$' ∉ (Code.qualified className routine).toList := by
  have inClass : '$' ∉ className.toList := isName.notMem (by decide) (by decide)
  have inRoutine : '$' ∉ routine.toList := isRoutine.notMem (by decide) (by decide)
  simp [Code.qualified, inClass, inRoutine]

/-- The code of a subroutine is the code of a sound function. -/
theorem IsSubroutine.exists_function {tree : Class} {subroutine : Subroutine} {code : List Command}
    (written : IsSubroutine tree subroutine code) (isName : Dialect.jack.IsName tree.name)
    (isRoutine : Dialect.jack.IsName subroutine.name) :
    ∃ function : Function, function.commands = code ∧ function.IsSound ∧
      function.name = Code.qualified tree.name subroutine.name := by
  obtain ⟨locals, body, rfl, finishing, distinct⟩ := written
  refine ⟨⟨_, locals, body⟩, rfl, ?_, rfl⟩
  exact ⟨dollar_notMem_qualified isName isRoutine, finishing.inner, distinct, finishing.closed⟩

/-! ## Compiled classes -/

/-- A source that compiles, with the name of the file that its commands are linked as. -/
structure Compiled where
  unit : String
  source : String
  tree : Class
  commands : List Command
  parsed : parse source = .ok tree
  compiles : compileClass tree = .ok commands

namespace Compiled

/-- The commands as a file of a program. -/
def file (compiled : Compiled) : File := .ofCommands compiled.unit compiled.commands

/-- The names of the functions of a class. -/
def functionNames (compiled : Compiled) : List String :=
  compiled.tree.subroutines.map fun subroutine =>
    Code.qualified compiled.tree.name subroutine.name

/-- Every function is named by its class and by one of its subroutines. -/
theorem mem_functionNames {compiled : Compiled} {name : String}
    (member : name ∈ compiled.functionNames) :
    Dialect.jack.IsName compiled.tree.name ∧
      ∃ routine, name = Code.qualified compiled.tree.name routine := by
  obtain ⟨subroutine, -, rfl⟩ := List.mem_map.mp member
  exact ⟨(isName_of_parse compiled.parsed).1, subroutine.name, rfl⟩

/-- The functions of different classes have different names. -/
theorem nodup_functionNames {classes : List Compiled}
    (classNames : (classes.map fun compiled => compiled.tree.name).Nodup)
    (subroutineNames : ∀ compiled ∈ classes,
      (compiled.tree.subroutines.map Subroutine.name).Nodup) :
    (classes.flatMap functionNames).Nodup := by
  rw [List.nodup_flatMap]
  constructor
  · intro compiled member
    have isName := (isName_of_parse compiled.parsed).1
    have qualified : compiled.functionNames =
        (compiled.tree.subroutines.map Subroutine.name).map
          (Code.qualified compiled.tree.name) := by
      rw [List.map_map]
      rfl
    rw [qualified]
    apply (subroutineNames compiled member).map
    exact fun first second same => (qualified_inj isName isName same).2
  · apply (List.pairwise_map.mp classNames).imp
    intro first second different name ofFirst ofSecond
    obtain ⟨isFirst, routine, rfl⟩ := mem_functionNames ofFirst
    obtain ⟨isSecond, other, same⟩ := mem_functionNames ofSecond
    exact different (qualified_inj isFirst isSecond same).1

/-- The commands of a class are those of sound functions, one for each subroutine in order. -/
theorem exists_functions (compiled : Compiled) (few : compiled.tree.FewArguments) :
    ∃ functions : List Function, functions.flatMap Function.commands = compiled.commands ∧
      (∀ function ∈ functions, function.IsSound) ∧
      functions.map Function.name = compiled.functionNames := by
  obtain ⟨isName, routines⟩ := isName_of_parse compiled.parsed
  obtain ⟨codes, commands, each⟩ := compileClass_structure compiled.compiles few
  rw [commands, functionNames]
  clear commands
  generalize compiled.tree.subroutines = subroutines at routines each
  induction each with
  | nil => exact ⟨[], rfl, nofun, rfl⟩
  | cons written _ inductionHypothesis =>
      obtain ⟨isRoutine, others⟩ := List.forall_mem_cons.mp routines
      obtain ⟨functions, flattened, soundBehind, names⟩ := inductionHypothesis others
      obtain ⟨function, rfl, sound, name⟩ := written.exists_function isName isRoutine
      refine ⟨function :: functions, ?_, ?_, ?_⟩
      · rw [List.flatten_cons, List.flatMap_cons, flattened]
      · exact List.forall_mem_cons.mpr ⟨sound, soundBehind⟩
      · rw [List.map_cons, List.map_cons, names, name]

/-- Compiled classes are files of sound functions. -/
theorem exists_units {classes : List Compiled}
    (few : ∀ compiled ∈ classes, compiled.tree.FewArguments) :
    ∃ units : List (String × List Function), units.map fileOfFunctions = classes.map file ∧
      (∀ unit ∈ units, ∀ function ∈ unit.2, function.IsSound) ∧
      (units.flatMap Prod.snd).map Function.name = classes.flatMap functionNames := by
  induction classes with
  | nil => exact ⟨[], rfl, nofun, rfl⟩
  | cons compiled rest inductionHypothesis =>
      obtain ⟨fewHere, fewBehind⟩ := List.forall_mem_cons.mp few
      obtain ⟨functions, commands, soundHere, namesHere⟩ := compiled.exists_functions fewHere
      obtain ⟨units, files, sound, names⟩ := inductionHypothesis fewBehind
      refine ⟨(compiled.unit, functions) :: units, ?_, ?_, ?_⟩
      · rw [List.map_cons, List.map_cons, files, fileOfFunctions, commands, file]
      · exact List.forall_mem_cons.mpr ⟨soundHere, sound⟩
      · rw [List.flatMap_cons, List.flatMap_cons, List.map_append, namesHere, names]

end Compiled

/-- Classes with different names, the subroutines of each with different names, can be linked under
any names of files and with any options.  Each of them is a sequence of sound functions: no command is
faulty in itself, and labels are as distinct and jumps as closed as in a function by itself. -/
theorem compiled_can_be_linked (options : Vm.Options) {classes : List Compiled}
    (classNames : (classes.map fun compiled => compiled.tree.name).Nodup)
    (subroutineNames : ∀ compiled ∈ classes,
      (compiled.tree.subroutines.map Subroutine.name).Nodup)
    (few : ∀ compiled ∈ classes, compiled.tree.FewArguments) :
    (∃ listing, translate options (classes.map Compiled.file) = .ok listing) ∧
      ∀ compiled ∈ classes, ∃ functions : List Function,
        functions.flatMap Function.commands = compiled.commands ∧
          ∀ function ∈ functions, function.IsSound := by
  constructor
  · obtain ⟨units, files, sound, names⟩ := Compiled.exists_units few
    rw [← files]
    apply translate_functions options sound
    rw [names]
    exact Compiled.nodup_functionNames classNames subroutineNames
  · intro compiled member
    obtain ⟨functions, commands, sound, -⟩ := compiled.exists_functions (few compiled member)
    exact ⟨functions, commands, sound⟩

section Example

/-- The tree of the class that some characters spell. -/
def treeOf (characters : List Char) : Option Class :=
  let scanner : Scanner := ⟨.jack, Scanner.defaultTabWidth, .start, characters⟩
  let start := Cursor.ofStream (scanner.stream.without reading.hides) true
  match Source.classTree (start.remaining + 1) start with
  | (some tree, cursor) => if cursor.hasErrors then none else some tree
  | (none, _) => none

theorem parse_of_treeOf {source : String} {tree : Class} (spelled : treeOf source.toList = some tree) :
    parse source = .ok tree := by
  unfold treeOf at spelled
  unfold parse run Reading.stream Scanner.ofSource
  dsimp only at spelled ⊢
  split at spelled
  · rename_i found cursor result
    rw [show reading.dialect = .jack from rfl, show reading.tabWidth = Scanner.defaultTabWidth from rfl,
      result]
    dsimp only
    split at spelled
    · cases spelled
    · rename_i noErrors
      rw [if_neg noErrors]
      exact congrArg Except.ok (Option.some.inj spelled)
  · cases spelled

/-- A text compiles to a class with the given names, and the code has numbers in range only. -/
def SpellsClass (text : List String) (name : String) (routines : List String) : Bool :=
  (treeOf (text.flatMap String.toList)).any fun tree =>
    (compileClass tree).toOption.any (fun commands => commands.all fun command =>
      command.number?.all fun number => decide (number.toNat ≤ maxInteger)) &&
      decide (tree.name = name) && decide (tree.subroutines.map Subroutine.name = routines) &&
      tree.subroutines.all fun subroutine =>
        decide ((statementsSpelling subroutine.statements).length ≤ maxArguments.toNat)

theorem exists_compiled {text : List String} {name : String} {routines : List String} (unit : String)
    (spells : SpellsClass text name routines = true) :
    ∃ compiled : Compiled, compiled.unit = unit ∧ compiled.source = String.join text ∧
      compiled.tree.name = name ∧ compiled.tree.subroutines.map Subroutine.name = routines ∧
      compiled.tree.FewArguments ∧
      ∀ command ∈ compiled.commands, ∀ number ∈ command.number?, number.toNat ≤ maxInteger := by
  unfold SpellsClass at spells
  cases spelled : treeOf (text.flatMap String.toList) with
  | none =>
      rw [spelled] at spells
      cases spells
  | some tree =>
      have parsed : parse (String.join text) = .ok tree :=
        parse_of_treeOf (String.toList_join ▸ spelled)
      rw [spelled] at spells
      simp only [Except.toOption, Option.any_some, Bool.and_eq_true, decide_eq_true_eq,
        List.all_eq_true] at spells
      obtain ⟨⟨⟨small, isName⟩, areNames⟩, short⟩ := spells
      cases compiles : compileClass tree with
      | error failure =>
          rw [compiles] at small
          cases small
      | ok commands =>
          rw [compiles] at small
          refine ⟨⟨unit, String.join text, tree, commands, parsed, compiles⟩, rfl, rfl, isName,
            areNames, Class.fewArguments_of_spelling short, ?_⟩
          intro command member number spelled
          have inCommand := List.all_eq_true.mp small command member
          exact of_decide_eq_true ((Option.all_eq_true _ _).mp inCommand number spelled)

/-- A class of boxes, which grow as long as they have to. -/
def boxText : List String := [
  "class Box \x7b\n",
  "  field int size;\n",
  "  static Box last;\n",
  "  constructor Box new(int wide) \x7b\n",
  "    let size = wide; let last = this; return this;\n",
  "  \x7d\n",
  "  method int grow(int by, int to) \x7b\n",
  "    while (size < to) \x7b\n",
  "      if (by > 0) \x7b let size = size + by; \x7d\n",
  "      else \x7b do put(to, by); \x7d\n",
  "    \x7d\n",
  "    return size;\n",
  "  \x7d\n",
  "  method void put(int high, int deep) \x7b\n",
  "    if (~(high = deep)) \x7b let size = high * deep; \x7d\n",
  "    return;\n",
  "  \x7d\n",
  "\x7d\n"]

/-- A class of shelves, which keep boxes in an array. -/
def shelfText : List String := [
  "class Shelf \x7b\n",
  "  field Array boxes;\n",
  "  field int used;\n",
  "  constructor Shelf new(Array places) \x7b\n",
  "    let boxes = places; let used = 0; return this;\n",
  "  \x7d\n",
  "  method Box put(Box box) \x7b\n",
  "    var Box other;\n",
  "    let other = boxes[used];\n",
  "    let boxes[used] = box;\n",
  "    let used = used + 1;\n",
  "    while (other.grow(1, used) < 10) \x7b\n",
  "      do Output.printString(\"box\");\n",
  "    \x7d\n",
  "    return other;\n",
  "  \x7d\n",
  "  function Shelf filled(Array places, int wide) \x7b\n",
  "    var Shelf shelf;\n",
  "    let shelf = Shelf.new(places);\n",
  "    do shelf.put(Box.new(wide));\n",
  "    return shelf;\n",
  "  \x7d\n",
  "\x7d\n"]

theorem spellsClass_box : SpellsClass boxText "Box" ["new", "grow", "put"] = true := by
  decide +kernel

theorem spellsClass_shelf : SpellsClass shelfText "Shelf" ["new", "put", "filled"] = true := by
  decide +kernel

/-- Two classes that have names of subroutines in common, under names of files that are not theirs. -/
theorem boxes_and_shelves_can_be_linked : ∃ box shelf : Compiled,
    (box.source = String.join boxText ∧ box.unit = "any $ name") ∧
      (shelf.source = String.join shelfText ∧ shelf.unit = "Box") ∧
      ([box, shelf].map fun compiled => compiled.tree.name).Nodup ∧
      (∀ compiled ∈ [box, shelf], (compiled.tree.subroutines.map Subroutine.name).Nodup) ∧
      (∀ compiled ∈ [box, shelf], compiled.tree.FewArguments) ∧
      (∃ listing, translate { annotate := true } ([box, shelf].map Compiled.file) = .ok listing) ∧
      ∀ compiled ∈ [box, shelf], ∃ functions : List Function,
        functions.flatMap Function.commands = compiled.commands ∧
          ∀ function ∈ functions, function.IsSound := by
  obtain ⟨box, boxUnit, boxSource, boxName, boxNames, fewInBox, -⟩ :=
    exists_compiled "any $ name" spellsClass_box
  obtain ⟨shelf, shelfUnit, shelfSource, shelfName, shelfNames, fewInShelf, -⟩ :=
    exists_compiled "Box" spellsClass_shelf
  have classNames : ([box, shelf].map fun compiled => compiled.tree.name).Nodup := by
    simp [boxName, shelfName]
  have subroutineNames : ∀ compiled ∈ [box, shelf],
      (compiled.tree.subroutines.map Subroutine.name).Nodup := by
    simp [boxNames, shelfNames]
  have few : ∀ compiled ∈ [box, shelf], compiled.tree.FewArguments :=
    List.forall_mem_cons.mpr ⟨fewInBox, List.forall_mem_singleton.mpr fewInShelf⟩
  exact ⟨box, shelf, ⟨boxSource, boxUnit⟩, ⟨shelfSource, shelfUnit⟩, classNames, subroutineNames, few,
    compiled_can_be_linked { annotate := true } classNames subroutineNames few⟩

end Example

end Jack
end HackToolchain
