import HackToolchain.Proofs.Hack.Reference
import HackToolchain.Proofs.Vm.Labels

namespace HackToolchain

/-!
# Symbols of translated programs

The assembler has one namespace for everything.  In a translated program it is shared by registers,
by labels, by static variables and by functions.  The first three are kept apart by how they are
spelled: labels hold a dollar sign, static variables end in a period and a number, and registers have
neither.  Functions have whatever name the source gives them, and that name becomes a label as it is.
The translator compares it with other functions and with labels, but neither with registers nor with
static variables.

So two things can go wrong, and here it is said that nothing else can.  A function that is named like
a register is a label that the assembler refuses.  A function that is named like a static variable
takes the variable's symbol, and the place of its first word is then the address of the variable.
Every other static variable has a cell of its own.
-/

namespace Hack

/-! ## Faults of a listing whose labels differ -/

/-- Where all labels differ, none stands in front of itself. -/
theorem Listing.label_notMem_take {listing : Listing} (distinct : listing.labels.Nodup)
    {index : Nat} {name : String} (found : listing[index]? = some (.label name)) :
    .label name ∉ listing.take index := by
  obtain ⟨inside, here⟩ := List.getElem?_eq_some_iff.mp found
  have split : listing = listing.take index ++ .label name :: listing.drop (index + 1) := by
    rw [← here, ← List.drop_eq_getElem_cons, List.take_append_drop]
  rw [split, labels_append] at distinct
  intro before
  exact List.disjoint_of_nodup_append distinct (mem_labels.mpr before) (mem_labels.mpr
    List.mem_cons_self)

theorem getElem?_located (listing : Listing) (index : Nat) : (located listing)[index]? =
    listing[index]?.map fun instruction => ⟨instruction, index + 1⟩ := List.getElem?_mapIdx

/-- A label that is at fault stands too far behind, or has the name of a predefined symbol, if all
labels differ. -/
theorem labelFault?_cases {listing : Listing} (distinct : listing.labels.Nodup) {index : Nat}
    {fault : AssemblyError} (fails : labelFault? (located listing) index = some fault) :
    (∃ count, memorySize < count ∧ count ≤ Listing.size listing + 1 ∧
      fault = .programTooLarge count) ∨
    ∃ name, listing[index]? = some (.label name) ∧ name ∈ predefinedNames ∧
      fault = .duplicateLabel name (index + 1) := by
  rw [labelFault?, getElem?_located, entries_located] at fails
  cases found : listing[index]? with
  | none =>
      rw [found] at fails
      cases fails
  | some instruction =>
      rw [found] at fails
      cases instruction with
      | label name =>
          simp only [Option.map_some, listing.label_notMem_take distinct found, or_false] at fails
          split at fails
          · rename_i outside
            cases fails
            have front : Listing.size (listing.take index) ≤ Listing.size listing := by
              conv_rhs => rw [← List.take_append_drop index listing, Listing.size_append]
              exact Nat.le_add_right _ _
            exact .inl ⟨_, Nat.lt_succ_of_le outside, Nat.succ_le_succ front, rfl⟩
          · split at fails
            · rename_i taken
              cases fails
              exact .inr ⟨name, rfl, taken, rfl⟩
            · cases fails
      | _ => cases fails

theorem map_assemble (listing : Listing) :
    (assemble listing).map (List.map UInt16.toNat) = referenceImage (located listing) :=
  assembleLocated_eq_reference (located listing)

/-- An image has one word for every entry that takes up one. -/
theorem length_of_assemble {listing : Listing} {image : List UInt16}
    (assembled : assemble listing = .ok image) : image.length = Listing.size listing := by
  have reference := map_assemble listing
  rw [assembled] at reference
  have length := length_referenceImage reference.symm
  rwa [List.length_map, entries_located] at length

/-- A listing has an image if and only if the reference finds no fault in it. -/
theorem programFault?_eq (listing : Listing) : programFault? (located listing) =
    match assemble listing with
    | .ok _ => none
    | .error error => some error := by
  have reference := map_assemble listing
  unfold referenceImage at reference
  cases assembled : assemble listing with
  | ok image =>
      rw [assembled] at reference
      cases fault : programFault? (located listing) with
      | none => rfl
      | some error =>
          rw [fault] at reference
          cases reference
  | error error =>
      rw [assembled] at reference
      cases fault : programFault? (located listing) with
      | none =>
          rw [fault] at reference
          cases reference
      | some other =>
          rw [fault] at reference
          cases reference
          rfl

/-- What keeps a listing whose labels differ from having an image. -/
theorem assemble_error_cases {listing : Listing} (distinct : listing.labels.Nodup)
    {error : AssemblyError} (failed : assemble listing = .error error) :
    (∃ count, memorySize < count ∧ count ≤ Listing.size listing + 1 ∧
      error = .programTooLarge count) ∨
    ∃ index name, listing[index]? = some (.label name) ∧ name ∈ predefinedNames ∧
      error = .duplicateLabel name (index + 1) := by
  have fault : programFault? (located listing) = some error := by
    rw [programFault?_eq, failed]
  rcases Option.or_eq_some_iff.mp fault with single | ⟨-, whole⟩
  · obtain ⟨index, -, fails⟩ := List.exists_of_findSome?_eq_some single
    rcases labelFault?_cases distinct fails with large | ⟨name, found, taken, rfl⟩
    · exact .inl large
    · exact .inr ⟨index, name, found, taken, rfl⟩
  · rw [entries_located] at whole
    split at whole
    · rename_i large
      cases whole
      exact .inl ⟨_, large, Nat.le_succ _, rfl⟩
    · cases whole

/-- A listing with an image has no label with the name of a predefined symbol. -/
theorem notMem_predefinedNames_of_assemble {listing : Listing} {image : List UInt16}
    (assembled : assemble listing = .ok image) {name : String} (defined : name ∈ listing.labels) :
    name ∉ predefinedNames := by
  intro taken
  obtain ⟨index, found⟩ := List.getElem?_of_mem (Listing.mem_labels.mp defined)
  have faultless : programFault? (located listing) = none := by
    rw [programFault?_eq, assembled]
  have inside : index ∈ List.range (located listing).length := by
    rw [List.mem_range, located, List.length_mapIdx]
    exact (List.getElem?_eq_some_iff.mp found).1
  have fails : (labelFault? (located listing) index).isSome = true := by
    simp only [labelFault?, getElem?_located, found, Option.map_some, if_pos (Or.inl taken)]
    split
    · rfl
    · rfl
  have none := List.findSome?_eq_none_iff.mp (Option.or_eq_none_iff.mp faultless).1 index inside
  rw [none] at fails
  cases fails

theorem addressWord_of_lt {address : UInt16} (small : address.toNat < 32768) :
    addressWord address = address := by
  rw [← UInt16.toNat_inj, toNat_addressWord]
  exact Nat.mod_eq_of_lt small

/-- Wherever a symbol is used, its address is the word. -/
theorem word_of_symbol {listing before behind : Listing} {image : List UInt16} {name : String}
    (assembled : assemble listing = .ok image) (used : listing = before ++ .symbol name :: behind) :
    image[Listing.size before]? = some (addressWord (binding listing name)) := by
  have placed := placed_of_assemble assembled
  rw [used] at placed
  have here := placed.right
  rw [Nat.zero_add, ← used] at here
  exact here.1

end Hack

namespace Vm

open Hack

/-! ## Names of functions -/

/-- A function of that name begins at one of the sites. -/
def Begins (sites : List Site) (name : String) : Prop :=
  ∃ site ∈ sites, ∃ locals, site.command = .function name locals

/-- The labels without a dollar sign are the names of the functions. -/
theorem mem_labels_iff_begins (options : Options) {sites : List Site} {name : String}
    (plain : '$' ∉ name.toList) :
    name ∈ Listing.labels (listing options sites) ↔ Begins sites name := by
  constructor
  · intro label
    exact (mayLabel_listing options sites name label).resolve_left plain
  · rintro ⟨site, member, locals, command⟩
    apply mem_labels_of_definition options
    exact List.mem_filterMap.mpr ⟨site, member, by rw [Site.definition?, command]⟩

/-- Sources whose files have plain names are translated to a listing whose labels differ. -/
theorem distinct_labels_of_translate {options : Options} {sources : List (String × String)}
    {files : List File} {code : Listing}
    (named : ∀ source ∈ sources, source.1 ≠ "" ∧ '$' ∉ source.1.toList)
    (read : readFiles sources = .ok files)
    (translated : translateSources options sources = .ok code) : (Listing.labels code).Nodup := by
  obtain ⟨faultless, rfl⟩ := translate_eq_ok.mp (translateSources_ok read translated)
  have readable := isReadable_of_readFiles read
  refine nodup_labels options faultless.distinct
    (not_isReserved_definitions ?_ fun file inside => (readable file inside).2)
  intro file inside
  obtain ⟨source, given, same⟩ := List.mem_map.mp (readable file inside).1
  rw [← same]
  exact ⟨(named source given).1, (named source given).2⟩

/-! ## Functions named like registers -/

theorem predefined_noDollar : ∀ name ∈ predefinedNames, '$' ∉ name.toList := by decide +kernel

/-- Take sources that are translated and whose file names are plain.  If the listing has an image, no
function has the name of a predefined symbol.  If it has none, the words do not fit, or the fault is
the label of a function with such a name.  So nothing but such a function and the size of instruction
memory keeps what is translated from being assembled. -/
theorem assembly_of_translation {options : Options} {sources : List (String × String)}
    {files : List File} {code : Listing}
    (named : ∀ source ∈ sources, source.1 ≠ "" ∧ '$' ∉ source.1.toList)
    (read : readFiles sources = .ok files)
    (translated : translateSources options sources = .ok code) :
    match assemble code with
    | .ok image =>
      image.length = Listing.size code ∧
        ∀ name ∈ predefinedNames, ¬Begins (Site.ofFiles files) name
    | .error (.programTooLarge count) => memorySize < count ∧ count ≤ Listing.size code + 1
    | .error (.duplicateLabel name line) =>
      name ∈ predefinedNames ∧ Begins (Site.ofFiles files) name ∧
        code[line - 1]? = some (.label name)
    | .error (.malformed _) => False := by
  have distinct := distinct_labels_of_translate named read translated
  obtain ⟨rfl, -⟩ := translate_ok (translateSources_ok read translated)
  have begins {name : String} (taken : name ∈ predefinedNames) :
      name ∈ Listing.labels (listing options (Site.ofFiles files)) ↔
        Begins (Site.ofFiles files) name :=
    mem_labels_iff_begins options (predefined_noDollar name taken)
  cases assembled : assemble (listing options (Site.ofFiles files)) with
  | ok image =>
      refine ⟨length_of_assemble assembled, ?_⟩
      intro name taken function
      exact notMem_predefinedNames_of_assemble assembled ((begins taken).mpr function) taken
  | error error =>
      rcases assemble_error_cases distinct assembled with
        ⟨count, large, bound, rfl⟩ | ⟨index, name, found, taken, rfl⟩
      · exact ⟨large, bound⟩
      · have defined := Listing.mem_labels.mpr (List.mem_of_getElem? found)
        exact ⟨taken, (begins taken).mp defined, found⟩

/-- A program of one function without such a name has an image of seven words. -/
theorem main_is_assembled :
    let source := "function Main.main 0\npush constant 7\n"
    let code : Listing := .label "Main.main" :: Code.push (.literal 7)
    ∃ files image, readFiles [("Main", source)] = .ok files ∧
      translateSources {} [("Main", source)] = .ok code ∧ assemble code = .ok image ∧
      image.length = 7 ∧ ∀ name ∈ predefinedNames, ¬Begins (Site.ofFiles files) name := by
  intro source code
  let files : List File := [⟨"Main", [⟨.function "Main.main" 0, 1⟩, ⟨.push .constant 7, 2⟩]⟩]
  have read : readFiles [("Main", source)] = .ok files := by decide +kernel
  have translated : translateSources {} [("Main", source)] = .ok code := by decide +kernel
  have assembled : assemble code = .ok [7, 60432, 0, 64544, 58120, 0, 64968] := by decide +kernel
  have outcome := assembly_of_translation (by decide) read translated
  rw [assembled] at outcome
  exact ⟨files, _, read, translated, assembled, outcome.1, outcome.2⟩

/-- A function with the name of a register is translated and then refused by the assembler. -/
theorem register_function_refused :
    let code : Listing := .label "SP" :: Code.push (.literal 0)
    translateSources {} [("A", "function SP 0\npush constant 0\n")] = .ok code ∧
      assemble code = .error (.duplicateLabel "SP" 1) := by
  decide +kernel

/-! ## Functions named like static variables -/

/-- The symbol of the static variable of a file with that index. -/
def cellSymbol (file : String) (index : UInt16) : String := (Scope.ofFile file).staticSymbol index

/-- Some command of the file gets at the static variable with that index. -/
def Accesses (sites : List Site) (file : String) (index : UInt16) : Prop :=
  ∃ site ∈ sites, site.scope.file = file ∧
    (site.command = .push .static index ∨ site.command = .pop .static index)

/-- The symbol has a cell of data memory: it is no label, its address lies behind the registers and
within memory, and that address is the word wherever the symbol is used. -/
structure HasCell (code : Listing) (image : List UInt16) (symbol : String) : Prop where
  notLabel : symbol ∉ Listing.labels code
  behind : 16 ≤ (binding code symbol).toNat
  within : (binding code symbol).toNat < 32768
  words : ∀ before behind, code = before ++ .symbol symbol :: behind ->
    image[Listing.size before]? = some (binding code symbol)

theorem cellSymbol_noDollar {file : String} (plain : '$' ∉ file.toList) (index : UInt16) :
    '$' ∉ (cellSymbol file index).toList := by
  intro dollar
  simp only [cellSymbol, Scope.staticSymbol, Scope.ofFile, String.toList_append,
    List.mem_append] at dollar
  rcases dollar with (inFile | period) | digit
  · exact plain inFile
  · exact absurd period (by decide)
  · exact absurd (isDigit_of_mem_toString digit) (by decide)

theorem cellSymbol_inj {file other : String} {index number : UInt16} :
    cellSymbol file index = cellSymbol other number ↔ file = other ∧ index = number := by
  constructor
  · intro same
    obtain ⟨files, numbers⟩ := append_number_inj same
    exact ⟨files, UInt16.toNat_inj.mp numbers⟩
  · rintro ⟨rfl, rfl⟩
    rfl

theorem isVariable_of_accesses (options : Options) {sites : List Site} {file : String}
    {index : UInt16} (accesses : Accesses sites file index) (plain : '$' ∉ file.toList)
    (free : ¬Begins sites (cellSymbol file index)) :
    IsVariable (listing options sites) (cellSymbol file index) := by
  obtain ⟨site, member, rfl, command⟩ := accesses
  have gets : site.static? = some (cellSymbol site.scope.file index) := by
    rcases command with command | command
    · rw [Site.static?, command]
      rfl
    · rw [Site.static?, command]
      rfl
  exact isVariable_static options member gets plain fun other inside locals begins =>
    free ⟨other, inside, locals, begins⟩

/-- A symbol that is used, but neither predefined nor a label, has a cell. -/
theorem hasCell_of_isVariable {options : Options} {sites : List Site} {image : List UInt16}
    {symbol : String} (assembled : assemble (listing options sites) = .ok image)
    (isVariable : IsVariable (listing options sites) symbol) :
    HasCell (listing options sites) image symbol := by
  have few := symbolCount_lt assembled
  obtain ⟨behind, within⟩ := binding_variable assembled (Nat.lt_trans few (by decide)) isVariable
  have within := Nat.lt_trans within few
  refine ⟨fun label => isVariable.notLabel (Listing.mem_labels.mp label), behind, within, ?_⟩
  intro before rest used
  rw [word_of_symbol assembled used, addressWord_of_lt within]

/-- Take sources that are translated and assembled, and whose file names are plain.  A static variable
has a cell if and only if no function is named like its symbol.  Two static variables with cells have
one address if and only if they have one index in one file. -/
theorem cells_of_statics {options : Options} {sources : List (String × String)}
    {files : List File} {code : Listing} {image : List UInt16}
    (named : ∀ source ∈ sources, source.1 ≠ "" ∧ '$' ∉ source.1.toList)
    (read : readFiles sources = .ok files)
    (translated : translateSources options sources = .ok code)
    (assembled : assemble code = .ok image) :
    (∀ file index, Accesses (Site.ofFiles files) file index ->
      (HasCell code image (cellSymbol file index) ↔
        ¬Begins (Site.ofFiles files) (cellSymbol file index))) ∧
    ∀ file index other number, Accesses (Site.ofFiles files) file index ->
      Accesses (Site.ofFiles files) other number ->
      HasCell code image (cellSymbol file index) -> HasCell code image (cellSymbol other number) ->
        (binding code (cellSymbol file index) = binding code (cellSymbol other number) ↔
          file = other ∧ index = number) := by
  obtain ⟨rfl, -⟩ := translate_ok (translateSources_ok read translated)
  have plain {file : String} {index : UInt16}
      (accesses : Accesses (Site.ofFiles files) file index) : '$' ∉ file.toList := by
    obtain ⟨site, member, rfl, -⟩ := accesses
    obtain ⟨file, inside, sameFile, -⟩ := mem_ofFiles member
    obtain ⟨source, given, sameName⟩ := List.mem_map.mp (isReadable_of_readFiles read file inside).1
    rw [sameFile, ← sameName]
    exact (named source given).2
  have free {file : String} {index : UInt16} (accesses : Accesses (Site.ofFiles files) file index)
      (cell : HasCell (listing options (Site.ofFiles files)) image (cellSymbol file index)) :
      ¬Begins (Site.ofFiles files) (cellSymbol file index) := by
    have noDollar := cellSymbol_noDollar (plain accesses) index
    exact fun begins => cell.notLabel ((mem_labels_iff_begins options noDollar).mpr begins)
  have isVariable {file : String} {index : UInt16}
      (accesses : Accesses (Site.ofFiles files) file index) :=
    isVariable_of_accesses options accesses (plain accesses)
  constructor
  · intro file index accesses
    refine ⟨free accesses, ?_⟩
    intro noFunction
    exact hasCell_of_isVariable assembled (isVariable accesses noFunction)
  · intro file index other number accesses accessesOther cell otherCell
    rw [← cellSymbol_inj]
    refine ⟨?_, congrArg _⟩
    have room := Nat.lt_trans (symbolCount_lt assembled) (show 32768 < UInt16.size by decide)
    exact binding_distinct assembled room (isVariable accesses (free accesses cell))
      (isVariable accessesOther (free accessesOther otherCell))

/-- Two files with a static variable each get at different cells. -/
theorem cells_of_two_files :
    let sources := [("A", "push static 0\n"), ("B", "pop static 0\n")]
    let code := Code.push (.direct "A.0") ++ Code.pop (.direct "B.0")
    translateSources {} sources = .ok code ∧ ∃ image, assemble code = .ok image ∧
      HasCell code image (cellSymbol "A" 0) ∧ HasCell code image (cellSymbol "B" 0) ∧
      binding code (cellSymbol "A" 0) ≠ binding code (cellSymbol "B" 0) := by
  intro sources code
  let files : List File := [⟨"A", [⟨.push .static 0, 1⟩]⟩, ⟨"B", [⟨.pop .static 0, 1⟩]⟩]
  let sites := Site.ofFiles files
  have read : readFiles sources = .ok files := by decide +kernel
  have translated : translateSources {} sources = .ok code := by decide +kernel
  have assembled : assemble code = .ok [16, 64528, 0, 64544, 58120, 0, 64968, 0, 64680, 64528,
      17, 58120] := by
    decide +kernel
  have first : Accesses sites "A" 0 := ⟨_, List.mem_cons_self, rfl, .inl rfl⟩
  have second : Accesses sites "B" 0 :=
    ⟨_, List.mem_cons_of_mem _ List.mem_cons_self, rfl, .inr rfl⟩
  have noFunction (symbol : String) : ¬Begins sites symbol := by
    rintro ⟨site, member, locals, command⟩
    rcases List.mem_cons.mp member with rfl | member
    · cases command
    · rw [List.mem_singleton.mp member] at command
      cases command
  obtain ⟨cells, apart⟩ := cells_of_statics (by decide) read translated assembled
  have firstCell := (cells "A" 0 first).mpr (noFunction _)
  have secondCell := (cells "B" 0 second).mpr (noFunction _)
  refine ⟨translated, _, assembled, firstCell, secondCell, ?_⟩
  intro same
  exact absurd ((apart _ _ _ _ first second firstCell secondCell).mp same).1 (by decide)

/-- A function with the symbol of a static variable takes the variable's cell: the symbol is then a
label, and its address is the place where the function begins. -/
theorem static_function_takes_cell :
    let code : Listing := .label "A.0" :: Code.push (.direct "A.0")
    translateSources {} [("A", "function A.0 0\npush static 0\n")] = .ok code ∧
      ∃ image, assemble code = .ok image ∧ cellSymbol "A" 0 ∈ Listing.labels code ∧
        binding code (cellSymbol "A" 0) = 0 ∧ image[0]? = some 0 := by
  intro code
  refine ⟨by decide +kernel, ?_⟩
  have assembled : assemble code = .ok [0, 64528, 0, 64544, 58120, 0, 64968] := by decide +kernel
  exact ⟨_, assembled, by decide +kernel, by decide +kernel, rfl⟩

end Vm
end HackToolchain
