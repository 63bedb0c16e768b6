import HackToolchain.Proofs.Vm.Symbols

namespace HackToolchain
namespace Hack

/-!
# Cells of variables

Every symbol that is neither predefined nor a label is a variable, and variables get cells behind
the registers in the order in which they are first used.  A word has fifteen bits for the address.
Instruction memory bounds the number of variables, so no two of them are given one cell, but it does
not keep the cells within fifteen bits: between the registers and the end of the addresses there are
sixteen cells less than a listing can have variables.  The last sixteen of so many start over at the
registers.
-/

/-! ## Variables in the order of their use -/

theorem eraseDups_of_nodup {names : List String} (distinct : names.Nodup) :
    names.eraseDups = names := by
  induction names with
  | nil => rfl
  | cons first rest inductionHypothesis =>
      obtain ⟨fresh, distinct⟩ := List.nodup_cons.mp distinct
      have kept : rest.filter (· ≠ first) = rest := by
        rw [List.filter_eq_self]
        intro other member
        simpa using fun same : other = first => fresh (same ▸ member)
      rw [eraseDups_cons, kept, inductionHypothesis distinct]

/-- The variables of a listing, in the order in which they are first used. -/
def Listing.variableNames (listing : Listing) : List String :=
  (listing.filterMap (variableUse? listing)).eraseDups

theorem Listing.nodup_variableNames (listing : Listing) : listing.variableNames.Nodup :=
  nodup_eraseDups _

theorem mem_predefinedNames {name : String} :
    name ∈ predefinedNames ↔ ∃ address, (name, address) ∈ SymbolTable.predefined := by
  simp only [predefinedNames, List.mem_map, Prod.exists, exists_and_right, exists_eq_right]

theorem IsVariable.use {listing : Listing} {name : String} (isVariable : IsVariable listing name) :
    variableUse? listing (.symbol name) = some name := by
  refine if_neg (not_or.mpr ⟨?_, isVariable.notLabel⟩)
  intro taken
  obtain ⟨address, listed⟩ := mem_predefinedNames.mp taken
  exact isVariable.notPredefined address listed

theorem Listing.mem_variableNames {listing : Listing} {name : String} :
    name ∈ listing.variableNames ↔ IsVariable listing name := by
  rw [variableNames, List.mem_eraseDups, List.mem_filterMap]
  constructor
  · rintro ⟨entry, member, uses⟩
    cases entry with
    | symbol used =>
        rw [variableUse?] at uses
        split at uses
        · cases uses
        · rename_i free
          cases uses
          obtain ⟨notPredefined, notLabel⟩ := not_or.mp free
          exact ⟨member, notLabel, fun address listed =>
            notPredefined (mem_predefinedNames.mpr ⟨address, listed⟩)⟩
    | _ => cases uses
  · intro isVariable
    exact ⟨.symbol name, isVariable.used, isVariable.use⟩

/-- A variable's rank is its place among the variables. -/
theorem IsVariable.rank {listing : Listing} {name : String} (isVariable : IsVariable listing name) :
    variableRank listing name = listing.variableNames.idxOf name :=
  card_takeWhile_eq_idxOf _ _ (List.mem_eraseDups.mp (Listing.mem_variableNames.mpr isVariable))

/-- There are no more variables than uses of symbols. -/
theorem Listing.length_variableNames_le (listing : Listing) :
    listing.variableNames.length ≤ symbolCount listing := by
  have uses : (listing.filterMap (variableUse? listing)).length ≤ symbolCount listing := by
    rw [List.length_filterMap_eq_countP, symbolCount]
    apply List.countP_mono_left
    intro entry _ uses
    cases entry with
    | symbol name => rfl
    | _ => cases uses
  have subset : listing.variableNames ⊆ listing.filterMap (variableUse? listing) :=
    fun _ member => List.mem_eraseDups.mp member
  exact (listing.nodup_variableNames.subperm subset).length_le.trans uses

/-- A listing with an image has no more variables than instruction memory has words. -/
theorem length_variableNames_of_assemble {listing : Listing} {image : List UInt16}
    (assembled : assemble listing = .ok image) : listing.variableNames.length ≤ memorySize :=
  calc listing.variableNames.length
    _ ≤ symbolCount listing := listing.length_variableNames_le
    _ ≤ Listing.size listing := symbolCount_le_size listing
    _ ≤ memorySize := size_of_assemble assembled

/-! ## Cells -/

/-- The address that a variable is bound to, as it stands in a word. -/
def variableCell (listing : Listing) (name : String) : UInt16 := addressWord (binding listing name)

/-- When its labels are bound, a table knows the predefined symbols and the labels of its listing. -/
theorem knows_of_bindLabels {listing : Listing} {table : SymbolTable}
    (bound : bindLabels 0 .initial (located listing) = .ok table) : table.Knows listing := by
  have outcome := bindLabels_eq [] (located listing) .initial SymbolTable.knows_initial
  rw [List.nil_append, entries_located, show Listing.size (entries []) = 0 from rfl, bound] at outcome
  split at outcome
  · cases outcome
  · obtain ⟨final, same, knows⟩ := outcome
    cases same
    exact knows

/-- The cell of a variable is found by counting on from the first one behind the registers, in
fifteen bits. -/
theorem toNat_variableCell {listing : Listing} {image : List UInt16} {name : String}
    (assembled : assemble listing = .ok image) (isVariable : IsVariable listing name) :
    (variableCell listing name).toNat = (16 + listing.variableNames.idxOf name) % 2 ^ 15 := by
  obtain ⟨table, bound, -⟩ := bindLabels_of_assemble assembled
  have agrees (other : String) (address : UInt16)
      (known : (table.resolveAll (entries (located listing))).get? other = some address) :
      binding listing other = address := by
    rw [entries_located] at known
    exact binding_eq bound known
  have address := resolveAll_address bound (by rw [entries_located]; exact knows_of_bindLabels bound)
    (by rw [entries_located]; exact isVariable.used) agrees
  rw [entries_located] at address
  have free : SymbolTable.predefined.lookup name = none := by
    rw [List.lookup_eq_none_iff]
    intro entry listed
    rw [bne_iff_ne]
    rintro rfl
    exact isVariable.notPredefined entry.2 listed
  rw [variableCell, toNat_addressWord, address, symbolAddress, free]
  simp only [if_neg isVariable.notLabel, isVariable.rank]

/-- Whatever stands among the variables at an index has the cell that is counted to with it. -/
theorem variableCell_of_getElem? {listing : Listing} {image : List UInt16} {index : Nat}
    {name : String} (assembled : assemble listing = .ok image)
    (found : listing.variableNames[index]? = some name) :
    IsVariable listing name ∧ (variableCell listing name).toNat = (16 + index) % 2 ^ 15 := by
  obtain ⟨inside, here⟩ := List.getElem?_eq_some_iff.mp found
  have isVariable : IsVariable listing name :=
    Listing.mem_variableNames.mp (List.mem_of_getElem? found)
  refine ⟨isVariable, ?_⟩
  rw [toNat_variableCell assembled isVariable, ← here,
    listing.nodup_variableNames.idxOf_getElem index inside]

/-- A listing that is assembled has a cell for each of its variables.  It is the word wherever the
variable is used; it is found by counting on from 16 in fifteen bits, in the order in which the
variables are first used; and no two variables have the same.  None of them is the cell of a register
if and only if the listing has no more than 32752 variables. -/
theorem cells_of_variables {listing : Listing} {image : List UInt16}
    (assembled : assemble listing = .ok image) :
    ∃ cell : String -> UInt16,
      (∀ before name behind, listing = before ++ .symbol name :: behind ->
        IsVariable listing name -> image[Listing.size before]? = some (cell name)) ∧
      (∀ (index : Nat) name, listing.variableNames[index]? = some name ->
        (cell name).toNat = (16 + index) % 2 ^ 15) ∧
      (∀ first second, IsVariable listing first -> IsVariable listing second ->
        cell first = cell second -> first = second) ∧
      ((∀ name, IsVariable listing name -> 16 ≤ (cell name).toNat) ↔
        listing.variableNames.length ≤ 32752) := by
  have few : listing.variableNames.length ≤ 32768 := length_variableNames_of_assemble assembled
  have place {name : String} (isVariable : IsVariable listing name) :
      listing.variableNames.idxOf name < listing.variableNames.length :=
    List.idxOf_lt_length_iff.mpr (Listing.mem_variableNames.mpr isVariable)
  refine ⟨variableCell listing, ?_, ?_, ?_, ?_⟩
  · intro before name behind used _
    exact word_of_symbol assembled used
  · intro index name found
    exact (variableCell_of_getElem? assembled found).2
  · intro first second firstVariable secondVariable same
    have inside := place firstVariable
    have otherInside := place secondVariable
    have cells := congrArg UInt16.toNat same
    rw [toNat_variableCell assembled firstVariable,
      toNat_variableCell assembled secondVariable] at cells
    apply (List.idxOf_inj (Listing.mem_variableNames.mpr firstVariable)).mp
    omega
  · constructor
    · intro behind
      by_contra many
      have inside : 32752 < listing.variableNames.length := Nat.not_le.mp many
      obtain ⟨isVariable, cell⟩ :=
        variableCell_of_getElem? assembled (List.getElem?_eq_getElem inside)
      have := behind _ isVariable
      omega
    · intro bounded name isVariable
      have inside := place isVariable
      rw [toNat_variableCell assembled isVariable]
      omega

/-- Two variables around a symbol of a device. -/
theorem cells_of_two_variables :
    ∃ cell : String -> UInt16, cell "x" = 16 ∧ cell "y" = 17 ∧
      assemble [.symbol "x", .symbol "KBD", .symbol "y", .symbol "x"] =
        .ok [cell "x", 24576, cell "y", cell "x"] := by
  let listing : Listing := [.symbol "x", .symbol "KBD", .symbol "y", .symbol "x"]
  have assembled : assemble listing = .ok [16, 24576, 17, 16] := by decide +kernel
  have names : listing.variableNames = ["x", "y"] := by decide +kernel
  obtain ⟨cell, -, counted, -, -⟩ := cells_of_variables assembled
  have first : cell "x" = 16 := UInt16.toNat_inj.mp (counted 0 "x" (by rw [names]; rfl))
  have second : cell "y" = 17 := UInt16.toNat_inj.mp (counted 1 "y" (by rw [names]; rfl))
  refine ⟨cell, first, second, ?_⟩
  rw [first, second]
  exact assembled

/-! ## More variables than cells -/

/-- A listing that uses numbered variables, each of them once. -/
def numberedVariables (count : Nat) : Listing :=
  (List.range count).map fun number => .symbol ("v" ++ toString number)

theorem isVariable_numbered {count number : Nat} (inside : number < count) :
    IsVariable (numberedVariables count) ("v" ++ toString number) := by
  refine ⟨List.mem_map.mpr ⟨number, List.mem_range.mpr inside, rfl⟩, ?_, ?_⟩
  · intro label
    obtain ⟨_, _, same⟩ := List.mem_map.mp label
    cases same
  · intro address listed
    have initials : ∀ entry ∈ SymbolTable.predefined, entry.1.toList.head? ≠ some 'v' := by
      decide +kernel
    refine initials _ listed ?_
    rw [String.toList_append]
    rfl

/-- Numbered variables are first used in the order of their numbers. -/
theorem variableNames_numbered (count : Nat) : (numberedVariables count).variableNames =
    (List.range count).map fun number => "v" ++ toString number := by
  have uses : (numberedVariables count).filterMap (variableUse? (numberedVariables count)) =
      (List.range count).map fun number => "v" ++ toString number := by
    conv_lhs =>
      arg 2
      rw [numberedVariables]
    rw [List.filterMap_map, ← List.filterMap_eq_map]
    apply List.filterMap_congr
    intro number member
    exact (isVariable_numbered (List.mem_range.mp member)).use
  rw [Listing.variableNames, uses]
  apply eraseDups_of_nodup
  apply List.nodup_range.map
  intro number other same
  have texts := congrArg String.toList same
  rw [String.toList_append, String.toList_append] at texts
  exact toString_inj (List.append_cancel_left texts)

theorem size_numbered (count : Nat) : Listing.size (numberedVariables count) = count := by
  induction count with
  | zero => rfl
  | succ count inductionHypothesis =>
      rw [numberedVariables, List.range_succ, List.map_append, Listing.size_append]
      exact congrArg (· + 1) inductionHypothesis

/-- Nothing is wrong with numbered variables as long as their words fit. -/
theorem assemble_numbered {count : Nat} (fits : count < memorySize) :
    ∃ image, assemble (numberedVariables count) = .ok image := by
  have noLabels : (numberedVariables count).labels = [] := by
    rw [Listing.labels, List.filterMap_eq_nil_iff]
    intro entry member
    obtain ⟨number, -, rfl⟩ := List.mem_map.mp member
    rfl
  cases outcome : assemble (numberedVariables count) with
  | ok image => exact ⟨image, rfl⟩
  | error error =>
      have distinct : (numberedVariables count).labels.Nodup := by
        rw [noLabels]
        exact List.nodup_nil
      rcases assemble_error_cases distinct outcome with
        ⟨large, exceeds, bound, -⟩ | ⟨index, name, found, -⟩
      · rw [size_numbered] at bound
        omega
      · have label := Listing.mem_labels.mpr (List.mem_of_getElem? found)
        rw [noLabels] at label
        cases label

/-- A listing with 32753 variables is assembled, and the word where the last of them is used is the
address of the first register. -/
theorem last_variable_at_register :
    ∃ image, assemble (numberedVariables 32753) = .ok image ∧
      IsVariable (numberedVariables 32753) "v32752" ∧
      numberedVariables 32753 = numberedVariables 32752 ++ [.symbol "v32752"] ∧
      image[32752]? = some 0 := by
  obtain ⟨image, assembled⟩ := assemble_numbered (show 32753 < memorySize by decide)
  have split : numberedVariables 32753 = numberedVariables 32752 ++ [.symbol "v32752"] := by
    rw [numberedVariables, List.range_succ, List.map_append]
    rfl
  have last : (numberedVariables 32753).variableNames[32752]? = some "v32752" := by
    rw [variableNames_numbered, List.getElem?_map, List.getElem?_range (by decide)]
    rfl
  obtain ⟨isVariable, cell⟩ := variableCell_of_getElem? assembled last
  refine ⟨image, assembled, isVariable, split, ?_⟩
  have word := word_of_symbol assembled split
  rw [size_numbered] at word
  rw [word]
  exact congrArg some (UInt16.toNat_inj.mp cell)

end Hack
end HackToolchain
