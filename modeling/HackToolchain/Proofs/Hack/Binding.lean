import HackToolchain.Proofs.Hack.Allocation
import HackToolchain.Proofs.Hack.Execution

namespace HackToolchain
namespace Hack

/-!
# Bindings of an image

Assembling binds every symbol of a listing once and for good: the predefined ones from the start,
the labels in the first reading, and all others when the second reading meets them.  So one binding,
that of the last table, accounts for the whole image although the table still grows while words are
made.

The main statements are about any listing that has an image.  The image stands in instruction memory
as the listing's words under its binding, with every label bound to where it stands.  Predefined
symbols keep their addresses.  Other symbols that are used are variables, whose cells lie behind the
registers and apart from each other.
-/

/-! ## Labels -/

/-- The labels of a listing. -/
def Listing.labels (listing : Listing) : List String :=
  listing.filterMap fun
    | .label name => some name
    | _ => none

theorem Listing.labels_append (first second : Listing) :
    labels (first ++ second) = labels first ++ labels second :=
  List.filterMap_append

theorem Listing.mem_labels {listing : Listing} {name : String} :
    name ∈ labels listing ↔ .label name ∈ listing := by
  unfold labels
  rw [List.mem_filterMap]
  constructor
  · rintro ⟨entry, member, same⟩
    cases entry with
    | label other => exact Option.some.inj same ▸ member
    | _ => cases same
  · intro member
    exact ⟨_, member, rfl⟩

/-- A binding takes the labels of a listing, laid out from a place on, to where they stand. -/
def LabelsPlaced (binding : String -> UInt16) : Nat -> Listing -> Prop
  | _, [] => True
  | place, entry :: rest =>
    (∀ name, entry = .label name -> (binding name).toNat = place ∧ place < memorySize) ∧
      LabelsPlaced binding (place + entry.size) rest

/-- The entries of a program without their lines. -/
def entries (program : List (Located Instruction)) : Listing := program.map Located.item

/-- Binding labels passes over every other entry, counting its words. -/
theorem bindLabels_cons (count : Nat) (table : SymbolTable) (entry : Located Instruction)
    (rest : List (Located Instruction)) (notLabel : ∀ name, entry.item ≠ .label name) :
    bindLabels count table (entry :: rest) = bindLabels (count + entry.item.size) table rest := by
  rcases entry with ⟨item, line⟩
  cases item with
  | label name => exact absurd rfl (notLabel name)
  | _ => rfl

/-- What binding labels adds to a table.  It finds no name bound that it is to bind, so nothing is
lost; every name that it binds is a label, and bound to where the label stands. -/
structure BindsLabels (count : Nat) (table final : SymbolTable) (listing : Listing) : Prop where
  extends_ : final.Extends table
  nextVariable : final.nextVariable = table.nextVariable
  placed : ∀ binding : String -> UInt16,
    (∀ name address, final.get? name = some address -> binding name = address) ->
      LabelsPlaced binding count listing
  only : ∀ name address, final.get? name = some address ->
    table.get? name = some address ∨ .label name ∈ listing
  fits : count + Listing.size listing ≤ memorySize

namespace BindsLabels

variable {count : Nat} {table final : SymbolTable} {rest : Listing}

/-- A label in front is bound to the words that were counted before it. -/
theorem label {name : String} (free : table.get? name = none) (inside : count < memorySize)
    (later : BindsLabels count
      ⟨table.addresses.insert name (UInt16.ofNat count), table.nextVariable⟩ final rest) :
    BindsLabels count table final (.label name :: rest) := by
  have bound := later.extends_ name (UInt16.ofNat count)
    (by rw [SymbolTable.get?_insert, if_pos rfl])
  refine ⟨later.extends_.trans (SymbolTable.extends_insert _ _ _ _ free), later.nextVariable,
    ?placed, ?only, ?fits⟩
  case placed =>
    intro binding agrees
    refine ⟨?_, later.placed binding agrees⟩
    intro other same
    cases same
    rw [agrees name _ bound]
    exact ⟨UInt16.toNat_ofNat_of_lt (Nat.lt_trans inside (by decide)), inside⟩
  case only =>
    intro other address known
    rcases later.only other address known with old | label
    · rw [SymbolTable.get?_insert] at old
      by_cases same : name = other
      · subst same
        exact .inr List.mem_cons_self
      · rw [if_neg same] at old
        exact .inl old
    · exact .inr (List.mem_cons_of_mem _ label)
  case fits =>
    have fits := later.fits
    rw [Listing.size_cons]
    exact fits.trans' (by simp [Instruction.size, Instruction.isEncoded])

/-- Any other entry in front adds its word to the count. -/
theorem pass {entry : Instruction} (notLabel : ∀ name, entry ≠ .label name)
    (later : BindsLabels (count + entry.size) table final rest) :
    BindsLabels count table final (entry :: rest) := by
  refine ⟨later.extends_, later.nextVariable, ?placed, ?only, ?fits⟩
  case placed =>
    intro binding agrees
    exact ⟨fun name same => absurd same (notLabel name), later.placed binding agrees⟩
  case only =>
    intro name address known
    rcases later.only name address known with old | label
    · exact .inl old
    · exact .inr (List.mem_cons_of_mem _ label)
  case fits =>
    rw [Listing.size_cons, ← Nat.add_assoc]
    exact later.fits

end BindsLabels

theorem bindLabels_ok {count : Nat} {table final : SymbolTable}
    {program : List (Located Instruction)}
    (succeeded : bindLabels count table program = .ok final) :
    BindsLabels count table final (entries program) := by
  induction program generalizing count table with
  | nil =>
      unfold bindLabels at succeeded
      by_cases fits : count ≤ memorySize
      · rw [if_pos fits] at succeeded
        cases succeeded
        exact ⟨.refl _, rfl, fun _ _ => trivial, fun _ _ bound => .inl bound, fits⟩
      · rw [if_neg fits] at succeeded
        cases succeeded
  | cons entry rest inductionHypothesis =>
      by_cases isLabel : ∃ name, entry.item = .label name
      · rcases isLabel with ⟨name, isLabel⟩
        rcases entry with ⟨item, line⟩
        cases isLabel
        unfold bindLabels at succeeded
        by_cases inside : count < memorySize
        · rw [if_pos inside] at succeeded
          cases defined : table.defineLabel? name (UInt16.ofNat count) with
          | none =>
              rw [defined] at succeeded
              cases succeeded
          | some next =>
              rw [defined] at succeeded
              rcases SymbolTable.defineLabel?_eq_some defined with ⟨free, rfl⟩
              exact .label free inside (inductionHypothesis succeeded)
        · rw [if_neg inside] at succeeded
          cases succeeded
      · have notLabel : ∀ name, entry.item ≠ .label name := fun name same => isLabel ⟨name, same⟩
        rw [bindLabels_cons _ _ _ _ notLabel] at succeeded
        exact .pass notLabel (inductionHypothesis succeeded)

/-! ## Words -/

/-- The number of entries that use a symbol. -/
def symbolCount (listing : Listing) : Nat :=
  listing.countP fun
    | .symbol _ => true
    | _ => false

theorem symbolCount_append (first second : Listing) :
    symbolCount (first ++ second) = symbolCount first + symbolCount second :=
  List.countP_append

/-- The calls of a table that making the words of a listing takes. -/
def Listing.calls (listing : Listing) : List SymbolTable.Call :=
  listing.filterMap fun
    | .symbol name => some (.resolve name)
    | _ => none

theorem Listing.length_calls (listing : Listing) : (calls listing).length = symbolCount listing := by
  rw [calls, List.length_filterMap_eq_countP, symbolCount]
  apply List.countP_congr
  intro entry _
  cases entry <;> simp

theorem Listing.mem_calls {listing : Listing} {call : SymbolTable.Call} :
    call ∈ calls listing ↔ ∃ name, .symbol name ∈ listing ∧ call = .resolve name := by
  unfold calls
  rw [List.mem_filterMap]
  constructor
  · rintro ⟨entry, member, same⟩
    cases entry with
    | symbol name => exact ⟨name, member, (Option.some.inj same).symm⟩
    | _ => cases same
  · rintro ⟨name, member, rfl⟩
    exact ⟨.symbol name, member, rfl⟩

namespace SymbolTable

/-- The table when all words of a listing have been made. -/
def resolveAll (table : SymbolTable) (listing : Listing) : SymbolTable :=
  listing.foldl (fun table entry => (entry.encode table).2) table

/-- Making words calls the table for the symbols in their order, and for nothing else. -/
theorem resolveAll_eq_after (table : SymbolTable) (listing : Listing) :
    table.resolveAll listing = table.after (Listing.calls listing) := by
  induction listing generalizing table with
  | nil => rfl
  | cons entry rest inductionHypothesis => cases entry <;> exact inductionHypothesis _

theorem extends_resolveAll (table : SymbolTable) (listing : Listing) :
    (table.resolveAll listing).Extends table := by
  rw [resolveAll_eq_after]
  exact extends_after table _

/-- As long as there are cells, a name that is bound when all words have been made was bound before, or
has the cell that is counted to with its rank among the names that have got one. -/
theorem resolveAll_rank {table : SymbolTable} {listing : Listing}
    (room : table.nextVariable.toNat + symbolCount listing < UInt16.size) {name : String}
    {address : UInt16} (bound : (table.resolveAll listing).get? name = some address) :
    table.get? name = some address ∨ ∃ rank, rank < symbolCount listing ∧
      (table.allocated (Listing.calls listing))[rank]? = some name ∧
      address.toNat = table.nextVariable.toNat + rank := by
  rw [resolveAll_eq_after] at bound
  rcases get?_after bound with before | cell | label
  · exact .inl before
  · rcases List.getElem?_of_mem cell with ⟨rank, listed⟩
    rcases (table.allots_after _).cells rank name listed with ⟨other, found, counted⟩
    rw [bound] at found
    cases found
    have inside : rank < symbolCount listing := by
      rw [← Listing.length_calls]
      exact (List.getElem?_eq_some_iff.mp listed).1.trans_le (table.length_allocated_le _)
    change _ < 65536 at room
    refine .inr ⟨rank, inside, listed, ?_⟩
    omega
  · rcases Listing.mem_calls.mp label with ⟨_, _, same⟩
    cases same

/-- Encoding moves on by at most one cell for every symbol that is used, and every name that it
binds gets a cell that it has moved over. -/
theorem resolveAll_variable (table : SymbolTable) (listing : Listing)
    (room : table.nextVariable.toNat + symbolCount listing < UInt16.size) (name : String)
    (address : UInt16) (bound : (table.resolveAll listing).get? name = some address) :
    table.get? name = some address ∨
      (table.nextVariable.toNat ≤ address.toNat ∧
        address.toNat < table.nextVariable.toNat + symbolCount listing) := by
  rcases resolveAll_rank room bound with before | ⟨rank, inside, -, cell⟩
  · exact .inl before
  · exact .inr ⟨by omega, by omega⟩

/-- Names that encoding binds get cells of their own. -/
theorem resolveAll_distinct (table : SymbolTable) (listing : Listing)
    (room : table.nextVariable.toNat + symbolCount listing < UInt16.size) {first second : String}
    {address : UInt16} (firstBound : (table.resolveAll listing).get? first = some address)
    (secondBound : (table.resolveAll listing).get? second = some address)
    (firstFree : table.get? first = none) (secondFree : table.get? second = none) :
    first = second := by
  rcases resolveAll_rank room firstBound with before | ⟨rank, -, listed, cell⟩
  · rw [firstFree] at before
    cases before
  · rcases resolveAll_rank room secondBound with before | ⟨other, -, otherListed, otherCell⟩
    · rw [secondFree] at before
      cases before
    · have same : rank = other := by omega
      rw [same, otherListed] at listed
      exact (Option.some.inj listed).symm

/-- Every symbol that is used is bound in the end. -/
theorem resolveAll_symbol (table : SymbolTable) {listing : Listing} {name : String}
    (used : .symbol name ∈ listing) :
    ∃ address, (table.resolveAll listing).get? name = some address := by
  induction listing generalizing table with
  | nil => cases used
  | cons entry rest inductionHypothesis =>
      rcases List.mem_cons.mp used with first | later
      · subst first
        exact ⟨_, extends_resolveAll _ rest _ _ (get?_resolve table name)⟩
      · exact inductionHypothesis _ later

end SymbolTable

/-- The words of an image are those of the listing under any binding that agrees with the last
table: what a symbol was bound to when it was used is what it is bound to in the end. -/
theorem encodeAll_toList (table : SymbolTable) (image : Array UInt16)
    (program : List (Located Instruction)) (binding : String -> UInt16)
    (agrees : ∀ name address, (table.resolveAll (entries program)).get? name = some address ->
      binding name = address) :
    (encodeAll table image program).toList =
      image.toList ++ (entries program).filterMap (Instruction.word binding) := by
  induction program generalizing table image with
  | nil => simp only [encodeAll, entries, List.map_nil, List.filterMap_nil, List.append_nil]
  | cons entry rest inductionHypothesis =>
      rcases entry with ⟨item, line⟩
      cases item with
      | symbol name =>
          have bound : binding name = (table.resolve name).1 :=
            agrees name _ (SymbolTable.extends_resolveAll _ (entries rest) _ _
              (SymbolTable.get?_resolve table name))
          refine (inductionHypothesis (table.resolve name).2
            (image.push (addressWord (table.resolve name).1)) agrees).trans ?_
          rw [Array.toList_push, List.append_assoc, ← bound]
          rfl
      | value number =>
          refine (inductionHypothesis table (image.push (addressWord number)) agrees).trans ?_
          rw [Array.toList_push, List.append_assoc]
          rfl
      | compute destination computation jump =>
          refine (inductionHypothesis table
            (image.push (computeWord destination computation jump)) agrees).trans ?_
          rw [Array.toList_push, List.append_assoc]
          rfl
      | label name => exact inductionHypothesis table image agrees
      | comment text => exact inductionHypothesis table image agrees

/-! ## The binding of a listing -/

/-- A listing with the lines of its text. -/
def located (listing : Listing) : List (Located Instruction) :=
  listing.mapIdx fun index instruction => ⟨instruction, index + 1⟩

theorem entries_located (listing : Listing) : entries (located listing) = listing := by
  apply List.ext_getElem?
  intro index
  simp only [entries, located, List.getElem?_map, List.getElem?_mapIdx, Option.map_map,
    Function.comp_def, Option.map_id']

/-- The address that a symbol of a listing has in its image. -/
def binding (listing : Listing) (name : String) : UInt16 :=
  match bindLabels 0 .initial (located listing) with
  | .ok table => ((table.resolveAll listing).get? name).getD 0
  | .error _ => 0

/-- A listing that has an image has its labels bound, and the image is made with what they are bound
to. -/
theorem bindLabels_of_assemble {listing : Listing} {image : List UInt16}
    (assembled : assemble listing = .ok image) :
    ∃ table, bindLabels 0 .initial (located listing) = .ok table ∧
      image = (encodeAll table #[] (located listing)).toList := by
  unfold assemble assembleLocated at assembled
  cases bound : bindLabels 0 .initial (located listing) with
  | error error =>
      rw [located] at bound
      rw [bound] at assembled
      cases assembled
  | ok table =>
      rw [located] at bound
      rw [bound] at assembled
      exact ⟨table, rfl, (Except.ok.inj assembled).symm⟩

theorem binding_eq {listing : Listing} {table : SymbolTable}
    (bound : bindLabels 0 .initial (located listing) = .ok table) {name : String}
    {address : UInt16} (known : (table.resolveAll listing).get? name = some address) :
    binding listing name = address := by
  rw [binding, bound]
  change ((table.resolveAll listing).get? name).getD 0 = address
  rw [known]
  rfl

theorem getElem?_words {binding : String -> UInt16} {before : List UInt16} {entry : Instruction}
    {rest : Listing} {word : UInt16} (encoded : entry.word binding = some word) :
    (before ++ (entry :: rest).filterMap (Instruction.word binding))[before.length]? =
      some word := by
  rw [List.filterMap_cons_some encoded, List.getElem?_append_right (Nat.le_refl _), Nat.sub_self]
  rfl

/-- Words in the order of their listing, with the labels bound to their places, are placed code. -/
theorem placed_words {binding : String -> UInt16} (before : List UInt16) (listing : Listing)
    (labels : LabelsPlaced binding before.length listing) :
    Placed (before ++ listing.filterMap (Instruction.word binding)) binding before.length
      listing := by
  induction listing generalizing before with
  | nil => trivial
  | cons entry rest inductionHypothesis =>
      rcases labels with ⟨label, labels⟩
      have later (word : UInt16) (encoded : entry.word binding = some word)
          (single : entry.size = 1) :
          Placed (before ++ (entry :: rest).filterMap (Instruction.word binding)) binding
            (before.length + entry.size) rest := by
        have moved := inductionHypothesis (before ++ [word])
          (by rw [List.length_append, List.length_singleton, ← single]; exact labels)
        rw [List.length_append, List.length_singleton, List.append_assoc] at moved
        rw [single, List.filterMap_cons_some encoded]
        exact moved
      cases entry with
      | value number => exact ⟨getElem?_words rfl, later _ rfl rfl⟩
      | symbol name => exact ⟨getElem?_words rfl, later _ rfl rfl⟩
      | compute destination computation jump => exact ⟨getElem?_words rfl, later _ rfl rfl⟩
      | label name => exact ⟨label name rfl, inductionHypothesis before labels⟩
      | comment text => exact ⟨trivial, inductionHypothesis before labels⟩

/-- The image of a listing is the listing placed at the beginning of instruction memory. -/
theorem placed_of_assemble {listing : Listing} {image : List UInt16}
    (assembled : assemble listing = .ok image) : Placed image (binding listing) 0 listing := by
  rcases bindLabels_of_assemble assembled with ⟨table, bound, rfl⟩
  have binds := bindLabels_ok bound
  rw [entries_located] at binds
  have words := encodeAll_toList table #[] (located listing) (binding listing)
    (by rw [entries_located]; exact fun _ _ known => binding_eq bound known)
  rw [words, entries_located]
  exact placed_words [] listing (binds.placed _ fun name address known =>
    binding_eq bound (SymbolTable.extends_resolveAll table listing name address known))

/-- An image fits into instruction memory. -/
theorem size_of_assemble {listing : Listing} {image : List UInt16}
    (assembled : assemble listing = .ok image) : Listing.size listing ≤ memorySize := by
  rcases bindLabels_of_assemble assembled with ⟨table, bound, rfl⟩
  have fits := (bindLabels_ok bound).fits
  rwa [entries_located, Nat.zero_add] at fits

/-! ## Predefined symbols and variables -/

/-- Predefined symbols mean the same in every image. -/
theorem binding_predefined {listing : Listing} {image : List UInt16}
    (assembled : assemble listing = .ok image) {name : String} {address : UInt16}
    (listed : (name, address) ∈ SymbolTable.predefined) : binding listing name = address := by
  rcases bindLabels_of_assemble assembled with ⟨table, bound, rfl⟩
  exact binding_eq bound (SymbolTable.extends_resolveAll table listing name address
    ((bindLabels_ok bound).extends_ name address (SymbolTable.get?_initial.mpr listed)))

/-- A symbol that is used, but neither predefined nor a label. -/
structure IsVariable (listing : Listing) (name : String) : Prop where
  used : .symbol name ∈ listing
  notLabel : .label name ∉ listing
  notPredefined : ∀ address, (name, address) ∉ SymbolTable.predefined

/-- A variable is not bound before it is used. -/
theorem IsVariable.free {listing : Listing} {name : String} {table : SymbolTable}
    (isVariable : IsVariable listing name)
    (bound : bindLabels 0 .initial (located listing) = .ok table) : table.get? name = none := by
  have binds := bindLabels_ok bound
  rw [entries_located] at binds
  cases known : table.get? name with
  | none => rfl
  | some address =>
      rcases binds.only name address known with old | label
      · exact absurd (SymbolTable.get?_initial.mp old) (isVariable.notPredefined address)
      · exact absurd label isVariable.notLabel

/-- The cell of a variable lies behind the registers, with room for all symbols used. -/
theorem binding_variable {listing : Listing} {image : List UInt16}
    (assembled : assemble listing = .ok image)
    (room : variableBase.toNat + symbolCount listing < UInt16.size) {name : String}
    (isVariable : IsVariable listing name) :
    variableBase.toNat ≤ (binding listing name).toNat ∧
      (binding listing name).toNat < variableBase.toNat + symbolCount listing := by
  rcases bindLabels_of_assemble assembled with ⟨table, bound, rfl⟩
  have next : table.nextVariable = variableBase := (bindLabels_ok bound).nextVariable
  rcases SymbolTable.resolveAll_symbol table isVariable.used with ⟨address, known⟩
  rw [binding_eq bound known]
  rcases SymbolTable.resolveAll_variable table listing (by rw [next]; exact room) name address
    known with before | cell
  · rw [isVariable.free bound] at before
    cases before
  · rw [next] at cell
    exact cell

/-- Variables do not share cells. -/
theorem binding_distinct {listing : Listing} {image : List UInt16}
    (assembled : assemble listing = .ok image)
    (room : variableBase.toNat + symbolCount listing < UInt16.size) {first second : String}
    (firstVariable : IsVariable listing first) (secondVariable : IsVariable listing second)
    (same : binding listing first = binding listing second) : first = second := by
  rcases bindLabels_of_assemble assembled with ⟨table, bound, rfl⟩
  have next : table.nextVariable = variableBase := (bindLabels_ok bound).nextVariable
  rcases SymbolTable.resolveAll_symbol table firstVariable.used with ⟨address, known⟩
  rcases SymbolTable.resolveAll_symbol table secondVariable.used with ⟨other, otherKnown⟩
  rw [binding_eq bound known, binding_eq bound otherKnown] at same
  subst same
  exact SymbolTable.resolveAll_distinct table listing (by rw [next]; exact room) known otherKnown
    (firstVariable.free bound) (secondVariable.free bound)

end Hack
end HackToolchain
