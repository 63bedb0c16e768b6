import Mathlib.Data.Finset.Card
import Mathlib.Tactic.Ring
import HackToolchain.Proofs.Hack.Binding

namespace HackToolchain
namespace Hack

/-!
# A reference for the assembler

The assembler carries a table through two readings of a program, and the table grows in both.  Here
the same image is described without any table.  Every fault is a property of a single entry and of
the entries in front of it.  Every address is a property of the whole listing: a predefined symbol
has a fixed address, a label the number of words in front of it, and any other symbol the number of
such symbols that are first used before it.  Every word is the number that its digits make.

The assembler answers what the reference says, for every program: the image where there is one, and
otherwise the fault that the reference finds first.
-/

/-! ## The reference -/

/-- The number of words in front of an entry of a listing. -/
def Listing.wordsBefore (listing : Listing) (index : Nat) : Nat :=
  Listing.size (listing.take index)

/-- The names of the predefined symbols. -/
def predefinedNames : List String := SymbolTable.predefined.map Prod.fst

/-- What is wrong with one entry, given the entries in front of it.  Only a label can be wrong: it
may address no word of instruction memory, or its name may be taken. -/
def labelFault? (program : List (Located Instruction)) (index : Nat) : Option AssemblyError :=
  match program[index]? with
  | some ⟨.label name, line⟩ =>
    let before := (entries program).take index
    if memorySize ≤ Listing.size before then some (.programTooLarge (Listing.size before + 1))
    else if name ∈ predefinedNames ∨ .label name ∈ before then some (.duplicateLabel name line)
    else none
  | _ => none

/-- The fault that keeps a program from having an image: that of its first faulty entry, or else
that the words do not fit. -/
def programFault? (program : List (Located Instruction)) : Option AssemblyError :=
  ((List.range program.length).findSome? (labelFault? program)).or
    (if memorySize < Listing.size (entries program) then
      some (.programTooLarge (Listing.size (entries program)))
    else none)

/-- The name an entry uses that is neither predefined nor a label of the listing. -/
def variableUse? (listing : Listing) : Instruction -> Option String
  | .symbol name =>
    if name ∈ predefinedNames ∨ .label name ∈ listing then none else some name
  | _ => none

/-- The number of variables of a listing that are first used before the given one. -/
def variableRank (listing : Listing) (name : String) : Nat :=
  ((listing.filterMap (variableUse? listing)).takeWhile (· ≠ name)).toFinset.card

/-- The address of a symbol.  That of a label does not depend on whether the symbol is used in
front of the label or behind it. -/
def symbolAddress (listing : Listing) (name : String) : Nat :=
  match SymbolTable.predefined.lookup name with
  | some address => address.toNat
  | none =>
    if .label name ∈ listing then listing.wordsBefore (listing.idxOf (.label name))
    else (16 + variableRank listing name) % 2 ^ 15

/-- The number that binary digits make, the highest digit first. -/
def ofDigits (digits : List Bool) : Nat :=
  digits.foldl (fun number digit => 2 * number + digit.toNat) 0

/-- The switches in the order of the word. -/
def Control.digits (control : Control) : List Bool :=
  [control.fromMemory, control.zeroFirst, control.invertFirst, control.zeroSecond,
    control.invertSecond, control.add, control.invertResult]

/-- The registers in the order of the word. -/
def Destination.digits (destination : Destination) : List Bool :=
  [destination.address, destination.data, destination.memory]

/-- Whether the machine jumps if the result is negative, zero or positive. -/
def Jump.digits : Option Jump -> List Bool
  | none => [false, false, false]
  | some .greater => [false, false, true]
  | some .equal => [false, true, false]
  | some .greaterOrEqual => [false, true, true]
  | some .less => [true, false, false]
  | some .notEqual => [true, false, true]
  | some .lessOrEqual => [true, true, false]
  | some .always => [true, true, true]

/-- The word of an entry of a listing, if it takes up one. -/
def referenceWord? (listing : Listing) : Instruction -> Option Nat
  | .value number => some (number.toNat % 2 ^ 15)
  | .symbol name => some (symbolAddress listing name)
  | .compute destination computation jump =>
    some (ofDigits ([true, true, true] ++ (Control.ofComputation computation).digits ++
      destination.digits ++ Jump.digits jump))
  | .label _ | .comment _ => none

/-- The image of a program, one word for every entry that takes up a word, or its fault. -/
def referenceImage (program : List (Located Instruction)) : Except AssemblyError (List Nat) :=
  match programFault? program with
  | some fault => .error fault
  | none => .ok ((entries program).filterMap (referenceWord? (entries program)))

/-- Exactly the encoded entries have a word in the reference. -/
theorem isSome_referenceWord? (listing : Listing) (entry : Instruction) :
    (referenceWord? listing entry).isSome = entry.isEncoded := by
  cases entry with
  | _ => rfl

/-- A reference image has one word for every encoded entry. -/
theorem length_referenceImage {program : List (Located Instruction)} {image : List Nat}
    (made : referenceImage program = .ok image) : image.length = Listing.size (entries program) := by
  unfold referenceImage at made
  cases fault : programFault? program with
  | some error =>
      rw [fault] at made
      cases made
  | none =>
      rw [fault] at made
      cases made
      rw [List.length_filterMap_eq_countP]
      simp only [isSome_referenceWord?]
      generalize entries program = listing
      induction listing with
      | nil => rfl
      | cons entry rest inductionHypothesis =>
          rw [List.countP_cons, Listing.size_cons, inductionHypothesis, Nat.add_comm]
          rfl

/-! ## Faults -/

/-- A table that binds the predefined symbols and the labels of a listing, and nothing else. -/
def SymbolTable.Knows (table : SymbolTable) (listing : Listing) : Prop :=
  ∀ name, table.get? name = none ↔ ¬ (name ∈ predefinedNames ∨ .label name ∈ listing)

theorem SymbolTable.knows_initial : initial.Knows [] := by
  intro name
  rw [Option.eq_none_iff_forall_ne_some]
  simp only [ne_eq, get?_initial, predefinedNames, List.mem_map, List.not_mem_nil, or_false,
    Prod.exists, exists_and_right, exists_eq_right, not_exists]

theorem SymbolTable.Knows.pass {table : SymbolTable} {before : Listing} {entry : Instruction}
    (knows : table.Knows before) (notLabel : ∀ name, entry ≠ .label name) :
    table.Knows (before ++ [entry]) := by
  intro name
  rw [knows name, List.mem_append, List.mem_singleton]
  simp only [(notLabel name).symm, or_false]

theorem SymbolTable.Knows.bind {table : SymbolTable} {before : Listing} {name : String}
    {address next : UInt16} (knows : table.Knows before) :
    Knows ⟨table.addresses.insert name address, next⟩ (before ++ [.label name]) := by
  intro other
  rw [get?_insert, List.mem_append, List.mem_singleton]
  by_cases same : name = other
  · simp [same]
  · rw [if_neg same, knows other]
    simp [Ne.symm same]

/-- A label can be bound if its name is not taken. -/
theorem SymbolTable.Knows.defineLabel? {table : SymbolTable} {before : Listing}
    (knows : table.Knows before) (name : String) (address : UInt16) :
    table.defineLabel? name address =
      if name ∈ predefinedNames ∨ .label name ∈ before then none
      else some ⟨table.addresses.insert name address, table.nextVariable⟩ := by
  have taken : (table.get? name).isSome = true ↔ name ∈ predefinedNames ∨ .label name ∈ before := by
    rw [← not_iff_not, ← knows name, Option.not_isSome_iff_eq_none]
  simp only [defineLabel?_eq, taken]

/-- Binding the labels behind a part of a program answers the first fault of an entry there, then
that the words do not fit, and otherwise a table that knows all labels.  The induction moves entries
from the rest to the front, so that every entry keeps its index and the entries before it. -/
theorem bindLabels_eq (before rest : List (Located Instruction)) (table : SymbolTable)
    (knows : table.Knows (entries before)) :
    match ((List.range' before.length rest.length).findSome? (labelFault? (before ++ rest))).or
        (if memorySize < Listing.size (entries (before ++ rest)) then
          some (.programTooLarge (Listing.size (entries (before ++ rest)))) else none) with
    | some fault => bindLabels (Listing.size (entries before)) table rest = .error fault
    | none => ∃ final, bindLabels (Listing.size (entries before)) table rest = .ok final ∧
        final.Knows (entries (before ++ rest)) := by
  induction rest generalizing before table with
  | nil =>
      simp only [List.length_nil, List.range'_zero, List.findSome?_nil, Option.none_or,
        List.append_nil]
      unfold bindLabels
      by_cases fits : memorySize < Listing.size (entries before)
      · rw [if_pos fits, if_neg (Nat.not_le.mpr fits)]
      · rw [if_neg fits, if_pos (Nat.not_lt.mp fits)]
        exact ⟨table, rfl, knows⟩
  | cons entry rest inductionHypothesis =>
      have regroup : before ++ entry :: rest = (before ++ [entry]) ++ rest := by simp
      have front : entries (before ++ [entry]) = entries before ++ [entry.item] := by
        simp [entries]
      have here : (before ++ entry :: rest)[before.length]? = some entry := by simp
      have inFront : (entries (before ++ entry :: rest)).take before.length = entries before := by
        simp [entries]
      have size : Listing.size (entries (before ++ [entry])) =
          Listing.size (entries before) + entry.item.size := by
        simp [front]
      have length : (before ++ [entry]).length = before.length + 1 := by simp
      rw [List.length_cons, List.range'_succ, List.findSome?_cons]
      by_cases isLabel : ∃ name, entry.item = .label name
      · obtain ⟨name, isLabel⟩ := isLabel
        obtain ⟨item, line⟩ := entry
        cases isLabel
        have fault : labelFault? (before ++ ⟨.label name, line⟩ :: rest) before.length =
            if memorySize ≤ Listing.size (entries before) then
              some (.programTooLarge (Listing.size (entries before) + 1))
            else if name ∈ predefinedNames ∨ .label name ∈ entries before then
              some (.duplicateLabel name line)
            else none := by
          simp only [labelFault?, here, inFront]
        rw [fault, bindLabels, knows.defineLabel?]
        by_cases outside : memorySize ≤ Listing.size (entries before)
        · simp only [if_pos outside, if_neg (Nat.not_lt.mpr outside), Option.some_or]
        · by_cases taken : name ∈ predefinedNames ∨ .label name ∈ entries before
          · simp only [if_neg outside, if_pos (Nat.not_le.mp outside), if_pos taken,
              Option.some_or]
          · simp only [if_neg outside, if_pos (Nat.not_le.mp outside), if_neg taken]
            have later := inductionHypothesis (before ++ [⟨.label name, line⟩])
              ⟨table.addresses.insert name (UInt16.ofNat (Listing.size (entries before))),
                table.nextVariable⟩ (by rw [front]; exact knows.bind)
            rw [size, length, ← regroup] at later
            exact later
      · have notLabel : ∀ name, entry.item ≠ .label name := fun name same => isLabel ⟨name, same⟩
        have fault : labelFault? (before ++ entry :: rest) before.length = none := by
          rw [labelFault?, here]
          obtain ⟨item, line⟩ := entry
          cases item with
          | label name => exact absurd rfl (notLabel name)
          | _ => rfl
        rw [fault, bindLabels_cons _ _ _ _ notLabel]
        have later := inductionHypothesis (before ++ [entry]) table
          (by rw [front]; exact knows.pass notLabel)
        rw [size, length, ← regroup] at later
        exact later

/-! ## Addresses -/

/-- A placed label stands behind the words in front of its first occurrence, which instruction
memory has room for. -/
theorem LabelsPlaced.place {binding : String -> UInt16} {place : Nat} {listing : Listing}
    {name : String} (placed : LabelsPlaced binding place listing)
    (defined : .label name ∈ listing) :
    (binding name).toNat = place + listing.wordsBefore (listing.idxOf (.label name)) ∧
      (binding name).toNat < memorySize := by
  induction listing generalizing place with
  | nil => cases defined
  | cons entry rest inductionHypothesis =>
      obtain ⟨here, later⟩ := placed
      by_cases first : entry = .label name
      · obtain ⟨same, inside⟩ := here name first
        rw [first, List.idxOf_cons_self, same]
        exact ⟨rfl, inside⟩
      · have defined : .label name ∈ rest :=
          (List.mem_cons.mp defined).resolve_left (Ne.symm first)
        obtain ⟨same, inside⟩ := inductionHypothesis later defined
        rw [List.idxOf_cons_ne _ first, same]
        refine ⟨?_, same ▸ inside⟩
        rw [Listing.wordsBefore, Listing.wordsBefore, List.take_succ_cons, Listing.size_cons,
          Nat.add_assoc]

/-- The name an entry uses that a table does not know. -/
def SymbolTable.freeUse? (table : SymbolTable) : Instruction -> Option String
  | .symbol name => if table.get? name = none then some name else none
  | _ => none

theorem SymbolTable.Knows.freeUse? {table : SymbolTable} {listing : Listing}
    (knows : table.Knows listing) : table.freeUse? = variableUse? listing := by
  funext entry
  cases entry with
  | symbol name =>
      simp only [SymbolTable.freeUse?, variableUse?, knows name, ite_not]
  | _ => rfl

/-- A name that gets bound is free no more. -/
theorem SymbolTable.freeUse?_insert (table : SymbolTable) (used : String) (address next : UInt16)
    (listing : Listing) :
    listing.filterMap (freeUse? ⟨table.addresses.insert used address, next⟩) =
      (listing.filterMap table.freeUse?).filter (· ≠ used) := by
  rw [List.filter_filterMap]
  apply List.filterMap_congr
  intro entry _
  cases entry with
  | symbol name =>
      simp only [freeUse?, get?_insert]
      by_cases same : used = name
      · subst same
        by_cases free : table.get? used = none
        · simp [free, Option.filter]
        · simp [free]
      · by_cases free : table.get? name = none
        · simp [free, same, Ne.symm same, Option.filter]
        · simp [free, same]
  | _ => rfl

/-- The distinct names in front of the first occurrence of a name are one more with another name in
front of them. -/
theorem card_takeWhile_cons {used name : String} (different : used ≠ name) (names : List String) :
    ((used :: names).takeWhile (· ≠ name)).toFinset.card =
      ((names.filter (· ≠ used)).takeWhile (· ≠ name)).toFinset.card + 1 := by
  have kept : (names.filter (· ≠ used)).takeWhile (· ≠ name) =
      (names.takeWhile (· ≠ name)).filter (· ≠ used) := by
    rw [List.takeWhile_filter]
    congr 2
    funext other
    by_cases same : other = used
    · simp [same, different]
    · simp [same]
  rw [kept, List.takeWhile_cons_of_pos (by simpa using different), List.toFinset_cons,
    List.toFinset_filter, ← Finset.card_insert_of_notMem (a := used) (by simp)]
  congr 1
  ext other
  by_cases same : other = used
  · simp [same]
  · simp [same]

theorem eraseDups_cons (first : String) (rest : List String) :
    (first :: rest).eraseDups = first :: (rest.filter (· ≠ first)).eraseDups := by
  rw [List.eraseDups_cons]
  congr 2
  apply List.filter_congr
  intro other _
  rw [decide_not, ← Bool.beq_eq_decide_eq]

theorem nodup_eraseDups (names : List String) : names.eraseDups.Nodup := by
  cases names with
  | nil => exact List.nodup_nil
  | cons first rest =>
      rw [eraseDups_cons, List.nodup_cons]
      constructor
      · simp [List.mem_eraseDups]
      · exact nodup_eraseDups _
termination_by names.length
decreasing_by exact Nat.lt_succ_of_le (List.length_filter_le _ _)

/-- The number of distinct names in front of a name is its place among the names without
repetitions. -/
theorem card_takeWhile_eq_idxOf (names : List String) (name : String) : name ∈ names ->
    (names.takeWhile (· ≠ name)).toFinset.card = names.eraseDups.idxOf name := by
  cases names with
  | nil =>
      intro member
      cases member
  | cons first rest =>
      intro member
      rw [eraseDups_cons]
      by_cases same : first = name
      · simp [same]
      · have later : name ∈ rest.filter (· ≠ first) := by
          simpa [Ne.symm same] using member
        rw [card_takeWhile_cons same, List.idxOf_cons_ne _ same,
          card_takeWhile_eq_idxOf _ name later]
termination_by names.length
decreasing_by exact Nat.lt_succ_of_le (List.length_filter_le _ _)

/-- The names that get cells are those that are used and not known, in the order of their first use. -/
theorem SymbolTable.allocated_calls (table : SymbolTable) (listing : Listing) :
    table.allocated (Listing.calls listing) = (listing.filterMap table.freeUse?).eraseDups := by
  induction listing generalizing table with
  | nil => rfl
  | cons entry rest inductionHypothesis =>
      cases entry with
      | symbol other =>
          have step : table.allocated (Listing.calls (.symbol other :: rest)) =
              (table.allocation? (.resolve other)).toList ++
                (table.resolve other).2.allocated (Listing.calls rest) := rfl
          rw [step, inductionHypothesis, allocation?]
          cases known : table.get? other with
          | some address =>
              have notFree : table.freeUse? (.symbol other) = none := by
                simp [freeUse?, known]
              rw [resolve_of_bound known, List.filterMap_cons_none notFree]
              rfl
          | none =>
              have isFree : table.freeUse? (.symbol other) = some other := by
                simp [freeUse?, known]
              rw [resolve_of_free known, freeUse?_insert, List.filterMap_cons_some isFree,
                eraseDups_cons]
              rfl
      | _ => exact inductionHypothesis table

/-- Variables get their cells in the order of their first use. -/
theorem SymbolTable.resolveAll_free (table : SymbolTable) (listing : Listing)
    (room : table.nextVariable.toNat + symbolCount listing < UInt16.size) {name : String}
    (free : table.get? name = none) (used : .symbol name ∈ listing) :
    ∃ address, (table.resolveAll listing).get? name = some address ∧
      address.toNat = table.nextVariable.toNat +
        ((listing.filterMap table.freeUse?).takeWhile (· ≠ name)).toFinset.card := by
  have isFree : table.freeUse? (.symbol name) = some name := if_pos free
  have member : name ∈ listing.filterMap table.freeUse? :=
    List.mem_filterMap.mpr ⟨.symbol name, used, isFree⟩
  rcases table.resolveAll_symbol used with ⟨address, bound⟩
  refine ⟨address, bound, ?_⟩
  rcases resolveAll_rank room bound with before | ⟨rank, -, listed, cell⟩
  · rw [free] at before
    cases before
  · rw [allocated_calls] at listed
    rcases List.getElem?_eq_some_iff.mp listed with ⟨inside, here⟩
    rw [cell, card_takeWhile_eq_idxOf _ name member, ← here,
      (nodup_eraseDups _).idxOf_getElem rank inside]

/-- Symbols that are used take up words. -/
theorem symbolCount_le_size (listing : Listing) : symbolCount listing ≤ Listing.size listing := by
  induction listing with
  | nil => exact Nat.le_refl 0
  | cons entry rest inductionHypothesis =>
      rw [Listing.size_cons, symbolCount, List.countP_cons]
      cases entry <;> simp [Instruction.size, Instruction.isEncoded] <;>
        (rw [symbolCount] at inductionHypothesis; omega)

/-- Looking a name up among the predefined symbols is what the initial table does. -/
theorem lookup_predefined (name : String) :
    SymbolTable.predefined.lookup name = SymbolTable.initial.get? name := by
  cases found : SymbolTable.predefined.lookup name with
  | none =>
      symm
      rw [Option.eq_none_iff_forall_ne_some]
      intro address bound
      have listed := List.lookup_eq_none_iff.mp found _ (SymbolTable.get?_initial.mp bound)
      simp at listed
  | some address =>
      obtain ⟨before, behind, split, _⟩ := List.lookup_eq_some_iff.mp found
      symm
      rw [SymbolTable.get?_initial, split]
      simp

theorem predefined_small {name : String} {address : UInt16}
    (listed : (name, address) ∈ SymbolTable.predefined) : address.toNat < 2 ^ 15 := by
  have small : ∀ entry ∈ SymbolTable.predefined, entry.2.toNat < 2 ^ 15 := by decide +kernel
  exact small _ listed

/-! ## Words -/

theorem toNat_addressWord (address : UInt16) : (addressWord address).toNat = address.toNat % 2 ^ 15 := by
  rw [addressWord, UInt16.toNat_and]
  exact Nat.and_two_pow_sub_one_eq_mod address.toNat 15

theorem ofDigits_append (first second : List Bool) :
    ofDigits (first ++ second) = ofDigits first * 2 ^ second.length + ofDigits second := by
  have shifted (start : Nat) (digits : List Bool) :
      digits.foldl (fun number digit => 2 * number + digit.toNat) start =
        start * 2 ^ digits.length + ofDigits digits := by
    induction digits generalizing start with
    | nil => simp [ofDigits]
    | cons digit rest inductionHypothesis =>
        rw [ofDigits, List.foldl_cons, List.foldl_cons, inductionHypothesis,
          inductionHypothesis (2 * 0 + digit.toNat), List.length_cons, Nat.pow_succ]
        ring
  rw [ofDigits, List.foldl_append]
  exact shifted _ second

theorem ofDigits_lt (digits : List Bool) : ofDigits digits < 2 ^ digits.length := by
  induction digits using List.reverseRecOn with
  | nil => simp [ofDigits]
  | append_singleton rest digit inductionHypothesis =>
      have small : digit.toNat < 2 := Bool.toNat_lt digit
      have single : ofDigits [digit] = digit.toNat := by simp [ofDigits]
      rw [ofDigits_append, single, List.length_append, List.length_singleton, Nat.pow_succ]
      omega

theorem Control.toNat_bits (control : Control) : control.bits.toNat = ofDigits control.digits := by
  obtain ⟨fromMemory, zeroFirst, invertFirst, zeroSecond, invertSecond, add, invertResult⟩ := control
  revert fromMemory zeroFirst invertFirst zeroSecond invertSecond add invertResult
  decide

theorem Destination.toNat_bits (destination : Destination) :
    destination.bits.toNat = ofDigits destination.digits := by
  obtain ⟨address, data, memory⟩ := destination
  revert address data memory
  decide

theorem Jump.toNat_bits (jump : Option Jump) :
    ((jump.map Jump.bits).getD 0).toNat = ofDigits (Jump.digits jump) := by
  cases jump with
  | none => rfl
  | some condition =>
      cases condition with
      | _ => rfl

theorem Jump.length_digits (jump : Option Jump) : (Jump.digits jump).length = 3 := by
  cases jump with
  | none => rfl
  | some condition =>
      cases condition with
      | _ => rfl

/-- Fields that are shifted behind one another and joined are the digits of one number. -/
theorem or_shifted {control registers condition : Nat} (controlSmall : control < 2 ^ 7)
    (registersSmall : registers < 2 ^ 3) (conditionSmall : condition < 2 ^ 3) :
    0b1110000000000000 ||| control <<< 6 % 2 ^ 16 ||| registers <<< 3 % 2 ^ 16 ||| condition =
      ((7 * 2 ^ 7 + control) * 2 ^ 3 + registers) * 2 ^ 3 + condition := by
  have wide : control <<< 6 < 2 ^ 13 := by
    rw [Nat.shiftLeft_eq]
    omega
  have narrow : registers <<< 3 < 2 ^ 6 := by
    rw [Nat.shiftLeft_eq]
    omega
  calc 0b1110000000000000 ||| control <<< 6 % 2 ^ 16 ||| registers <<< 3 % 2 ^ 16 ||| condition
    _ = 7 <<< 13 ||| control <<< 6 ||| registers <<< 3 ||| condition := by
        rw [Nat.mod_eq_of_lt (by omega), Nat.mod_eq_of_lt (by omega)]
        rfl
    _ = (7 * 2 ^ 7 + control) <<< 6 ||| registers <<< 3 ||| condition := by
        rw [← Nat.shiftLeft_add_eq_or_of_lt wide, Nat.shiftLeft_eq, Nat.shiftLeft_eq,
          Nat.shiftLeft_eq]
        congr 2
        omega
    _ = ((7 * 2 ^ 7 + control) * 2 ^ 3 + registers) <<< 3 ||| condition := by
        rw [← Nat.shiftLeft_add_eq_or_of_lt narrow, Nat.shiftLeft_eq, Nat.shiftLeft_eq,
          Nat.shiftLeft_eq]
        congr 1
        omega
    _ = ((7 * 2 ^ 7 + control) * 2 ^ 3 + registers) * 2 ^ 3 + condition := by
        rw [← Nat.shiftLeft_add_eq_or_of_lt conditionSmall, Nat.shiftLeft_eq]

/-- The fields of a compute instruction do not overlap, so that its digits are those of its fields
one behind the other. -/
theorem toNat_computeWord (destination : Destination) (computation : Computation)
    (jump : Option Jump) :
    (computeWord destination computation jump).toNat =
      ofDigits ([true, true, true] ++ (Control.ofComputation computation).digits ++
        destination.digits ++ Jump.digits jump) := by
  have controlSmall : ofDigits (Control.ofComputation computation).digits < 2 ^ 7 := ofDigits_lt _
  have destinationSmall : ofDigits destination.digits < 2 ^ 3 := ofDigits_lt _
  have jumpSmall : ofDigits (Jump.digits jump) < 2 ^ 3 := by
    rw [← Jump.length_digits jump]
    exact ofDigits_lt _
  rw [ofDigits_append, ofDigits_append, ofDigits_append, Jump.length_digits]
  rw [computeWord, UInt16.toNat_or, UInt16.toNat_or, UInt16.toNat_or, UInt16.toNat_shiftLeft,
    UInt16.toNat_shiftLeft, Control.toNat_bits, Destination.toNat_bits, Jump.toNat_bits]
  exact or_shifted controlSmall destinationSmall jumpSmall

/-- The word that the assembler makes of an entry is that of the reference, if the binding takes
every symbol to its address. -/
theorem word_eq_reference {binding : String -> UInt16} {listing : Listing} {entry : Instruction}
    (bound : ∀ name, entry = .symbol name ->
      (binding name).toNat % 2 ^ 15 = symbolAddress listing name) :
    (entry.word binding).map UInt16.toNat = referenceWord? listing entry := by
  cases entry with
  | value number => simp only [Instruction.word, Option.map_some, toNat_addressWord, referenceWord?]
  | symbol name =>
      simp only [Instruction.word, Option.map_some, toNat_addressWord, referenceWord?, bound name rfl]
  | compute destination computation jump =>
      simp only [Instruction.word, Option.map_some, toNat_computeWord, referenceWord?]
  | label name => rfl
  | comment text => rfl

/-- In the last table every symbol that is used is bound to its address. -/
theorem resolveAll_address {program : List (Located Instruction)} {final : SymbolTable}
    (succeeded : bindLabels 0 .initial program = .ok final) (knows : final.Knows (entries program))
    {name : String} (used : .symbol name ∈ entries program) {binding : String -> UInt16}
    (agrees : ∀ name address,
      (final.resolveAll (entries program)).get? name = some address -> binding name = address) :
    (binding name).toNat % 2 ^ 15 = symbolAddress (entries program) name := by
  have binds := bindLabels_ok succeeded
  have kept := SymbolTable.extends_resolveAll final (entries program)
  rw [symbolAddress, lookup_predefined]
  cases predefined : SymbolTable.initial.get? name with
  | some address =>
      rw [agrees name address (kept _ _ (binds.extends_ _ _ predefined))]
      exact Nat.mod_eq_of_lt (predefined_small (SymbolTable.get?_initial.mp predefined))
  | none =>
      by_cases label : .label name ∈ entries program
      · have placed := binds.placed binding fun other address known =>
          agrees other address (kept _ _ known)
        obtain ⟨place, inside⟩ := placed.place label
        simp only [if_pos label, ← place.trans (Nat.zero_add _)]
        exact Nat.mod_eq_of_lt inside
      · have free : final.get? name = none := by
          rw [knows name]
          intro taken
          have notTaken := (SymbolTable.knows_initial name).mp predefined
          simp only [List.not_mem_nil, or_false] at notTaken
          exact taken.elim notTaken label
        have words := (symbolCount_le_size (entries program)).trans
          (by simpa using binds.fits : Listing.size (entries program) ≤ memorySize)
        have next : final.nextVariable.toNat = 16 := by
          rw [binds.nextVariable]
          rfl
        have room : final.nextVariable.toNat + symbolCount (entries program) < UInt16.size := by
          rw [next]
          exact Nat.lt_of_le_of_lt (Nat.add_le_add_left words 16) (by decide)
        obtain ⟨address, bound, cell⟩ := final.resolveAll_free (entries program) room free used
        simp only [if_neg label]
        rw [agrees name address bound, cell, next, knows.freeUse?, variableRank]

/-! ## The assembler -/

/-- The assembler answers what the reference says: the first fault of a program, and for a program
without a fault its image, word by word. -/
theorem assembleLocated_eq_reference (program : List (Located Instruction)) :
    (assembleLocated program).map (List.map UInt16.toNat) = referenceImage program := by
  have binding := bindLabels_eq [] program .initial SymbolTable.knows_initial
  simp only [List.nil_append, List.length_nil, ← List.range_eq_range'] at binding
  change match programFault? program with
    | some fault => bindLabels 0 .initial program = .error fault
    | none => ∃ final, bindLabels 0 .initial program = .ok final ∧ final.Knows (entries program)
    at binding
  rw [referenceImage, assembleLocated]
  cases fault : programFault? program with
  | some error =>
      rw [fault] at binding
      simp only at binding
      rw [binding]
      rfl
  | none =>
      rw [fault] at binding
      obtain ⟨final, succeeded, knows⟩ := binding
      rw [succeeded]
      have agrees (name : String) (address : UInt16)
          (known : (final.resolveAll (entries program)).get? name = some address) :
          ((final.resolveAll (entries program)).get? name).getD 0 = address := by
        rw [known]
        rfl
      have words := encodeAll_toList final #[] program _ agrees
      have image : ((encodeAll final #[] program).toList).map UInt16.toNat =
          (entries program).filterMap (referenceWord? (entries program)) := by
        rw [words, Array.toList_empty, List.nil_append, List.map_filterMap]
        apply List.filterMap_congr
        intro entry member
        apply word_eq_reference
        intro name same
        exact resolveAll_address succeeded knows (same ▸ member) agrees
      exact congrArg Except.ok image

/-- Both entry points of the assembler answer what the reference says.  The lines of a program may
be any; those of a listing count its entries from one. -/
theorem assembler_eq_reference :
    (∀ program : List (Located Instruction),
      (assembleLocated program).map (List.map UInt16.toNat) = referenceImage program) ∧
    ∀ listing : Listing,
      (assemble listing).map (List.map UInt16.toNat) = referenceImage (located listing) := by
  constructor
  · exact assembleLocated_eq_reference
  · intro listing
    exact assembleLocated_eq_reference (located listing)

/-- Variables are numbered without regard to the labels used between them. -/
example : referenceImage (located [.symbol "x", .symbol "END", .symbol "y", .label "END",
    .symbol "x", .symbol "KBD"]) = .ok [16, 3, 17, 16, 24576] := by
  decide +kernel

end Hack
end HackToolchain
