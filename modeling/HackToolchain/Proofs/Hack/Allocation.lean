import HackToolchain.Hack.Symbols

namespace HackToolchain
namespace Hack

/-!
# Allocation of symbols

Labels and variables are bound in one table, and a table is called in any order: names are looked up,
labels are defined, and symbols are resolved.  A name is bound at most once, whichever of these does it,
and no call changes or frees what an earlier one has bound.

Only resolving takes cells.  Every name that is bound by being resolved takes the next cell behind those
given out before, and labels take none.  A table may be called more often than there are cells.  The
last cell is then given to all names that are left, and the number of variables stays where it is.

What the calls before have done is looked at once, in `Allots`, from any table on.  An assembler resolves
the symbols of its listing in a row, so the cells of its variables are told by the same account.
-/

namespace SymbolTable

variable {table : SymbolTable} {name : String} {address : UInt16}

/-! ## What a table knows -/

theorem get?_insert (table : SymbolTable) (name other : String) (address next : UInt16) :
    get? ⟨table.addresses.insert name address, next⟩ other =
      if name = other then some address else table.get? other := by
  simp only [get?, Std.TreeMap.getElem?_insert, Std.LawfulEqCmp.compare_eq_iff_eq]

theorem predefined_distinct :
    predefined.Pairwise fun first second => ¬compare first.1 second.1 = .eq := by
  simp only [Std.LawfulEqCmp.compare_eq_iff_eq]
  decide +kernel

/-- The initial table knows the predefined symbols and no others. -/
theorem get?_initial {name : String} {address : UInt16} :
    initial.get? name = some address ↔ (name, address) ∈ predefined := by
  have known (name : String) (address : UInt16) (listed : (name, address) ∈ predefined) :
      initial.get? name = some address :=
    Std.TreeMap.getElem?_ofList_of_mem Std.ReflCmp.compare_self predefined_distinct listed
  constructor
  · intro bound
    by_cases listed : ∃ other, (name, other) ∈ predefined
    · rcases listed with ⟨other, listed⟩
      rw [known name other listed] at bound
      cases bound
      exact listed
    · have free : initial.get? name = none := by
        refine Std.TreeMap.getElem?_ofList_of_contains_eq_false ?_
        rw [Bool.eq_false_iff]
        intro member
        rcases List.mem_map.mp (List.contains_iff_mem.mp member) with ⟨entry, found, same⟩
        subst same
        exact listed ⟨entry.2, found⟩
      rw [free] at bound
      cases bound
  · exact known name address

/-- A later table knows at least what an earlier one knows. -/
def Extends (later earlier : SymbolTable) : Prop :=
  ∀ name address, earlier.get? name = some address -> later.get? name = some address

theorem Extends.refl (table : SymbolTable) : table.Extends table := fun _ _ bound => bound

theorem Extends.trans {last later earlier : SymbolTable} (second : last.Extends later)
    (first : later.Extends earlier) : last.Extends earlier :=
  fun name address bound => second name address (first name address bound)

theorem extends_insert (table : SymbolTable) (name : String) (address next : UInt16)
    (free : table.get? name = none) :
    Extends ⟨table.addresses.insert name address, next⟩ table := by
  intro other old bound
  rw [get?_insert, if_neg]
  · exact bound
  · intro same
    subst same
    rw [free] at bound
    cases bound

/-! ## Labels and variables -/

/-- A label is refused if its name is bound, and bound otherwise. -/
theorem defineLabel?_eq (table : SymbolTable) (name : String) (address : UInt16) :
    table.defineLabel? name address = if (table.get? name).isSome then none
      else some ⟨table.addresses.insert name address, table.nextVariable⟩ := by
  unfold defineLabel? get?
  rw [Std.TreeMap.contains_eq_isSome_getElem?]

/-- Defining a label succeeds for a free name and binds it. -/
theorem defineLabel?_eq_some {defined : SymbolTable}
    (succeeded : table.defineLabel? name address = some defined) :
    table.get? name = none ∧ defined = ⟨table.addresses.insert name address, table.nextVariable⟩ := by
  rw [defineLabel?_eq] at succeeded
  cases known : table.get? name with
  | some other =>
      rw [known] at succeeded
      cases succeeded
  | none =>
      rw [known] at succeeded
      exact ⟨rfl, (Option.some.inj succeeded).symm⟩

/-- A name that is bound is resolved to its address. -/
theorem resolve_of_bound (bound : table.get? name = some address) :
    table.resolve name = (address, table) := by
  rw [resolve, bound]

/-- A name that is not bound is bound to the next cell. -/
theorem resolve_of_free (free : table.get? name = none) :
    table.resolve name = (table.nextVariable,
      ⟨table.addresses.insert name table.nextVariable, nextCell table.nextVariable⟩) := by
  rw [resolve, free]

theorem extends_resolve (table : SymbolTable) (name : String) :
    (table.resolve name).2.Extends table := by
  cases bound : table.get? name with
  | some address =>
      rw [resolve_of_bound bound]
      exact .refl table
  | none =>
      rw [resolve_of_free bound]
      exact extends_insert table name _ _ bound

/-- What a symbol is resolved to is what it is bound to from then on. -/
theorem get?_resolve (table : SymbolTable) (name : String) :
    (table.resolve name).2.get? name = some (table.resolve name).1 := by
  cases bound : table.get? name with
  | some address =>
      rw [resolve_of_bound bound]
      exact bound
  | none => rw [resolve_of_free bound, get?_insert, if_pos rfl]

/-- Cells are counted up to the last one. -/
theorem toNat_nextCell (cell : UInt16) : (nextCell cell).toNat = min (cell.toNat + 1) 65535 := by
  have small : cell.toNat < 65536 := cell.toNat_lt
  unfold nextCell
  by_cases room : cell.toNat + 1 < UInt16.size
  · rw [if_pos room, UInt16.toNat_add]
    change (cell.toNat + 1) % 65536 = _
    change cell.toNat + 1 < 65536 at room
    omega
  · rw [if_neg room]
    change ¬cell.toNat + 1 < 65536 at room
    omega

/-! ## Calls -/

/-- A call of a table. -/
inductive Call where
  | get (name : String)
  | defineLabel (name : String) (address : UInt16)
  | resolve (name : String)
deriving DecidableEq, Repr

/-- The table after a call.  A label that is refused leaves it as it was. -/
def perform (table : SymbolTable) : Call -> SymbolTable
  | .get _ => table
  | .defineLabel name address => (table.defineLabel? name address).getD table
  | .resolve name => (table.resolve name).2

/-- The table after several calls. -/
def after (table : SymbolTable) (calls : List Call) : SymbolTable := calls.foldl perform table

/-- The name that a call binds to a cell. -/
def allocation? (table : SymbolTable) : Call -> Option String
  | .resolve name => if (table.get? name).isNone then some name else none
  | .get _ | .defineLabel _ _ => none

/-- The names that calls bind to cells, in order. -/
def allocated (table : SymbolTable) : List Call -> List String
  | [] => []
  | call :: rest => (table.allocation? call).toList ++ (table.perform call).allocated rest

theorem after_append (table : SymbolTable) (first second : List Call) :
    table.after (first ++ second) = (table.after first).after second :=
  List.foldl_append

/-- A call binds at most one name to a cell. -/
theorem length_allocated_le (table : SymbolTable) (calls : List Call) :
    (table.allocated calls).length ≤ calls.length := by
  induction calls generalizing table with
  | nil => exact Nat.le_refl 0
  | cons call rest inductionHypothesis =>
      have single : (table.allocation? call).toList.length ≤ 1 := Option.length_toList_le
      have others := inductionHypothesis (table.perform call)
      rw [allocated, List.length_append, List.length_cons]
      omega

/-! ## What calls keep -/

theorem extends_perform (table : SymbolTable) (call : Call) :
    (table.perform call).Extends table := by
  cases call with
  | get name => exact .refl table
  | defineLabel name address =>
      rw [perform, defineLabel?_eq]
      cases bound : table.get? name with
      | some other => exact .refl table
      | none => exact extends_insert table name address _ bound
  | resolve name => exact extends_resolve table name

theorem extends_after (table : SymbolTable) (calls : List Call) :
    (table.after calls).Extends table := by
  induction calls generalizing table with
  | nil => exact .refl table
  | cons call rest inductionHypothesis =>
      exact (inductionHypothesis _).trans (extends_perform table call)

/-- What it means that a name is bound: it is looked up and resolved to its address, and a label of
that name is refused, all of which leave the table as it is. -/
structure Binds (table : SymbolTable) (name : String) (address : UInt16) : Prop where
  found : table.get? name = some address
  resolved : table.resolve name = (address, table)
  refused : ∀ other, table.defineLabel? name other = none ∧
    table.perform (.defineLabel name other) = table

theorem binds_of_get? (found : table.get? name = some address) : table.Binds name address := by
  have refused (other : UInt16) : table.defineLabel? name other = none := by
    rw [defineLabel?_eq, found]
    rfl
  refine ⟨found, resolve_of_bound found, fun other => ⟨refused other, ?_⟩⟩
  rw [perform, refused]
  rfl

/-! ## What calls bind -/

/-- A name that is bound behind a call was bound before, or the call has bound it. -/
theorem get?_perform {call : Call} (bound : (table.perform call).get? name = some address) :
    table.get? name = some address ∨ table.allocation? call = some name ∨
      call = .defineLabel name address := by
  cases call with
  | get other => exact .inl bound
  | defineLabel other label =>
      rw [perform, defineLabel?_eq] at bound
      cases known : table.get? other with
      | some old =>
          rw [known] at bound
          exact .inl bound
      | none =>
          rw [known] at bound
          change get? ⟨table.addresses.insert other label, table.nextVariable⟩ name = _ at bound
          rw [get?_insert] at bound
          by_cases same : other = name
          · rw [if_pos same] at bound
            cases bound
            subst same
            exact .inr (.inr rfl)
          · rw [if_neg same] at bound
            exact .inl bound
  | resolve other =>
      rw [perform] at bound
      cases known : table.get? other with
      | some old =>
          rw [resolve_of_bound known] at bound
          exact .inl bound
      | none =>
          rw [resolve_of_free known, get?_insert] at bound
          by_cases same : other = name
          · rw [allocation?, known]
            exact .inr (.inl (congrArg some same))
          · rw [if_neg same] at bound
            exact .inl bound

/-- A name that is bound in the end was bound from the start, has got a cell, or is a label. -/
theorem get?_after {calls : List Call} (bound : (table.after calls).get? name = some address) :
    table.get? name = some address ∨ name ∈ table.allocated calls ∨
      .defineLabel name address ∈ calls := by
  induction calls generalizing table with
  | nil => exact .inl bound
  | cons call rest inductionHypothesis =>
      rw [allocated, List.mem_append, List.mem_cons]
      rcases inductionHypothesis bound with before | cell | label
      · rcases get?_perform before with earlier | cell | label
        · exact .inl earlier
        · exact .inr (.inl (.inl (Option.mem_toList.mpr cell)))
        · exact .inr (.inr (.inl label.symm))
      · exact .inr (.inl (.inr cell))
      · exact .inr (.inr (.inr label))

/-! ## Cells -/

/-- Names have been given cells in their order, from a first cell on, and the cells are counted. -/
structure Allots (table : SymbolTable) (first : Nat) (names : List String) : Prop where
  counted : table.nextVariable.toNat = min (first + names.length) 65535
  cells : ∀ rank name, names[rank]? = some name ->
    ∃ address, table.get? name = some address ∧ address.toNat = min (first + rank) 65535

namespace Allots

variable {first : Nat} {names : List String}

/-- Any table can be gone on from.  Its next cell is the first one then. -/
theorem start (table : SymbolTable) : table.Allots table.nextVariable.toNat [] := by
  have small : table.nextVariable.toNat < 65536 := table.nextVariable.toNat_lt
  refine ⟨?_, nofun⟩
  rw [List.length_nil]
  omega

/-- A table that knows more and has counted the same has given the same cells. -/
theorem extend {later : SymbolTable} (allots : table.Allots first names)
    (more : later.Extends table) (same : later.nextVariable = table.nextVariable) :
    later.Allots first names := by
  refine ⟨same ▸ allots.counted, fun rank name listed => ?_⟩
  rcases allots.cells rank name listed with ⟨address, found, cell⟩
  exact ⟨address, more name address found, cell⟩

/-- A name that is not bound takes the next cell. -/
theorem resolve (allots : table.Allots first names) (free : table.get? name = none) :
    (table.resolve name).2.Allots first (names ++ [name]) := by
  have bound : (table.resolve name).2.get? name = some table.nextVariable := by
    rw [get?_resolve, resolve_of_free free]
  refine ⟨?counted, ?cells⟩
  case counted =>
    rw [resolve_of_free free, toNat_nextCell, allots.counted, List.length_append,
      List.length_singleton]
    omega
  case cells =>
    intro rank other listed
    by_cases earlier : rank < names.length
    · rw [List.getElem?_append_left earlier] at listed
      rcases allots.cells rank other listed with ⟨address, found, cell⟩
      exact ⟨address, extends_resolve table name other address found, cell⟩
    · have inside := (List.getElem?_eq_some_iff.mp listed).1
      rw [List.length_append, List.length_singleton] at inside
      have last : rank = names.length := by omega
      subst last
      rw [List.getElem?_concat_length] at listed
      cases listed
      exact ⟨table.nextVariable, bound, allots.counted⟩

/-- Every call keeps account of the cells. -/
theorem perform (allots : table.Allots first names) (call : Call) :
    (table.perform call).Allots first (names ++ (table.allocation? call).toList) := by
  cases call with
  | get name =>
      rw [allocation?, Option.toList_none, List.append_nil]
      exact allots
  | defineLabel name address =>
      rw [allocation?, Option.toList_none, List.append_nil]
      apply allots.extend (extends_perform table _)
      rw [SymbolTable.perform, defineLabel?_eq]
      cases table.get? name <;> rfl
  | resolve name =>
      cases bound : table.get? name with
      | some address =>
          rw [allocation?, bound, SymbolTable.perform, resolve_of_bound bound]
          change table.Allots first (names ++ [])
          rw [List.append_nil]
          exact allots
      | none =>
          rw [allocation?, bound]
          exact allots.resolve bound

theorem after (allots : table.Allots first names) (calls : List Call) :
    (table.after calls).Allots first (names ++ table.allocated calls) := by
  induction calls generalizing table names with
  | nil =>
      rw [allocated, List.append_nil]
      exact allots
  | cons call rest inductionHypothesis =>
      rw [allocated, ← List.append_assoc]
      exact inductionHypothesis (allots.perform call)

end Allots

/-- Whatever a table is called for, it gives its next cell and those behind it to the names that get
one, in their order. -/
theorem allots_after (table : SymbolTable) (calls : List Call) :
    (table.after calls).Allots table.nextVariable.toNat (table.allocated calls) :=
  (Allots.start table).after calls

/-- A new table is called any number of times.  A name is bound if it is predefined, if a label of that
name has been defined, or if it has been resolved, and whatever is called later it keeps the address
that it got then.  A name that is not bound can be bound to any address by a label, and is bound to the
next cell by being resolved.  So the names that are bound by being resolved have the cells from 16 on in
their order.  Those behind the first 65519 of them all have the last cell, and are not counted. -/
theorem symbols_are_bound_once (earlier later : List Call) :
    let table := initial.after earlier
    let afterwards := fun call => initial.after (earlier ++ call :: later)
    let names := initial.allocated earlier
    (∀ name address, (name, address) ∈ predefined -> table.Binds name address) ∧
    (∀ name address, table.defineLabel? name address ≠ none ->
      (afterwards (.defineLabel name address)).Binds name address) ∧
    (∀ name, (afterwards (.resolve name)).Binds name (table.resolve name).1) ∧
    (∀ name, table.get? name = none ->
      (∀ address, table.defineLabel? name address ≠ none) ∧
      (table.resolve name).1.toNat = min (16 + names.length) 65535) ∧
    (∀ rank name, names[rank]? = some name ->
      ∃ address, table.Binds name address ∧ address.toNat = min (16 + rank) 65535) ∧
    table.variableCount = min names.length 65519 ∧
    variableBase ≤ table.nextVariable := by
  intro table afterwards names
  have base : variableBase.toNat = 16 := rfl
  have allots : table.Allots 16 names := initial.allots_after earlier
  have kept (call : Call) {name : String} {address : UInt16}
      (found : (table.perform call).get? name = some address) :
      (afterwards call).Binds name address := by
    apply binds_of_get?
    change (initial.after (earlier ++ call :: later)).get? name = some address
    rw [after_append]
    exact extends_after _ later name address found
  refine ⟨?predefined, ?labels, ?resolved, ?free, ?cells, ?count, ?base⟩
  case predefined =>
    intro name address listed
    exact binds_of_get? (extends_after _ earlier name address (get?_initial.mpr listed))
  case labels =>
    intro name address accepted
    rcases Option.ne_none_iff_exists'.mp accepted with ⟨defined, succeeded⟩
    apply kept
    rw [perform, succeeded, (defineLabel?_eq_some succeeded).2]
    exact (get?_insert _ _ _ _ _).trans (if_pos rfl)
  case resolved =>
    intro name
    exact kept _ (get?_resolve table name)
  case free =>
    intro name free
    constructor
    · intro address
      rw [defineLabel?_eq, free]
      exact Option.some_ne_none _
    · rw [resolve_of_free free]
      exact allots.counted
  case cells =>
    intro rank name listed
    rcases allots.cells rank name listed with ⟨address, found, cell⟩
    exact ⟨address, binds_of_get? found, cell⟩
  case count =>
    rw [variableCount, allots.counted, base]
    omega
  case base =>
    rw [UInt16.le_iff_toNat_le, base, allots.counted]
    omega

/-- Labels and variables in between take no cell from each other. -/
example : initial.allocated [.resolve "i", .defineLabel "LOOP" 7, .resolve "LOOP", .resolve "sum",
    .resolve "i", .defineLabel "sum" 9] = ["i", "sum"] := by decide +kernel

end SymbolTable
end Hack
end HackToolchain
