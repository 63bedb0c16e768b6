import HackToolchain.Proofs.Jack.Scope

namespace HackToolchain
namespace Jack

/-!
# What declarations make of a scope

The variables of a class, and those of a subroutine, come from one list of declarations that are made
one after the other.  A scope that has taken a list of declarations counts them by their kinds.  A name
means the latest declaration that has it, and its cell is numbered by the earlier declarations of the
same kind, whatever was declared in between.

Declarations can be taken as long as none of the kinds runs out of cells.
-/

/-- A declaration of one variable. -/
structure Declaration where
  kind : VariableKind
  type : String
  name : String
deriving DecidableEq, Repr

namespace Declaration

/-- The number of declarations of a kind. -/
def number (declared : List Declaration) (kind : VariableKind) : Nat :=
  declared.countP fun declaration => declaration.kind = kind

theorem number_cons (declaration : Declaration) (earlier : List Declaration)
    (kind : VariableKind) :
    number (declaration :: earlier) kind =
      number earlier kind + if kind = declaration.kind then 1 else 0 := by
  unfold number
  rw [List.countP_cons]
  simp only [decide_eq_true_eq, eq_comm (a := kind)]

theorem number_reverse (declared : List Declaration) (kind : VariableKind) :
    number declared.reverse kind = number declared kind := List.countP_reverse

/-- What a name means after declarations, the latest of which stand in front: the latest one that has
the name, and how many of its kind were there before. -/
def latest? : List Declaration -> String -> Option (Declaration × Nat)
  | [], _ => none
  | declaration :: earlier, name =>
    if declaration.name = name then some (declaration, number earlier declaration.kind)
    else latest? earlier name

theorem latest?_lt {history : List Declaration} {name : String} {declaration : Declaration}
    {place : Nat} (found : latest? history name = some (declaration, place)) :
    place < number history declaration.kind := by
  induction history with
  | nil => cases found
  | cons first earlier inductionHypothesis =>
      rw [latest?] at found
      rw [number_cons]
      split at found
      · cases found
        rw [if_pos rfl]
        exact Nat.lt_succ_self _
      · exact Nat.lt_of_lt_of_le (inductionHypothesis found) (Nat.le_add_right _ _)

theorem isSome_latest? {history : List Declaration} {name : String} :
    (latest? history name).isSome ↔ ∃ declaration ∈ history, declaration.name = name := by
  induction history with
  | nil => simp [latest?]
  | cons first earlier inductionHypothesis =>
      by_cases same : first.name = name
      · simp [latest?, same]
      · simp [latest?, same, inductionHypothesis]

theorem mem_of_latest? {history : List Declaration} {name : String} {declaration : Declaration}
    {place : Nat} (found : latest? history name = some (declaration, place)) :
    declaration ∈ history := by
  induction history with
  | nil => cases found
  | cons first earlier inductionHypothesis =>
      rw [latest?] at found
      split at found
      · cases found
        exact List.mem_cons_self
      · exact List.mem_cons_of_mem _ (inductionHypothesis found)

/-- A name is told by the kind and the number of what it means. -/
theorem latest?_inj {history : List Declaration} {name other : String} {first second : Declaration}
    {place : Nat} (found : latest? history name = some (first, place))
    (foundToo : latest? history other = some (second, place)) (kinds : first.kind = second.kind) :
    name = other := by
  induction history with
  | nil => cases found
  | cons last earlier inductionHypothesis =>
      rw [latest?] at found foundToo
      split at found <;> split at foundToo
      · next isName isOther => exact isName.symm.trans isOther
      · cases found
        have before := latest?_lt foundToo
        rw [kinds] at before
        exact absurd before (Nat.lt_irrefl _)
      · cases foundToo
        have before := latest?_lt found
        rw [kinds] at before
        exact absurd before (Nat.lt_irrefl _)
      · exact inductionHypothesis found foundToo

/-- The variable of a declaration, with a cell that fits into a word. -/
def «variable» (declaration : Declaration) (place : Nat) : Variable :=
  ⟨declaration.type, declaration.kind, UInt16.ofNat place⟩

end Declaration

open Declaration

namespace Scope

/-- Declare one variable after the other. -/
def declare (scope : Scope) (declared : List Declaration) : Except Abort Scope :=
  declared.foldlM (fun scope declaration =>
    (scope.define declaration.name declaration.type declaration.kind).map Prod.snd) scope

theorem defineAll_eq_declare (scope : Scope) (kind : VariableKind) (type : String)
    (names : List String) :
    scope.defineAll kind type names = scope.declare (names.map (⟨kind, type, ·⟩)) := by
  unfold defineAll declare
  rw [List.foldlM_map]

theorem declare_append (scope : Scope) (first second : List Declaration) :
    scope.declare (first ++ second) = scope.declare first >>= fun next => next.declare second :=
  List.foldlM_append

/-- Taking lists of declarations in order is taking all of them. -/
theorem foldlM_declare (listOf : α -> List Declaration) (items : List α) (scope : Scope) :
    items.foldlM (fun scope item => scope.declare (listOf item)) scope =
      scope.declare (items.flatMap listOf) := by
  induction items generalizing scope with
  | nil => rfl
  | cons item rest inductionHypothesis =>
      rw [List.foldlM_cons, List.flatMap_cons, declare_append]
      exact congrArg _ (funext inductionHypothesis)

/-- A scope has taken declarations, the latest of which stand in front. -/
structure Holds (scope : Scope) (history : List Declaration) : Prop where
  count : ∀ kind, (scope.count kind).toNat = number history kind
  meaning : ∀ name, scope.get? name = (latest? history name).map fun found =>
    found.1.variable found.2

namespace Holds

variable {scope after : Scope} {history : List Declaration}

theorem empty : Scope.empty.Holds [] := by
  refine ⟨?_, fun name => get?_empty name⟩
  intro kind
  cases kind <;> rfl

/-- No kind has more declarations than cells. -/
theorem few (holds : scope.Holds history) (kind : VariableKind) :
    number history kind < UInt16.size := by
  rw [← holds.count kind]
  exact UInt16.toNat_lt_size _

theorem define (holds : scope.Holds history) {declaration : Declaration}
    (done : (scope.define declaration.name declaration.type declaration.kind).map Prod.snd =
      .ok after) : after.Holds (declaration :: history) := by
  have defines := defined done
  refine ⟨?_, ?_⟩
  · intro kind
    rw [count_define defines kind, holds.count kind, number_cons]
  · intro name
    rw [get?_define defines name, latest?, holds.meaning name]
    split
    · rw [Option.map_some, Declaration.variable, ← holds.count, UInt16.ofNat_toNat]
    · rfl

theorem declare (holds : scope.Holds history) {declared : List Declaration}
    (done : scope.declare declared = .ok after) : after.Holds (declared.reverse ++ history) := by
  induction declared generalizing scope history with
  | nil =>
      cases done
      exact holds
  | cons declaration rest inductionHypothesis =>
      rcases bind_eq_ok.mp done with ⟨next, defines, more⟩
      rw [List.reverse_cons, List.append_assoc]
      exact inductionHypothesis (holds.define defines) more

/-- There is a cell for each of the declarations if there is one for the last of every kind. -/
theorem exists_declare (holds : scope.Holds history) {declared : List Declaration}
    (few : ∀ kind, number history kind + number declared kind < UInt16.size) :
    ∃ after, scope.declare declared = .ok after := by
  induction declared generalizing scope history with
  | nil => exact ⟨scope, rfl⟩
  | cons declaration rest inductionHypothesis =>
      have room : (scope.count declaration.kind).toNat + 1 < UInt16.size := by
        have enough := few declaration.kind
        rw [number_cons, if_pos rfl] at enough
        rw [holds.count]
        omega
      have defines : (scope.define declaration.name declaration.type declaration.kind).map Prod.snd =
          .ok _ := congrArg (Except.map Prod.snd) (define_eq_ok.mpr ⟨room, rfl, rfl⟩)
      have fewer (kind : VariableKind) :
          number (declaration :: history) kind + number rest kind < UInt16.size := by
        have enough := few kind
        rw [number_cons] at enough ⊢
        omega
      rcases inductionHypothesis (holds.define defines) fewer with ⟨after, done⟩
      exact ⟨after, bind_eq_ok.mpr ⟨_, defines, done⟩⟩

/-- The word that counts the variables of a kind holds exactly their number. -/
theorem count_eq_ofNat {declared : List Declaration} (holds : scope.Holds declared.reverse)
    (kind : VariableKind) : scope.count kind = UInt16.ofNat (number declared kind) := by
  rw [← number_reverse, ← holds.count kind, UInt16.ofNat_toNat]

end Holds
end Scope

/-! ## Classes and subroutines -/

/-- The kind of the variables that a class declares. -/
def ClassVariableKind.kind : ClassVariableKind -> VariableKind
  | .static => .static
  | .field => .field

/-- What a class declares, in order. -/
def Class.declared (tree : Class) : List Declaration :=
  tree.declarations.flatMap fun declared =>
    declared.names.map (⟨declared.kind.kind, declared.type.text, ·⟩)

/-- What a subroutine of a class declares, in order.  A method begins with the object that it is called
on. -/
def Subroutine.declared (className : String) (routine : Subroutine) : List Declaration :=
  (receiverNames routine.kind).map (⟨.argument, className, ·⟩) ++
    (routine.parameters.map fun parameter =>
      ⟨.argument, parameter.type.text, parameter.name⟩) ++
    routine.locals.flatMap fun declared =>
      declared.names.map (⟨.«local», declared.type.text, ·⟩)

theorem Class.kind_of_mem_declared {tree : Class} {declaration : Declaration}
    (member : declaration ∈ tree.declared) :
    declaration.kind = .static ∨ declaration.kind = .field := by
  obtain ⟨declared, -, inside⟩ := List.mem_flatMap.mp member
  obtain ⟨name, -, rfl⟩ := List.mem_map.mp inside
  cases declared.kind with
  | static => exact .inl rfl
  | field => exact .inr rfl

theorem Subroutine.kind_of_mem_declared {className : String} {routine : Subroutine}
    {declaration : Declaration} (member : declaration ∈ routine.declared className) :
    declaration.kind = .argument ∨ declaration.kind = .«local» := by
  rcases List.mem_append.mp member with ofHead | ofLocal
  · rcases List.mem_append.mp ofHead with receiver | parameter
    · obtain ⟨name, -, rfl⟩ := List.mem_map.mp receiver
      exact .inl rfl
    · obtain ⟨name, -, rfl⟩ := List.mem_map.mp parameter
      exact .inl rfl
  · obtain ⟨declared, -, inside⟩ := List.mem_flatMap.mp ofLocal
    obtain ⟨name, -, rfl⟩ := List.mem_map.mp inside
    exact .inr rfl

theorem classScope_eq_declare (tree : Class) :
    Code.classScope tree.declarations = Scope.empty.declare tree.declared := by
  have kinds (kind : ClassVariableKind) : Code.declaredKind kind = kind.kind := by
    cases kind <;> rfl
  unfold Code.classScope Code.declareClass
  simp only [Scope.defineAll_eq_declare, kinds]
  exact Scope.foldlM_declare _ _ _

theorem subroutineScope_eq_declare (className : String) (routine : Subroutine) :
    Code.subroutineScope className routine =
      Scope.empty.declare (routine.declared className) := by
  unfold Code.subroutineScope Code.declareSubroutine Subroutine.declared
  rw [Scope.declare_append, Scope.declare_append, bind_assoc,
    List.map_eq_flatMap (l := routine.parameters)]
  simp only [Scope.defineAll_eq_declare, Scope.foldlM_declare]
  cases routine.kind with
  | _ => rfl

/-- Declarations fit into a scope if no kind has more of them than cells. -/
theorem Scope.exists_declare_empty {declared : List Declaration} :
    (∃ scope, Scope.empty.declare declared = .ok scope) ↔
      ∀ kind, number declared kind < UInt16.size := by
  constructor
  · rintro ⟨scope, done⟩ kind
    have few := (Holds.empty.declare done).few kind
    rwa [List.append_nil, number_reverse] at few
  · intro few
    refine Holds.empty.exists_declare fun kind => ?_
    rw [number, List.countP_nil, Nat.zero_add]
    exact few kind

/-- Every variable of a class and of its subroutines has a cell of its own. -/
structure Class.FewVariables (tree : Class) : Prop where
  ofClass : ∀ kind, number tree.declared kind < UInt16.size
  ofSubroutine : ∀ routine ∈ tree.subroutines, ∀ kind,
    number (routine.declared tree.name) kind < UInt16.size

/-- Fewer declarations than cells are few enough of every kind. -/
theorem Class.FewVariables.of_length {tree : Class} (ofClass : tree.declared.length < UInt16.size)
    (ofSubroutine : ∀ routine ∈ tree.subroutines,
      (routine.declared tree.name).length < UInt16.size) : tree.FewVariables :=
  ⟨fun _ => Nat.lt_of_le_of_lt List.countP_le_length ofClass,
    fun routine listed _ => Nat.lt_of_le_of_lt List.countP_le_length (ofSubroutine routine listed)⟩

theorem Class.fewVariables_iff {tree : Class} : tree.FewVariables ↔
    (∃ scope, Code.classScope tree.declarations = .ok scope) ∧
      ∀ routine ∈ tree.subroutines, ∃ scope, Code.subroutineScope tree.name routine = .ok scope := by
  simp only [classScope_eq_declare, subroutineScope_eq_declare, Scope.exists_declare_empty]
  exact ⟨fun few => ⟨few.ofClass, few.ofSubroutine⟩, fun few => ⟨few.1, few.2⟩⟩

/-! ## Names -/

/-- The declarations around a piece of code, the latest in front. -/
structure Surroundings where
  ofClass : List Declaration
  ofSubroutine : List Declaration

/-- The declarations around the statements of a subroutine.  All of the class's variables are there,
wherever the class declares them. -/
def Subroutine.surroundings (tree : Class) (routine : Subroutine) : Surroundings :=
  ⟨tree.declared.reverse, (routine.declared tree.name).reverse⟩

/-- What a name means: the subroutine's variables hide those of the class. -/
def Surroundings.latest? (surroundings : Surroundings) (name : String) :
    Option (Declaration × Nat) :=
  Declaration.latest? surroundings.ofSubroutine name <|>
    Declaration.latest? surroundings.ofClass name

theorem Surroundings.latest?_cases {surroundings : Surroundings} {name : String}
    {found : Declaration × Nat} (means : surroundings.latest? name = some found) :
    Declaration.latest? surroundings.ofSubroutine name = some found ∨
      Declaration.latest? surroundings.ofClass name = some found := by
  unfold latest? at means
  cases inner : Declaration.latest? surroundings.ofSubroutine name with
  | none =>
      rw [inner] at means
      exact .inr means
  | some other =>
      rw [inner] at means
      exact .inl means

/-- Around the statements of a subroutine, a name is told by the kind and the number of what it means. -/
theorem Subroutine.latest?_inj {tree : Class} {routine : Subroutine} {name other : String}
    {first second : Declaration} {place : Nat}
    (found : (routine.surroundings tree).latest? name = some (first, place))
    (foundToo : (routine.surroundings tree).latest? other = some (second, place))
    (kinds : first.kind = second.kind) : name = other := by
  have ofSubroutine {name : String} {declaration : Declaration} {place : Nat}
      (found : Declaration.latest? (routine.declared tree.name).reverse name =
        some (declaration, place)) :=
    routine.kind_of_mem_declared (List.mem_reverse.mp (mem_of_latest? found))
  have ofClass {name : String} {declaration : Declaration} {place : Nat}
      (found : Declaration.latest? tree.declared.reverse name = some (declaration, place)) :=
    tree.kind_of_mem_declared (List.mem_reverse.mp (mem_of_latest? found))
  rcases Surroundings.latest?_cases found with here | here <;>
    rcases Surroundings.latest?_cases foundToo with there | there
  · exact Declaration.latest?_inj here there kinds
  · rcases ofSubroutine here with kind | kind <;> rcases ofClass there with other | other <;>
      simp [kind, other] at kinds
  · rcases ofClass here with kind | kind <;> rcases ofSubroutine there with other | other <;>
      simp [kind, other] at kinds
  · exact Declaration.latest?_inj here there kinds

theorem Surroundings.isSome_latest? (surroundings : Surroundings) (name : String) :
    (surroundings.latest? name).isSome ↔
      (Declaration.latest? surroundings.ofSubroutine name).isSome ∨
        (Declaration.latest? surroundings.ofClass name).isSome := by
  unfold latest?
  cases Declaration.latest? surroundings.ofSubroutine name with
  | none => simp
  | some found => simp

/-- Scopes have taken the declarations around a piece of code. -/
structure Scopes.Hold (scopes : Scopes) (surroundings : Surroundings) : Prop where
  ofClass : scopes.ofClass.Holds surroundings.ofClass
  ofSubroutine : scopes.ofSubroutine.Holds surroundings.ofSubroutine

theorem Scopes.Hold.lookup? {scopes : Scopes} {surroundings : Surroundings}
    (hold : scopes.Hold surroundings) (name : String) :
    scopes.lookup? name =
      (surroundings.latest? name).map fun found => found.1.variable found.2 := by
  unfold Scopes.lookup? Surroundings.latest?
  rw [hold.ofSubroutine.meaning, hold.ofClass.meaning]
  cases Declaration.latest? surroundings.ofSubroutine name with
  | none => rfl
  | some found => rfl

/-- Scopes have a cell for everything that a name means. -/
theorem Scopes.Hold.place_lt {scopes : Scopes} {surroundings : Surroundings}
    (hold : scopes.Hold surroundings) {name : String} {declaration : Declaration} {place : Nat}
    (found : surroundings.latest? name = some (declaration, place)) : place < UInt16.size := by
  rcases Surroundings.latest?_cases found with here | here
  · exact Nat.lt_trans (latest?_lt here) (hold.ofSubroutine.few _)
  · exact Nat.lt_trans (latest?_lt here) (hold.ofClass.few _)

/-- The scopes of a subroutine have taken what it declares and what its class declares. -/
theorem subroutine_hold {tree : Class} {routine : Subroutine} {ofClass ofSubroutine : Scope}
    (entered : Code.classScope tree.declarations = .ok ofClass)
    (begun : Code.subroutineScope tree.name routine = .ok ofSubroutine) :
    Scopes.Hold ⟨tree.name, ofClass, ofSubroutine⟩ (routine.surroundings tree) := by
  rw [classScope_eq_declare] at entered
  rw [subroutineScope_eq_declare] at begun
  have holdsClass := Scope.Holds.empty.declare entered
  have holdsSubroutine := Scope.Holds.empty.declare begun
  rw [List.append_nil] at holdsClass holdsSubroutine
  exact ⟨holdsClass, holdsSubroutine⟩

end Jack
end HackToolchain
