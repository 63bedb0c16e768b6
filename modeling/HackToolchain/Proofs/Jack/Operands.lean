import HackToolchain.Proofs.Jack.Placing
import HackToolchain.Proofs.Jack.Resolution
import HackToolchain.Proofs.Token.Writing
import HackToolchain.Proofs.Vm.Translation

namespace HackToolchain
namespace Jack

/-!
# The numbers in emitted code

Every number in the code of a class stands for a quantity: a count of variables, of arguments or of
characters, or a number of the source.  Quantities have no bound, and numbers are machine words.

Variables are counted in words, and the run ends at a variable that is one too many.  So whatever counts
variables is exact.  Arguments and characters are counted first and put into a word then, which keeps
the count up to multiples of the number of words.  Nothing keeps a count within the range of the numbers
that the stack language can write down.
-/

open Vm

/-! ## Quantities -/

/-- What a number in the code of a class stands for. -/
inductive Quantity where
  /-- The variables of a kind that were declared before a variable. -/
  | index (count : Nat)
  /-- The local variables of a subroutine. -/
  | locals (count : Nat)
  /-- The fields of a class. -/
  | fields (count : Nat)
  /-- The arguments of a call, the object that it is made on among them. -/
  | arguments (count : Nat)
  /-- The characters of a string. -/
  | length (count : Nat)
  /-- A character of a string. -/
  | character (code : Char)
  /-- A number that counts nothing. -/
  | number (value : UInt16)
deriving DecidableEq, Repr

namespace Quantity

/-- How much a quantity is. -/
def amount : Quantity -> Nat
  | .index count | .locals count | .fields count | .arguments count | .length count => count
  | .character code => code.toNat
  | .number value => value.toNat

/-- What a quantity counts, if it is a count. -/
def count? : Quantity -> Option Nat
  | .index count | .locals count | .fields count | .arguments count | .length count => some count
  | .character _ | .number _ => none

/-- The word that a quantity is put into. -/
def word (quantity : Quantity) : UInt16 := UInt16.ofNat quantity.amount

/-- What is known of a quantity in the code of a class.  Counts of variables fit into a word, numbers and
characters of the source are in the range of the stack language, and nothing bounds the count of a call's
arguments or of a string's characters. -/
def Bounded : Quantity -> Prop
  | .index count | .locals count | .fields count => count < UInt16.size
  | .arguments _ | .length _ => True
  | .character code => code.toNat < 128
  | .number value => value.toNat ≤ maxInteger

instance : DecidablePred Bounded
  | .index _ | .locals _ | .fields _ => inferInstanceAs (Decidable (_ < _))
  | .arguments _ | .length _ => inferInstanceAs (Decidable True)
  | .character _ => inferInstanceAs (Decidable (_ < _))
  | .number _ => inferInstanceAs (Decidable (_ ≤ _))

theorem amount_of_count {quantity : Quantity} {count : Nat} (counts : count ∈ quantity.count?) :
    quantity.amount = count := by
  cases quantity <;> cases counts <;> rfl

/-- Nothing but a count can be too much for the stack language. -/
theorem amount_le {quantity : Quantity} (bounded : quantity.Bounded)
    (small : ∀ count ∈ quantity.count?, count ≤ maxInteger) : quantity.amount ≤ maxInteger := by
  cases quantity with
  | character code => exact Nat.le_trans (Nat.le_of_lt bounded) (by decide)
  | number value => exact bounded
  | _ => exact small _ rfl

theorem toNat_word (quantity : Quantity) :
    quantity.word.toNat = quantity.amount % UInt16.size := UInt16.toNat_ofNat'

end Quantity

/-- The quantity that a variable's cell stands for. -/
def Surroundings.index (surroundings : Surroundings) (name : String) : List Quantity :=
  (surroundings.latest? name).toList.map fun found => .index found.2

/-- The quantities in front of a call's arguments, one if the call is made on an object. -/
def Surroundings.receiver (surroundings : Surroundings) : Option String -> List Quantity
  | none => [.number 0]
  | some name => surroundings.index name

/-- The quantities in the code of a string. -/
def stringQuantities (text : String) : List Quantity :=
  .length text.length :: .arguments 1 ::
    text.toList.flatMap fun character => [.character character, .arguments 2]

/-- The quantities in the code of a constant. -/
def Constant.quantities : Constant -> List Quantity
  | .true => [.number 1]
  | .false => [.number 0]
  | .null => [.number 0]
  | .this => [.number 0]

/-- The quantities in the code of an operator between two words. -/
def BinaryOperator.quantities : BinaryOperator -> List Quantity
  | .mul => [.arguments 2]
  | .div => [.arguments 2]
  | _ => []

section Quantities

variable (surroundings : Surroundings)

mutual

/-- The quantities in the code of a term. -/
def Term.quantities : Term -> List Quantity
  | .integer _ value => [.number value]
  | .string token => stringQuantities token.literal
  | .constant _ value => value.quantities
  | .variable token => surroundings.index token.literal
  | .element token index =>
    surroundings.index token.literal ++ (index.quantities ++ [.number 1, .number 0])
  | .call target => target.quantities
  | .group _ inner => inner.quantities
  | .unary _ _ operand => operand.quantities

/-- The quantities in the code of an expression. -/
def Expression.quantities : Expression -> List Quantity
  | .term first => first.quantities
  | .binary left operator right => left.quantities ++ (right.quantities ++ operator.quantities)

/-- The quantities in the code of a call. -/
def Call.quantities : Call -> List Quantity
  | .mk _ qualifier _ values => surroundings.receiver qualifier ++ (argumentsQuantities values ++
      [.arguments ((surroundings.receiver qualifier).length + values.length)])

/-- The quantities in the code of a call's arguments. -/
def argumentsQuantities : List Expression -> List Quantity
  | [] => []
  | first :: rest => first.quantities ++ argumentsQuantities rest

end

mutual

/-- The quantities in the code of a statement. -/
def Statement.quantities : Statement -> List Quantity
  | .assign _ name none value => value.quantities surroundings ++ surroundings.index name
  | .assign _ name (some index) value =>
    surroundings.index name ++ (index.quantities surroundings ++
      (value.quantities surroundings ++ [.number 0, .number 1, .number 0, .number 0]))
  | .branch _ condition consequence none =>
    condition.quantities surroundings ++ statementsQuantities consequence
  | .branch _ condition consequence (some alternative) =>
    condition.quantities surroundings ++
      (statementsQuantities consequence ++ statementsQuantities alternative)
  | .loop _ condition body => condition.quantities surroundings ++ statementsQuantities body
  | .perform _ target => target.quantities surroundings ++ [.number 0]
  | .«return» _ none => [.number 0]
  | .«return» _ (some value) => value.quantities surroundings

/-- The quantities in the code of statements. -/
def statementsQuantities : List Statement -> List Quantity
  | [] => []
  | first :: rest => first.quantities ++ statementsQuantities rest

end

end Quantities

/-- The quantities in the code that sets up the current object. -/
def prologueQuantities (fields : Nat) : SubroutineKind -> List Quantity
  | .constructor => [.fields fields, .arguments 1, .number 0]
  | .method => [.number 0, .number 0]
  | .function => []

/-- The quantities in the code of a subroutine. -/
def Subroutine.quantities (tree : Class) (routine : Subroutine) : List Quantity :=
  .locals (Declaration.number (routine.declared tree.name) .«local») ::
    (prologueQuantities (Declaration.number tree.declared .field) routine.kind ++
      statementsQuantities (routine.surroundings tree) routine.statements)

/-- The quantities in the code of a class. -/
def Class.quantities (tree : Class) : List Quantity :=
  tree.subroutines.flatMap fun routine => routine.quantities tree

/-! ## What emissions count -/

/-- The numbers in commands. -/
def numbers (commands : List Command) : List UInt16 := commands.filterMap Command.number?

theorem numbers_append (first second : List Command) :
    numbers (first ++ second) = numbers first ++ numbers second := List.filterMap_append

/-- An emission that does not stop has put quantities into its commands, and its value has a
property. -/
def Counts (emission : Emission α) (quantities : List Quantity) (found : α -> Prop) : Prop :=
  ∀ labels value, (emission labels).result = .ok value ->
    numbers (emission labels).commands = quantities.map Quantity.word ∧ found value

namespace Counts

variable {quantities : List Quantity}

theorem bind {first : Emission α} {next : α -> Emission β} {reads : α -> Prop} {found : β -> Prop}
    {rest : List Quantity} (begins : Counts first quantities reads)
    (goesOn : ∀ value, reads value -> Counts (next value) rest found) :
    Counts (first >>= next) (quantities ++ rest) found := by
  intro labels value
  have same : (first >>= next) labels = Emission.andThen first next labels := rfl
  rw [same]
  unfold Emission.andThen
  dsimp only
  cases result : (first labels).result with
  | error error => nofun
  | ok read =>
      intro done
      rcases begins labels read result with ⟨front, known⟩
      rcases goesOn read known (first labels).labels value done with ⟨behind, has⟩
      rw [numbers_append, front, behind, List.map_append]
      exact ⟨rfl, has⟩

/-- Something that counts nothing may stand in front. -/
theorem behind {first : Emission α} {next : α -> Emission β} {reads : α -> Prop} {found : β -> Prop}
    (begins : Counts first [] reads)
    (goesOn : ∀ value, reads value -> Counts (next value) quantities found) :
    Counts (first >>= next) quantities found :=
  bind begins goesOn

/-- Something that counts nothing may stand behind. -/
theorem before {first : Emission α} {next : α -> Emission β} {reads : α -> Prop} {found : β -> Prop}
    (begins : Counts first quantities reads) (goesOn : ∀ value, Counts (next value) [] found) :
    Counts (first >>= next) quantities found := by
  have both := bind begins fun value _ => goesOn value
  rwa [List.append_nil] at both

theorem pure {value : α} {found : α -> Prop} (has : found value) :
    Counts (Pure.pure value) [] found := by
  rintro labels _ ⟨⟩
  exact ⟨rfl, has⟩

theorem emit {commands : List Command} (same : numbers commands = quantities.map Quantity.word) :
    Counts (Emission.emit commands) quantities fun _ => True :=
  fun _ _ _ => ⟨same, True.intro⟩

theorem freshLabel (base : LabelBase) :
    Counts (Emission.freshLabel base) [] fun _ => True :=
  fun _ _ _ => ⟨rfl, True.intro⟩

variable {scopes : Scopes} {surroundings : Surroundings}

/-- A name that is resolved has a cell that its declaration numbers. -/
theorem resolve (hold : scopes.Hold surroundings) (name : String) (position : Position) :
    Counts (scopes.resolve name position) [] fun declared =>
      ∃ found, surroundings.latest? name = some found ∧ declared = found.1.variable found.2 := by
  unfold Scopes.resolve
  rw [hold.lookup?]
  cases known : surroundings.latest? name with
  | none => exact fun _ _ => nofun
  | some found => exact pure ⟨found, rfl, rfl⟩

theorem index_eq {name : String} {declared : Variable} (resolved : ∃ found,
    surroundings.latest? name = some found ∧ declared = found.1.variable found.2) :
    [declared.index] = (surroundings.index name).map Quantity.word := by
  rcases resolved with ⟨found, known, rfl⟩
  rw [Surroundings.index, known]
  rfl

/-- What a call is made on is counted as one argument if it is an object. -/
theorem receiver (hold : scopes.Hold surroundings) (qualifier : Option String) (routine : String) :
    Counts (Code.receiver scopes qualifier routine) (surroundings.receiver qualifier)
      fun target => target.2 = (surroundings.receiver qualifier).length := by
  unfold Code.receiver Surroundings.receiver
  cases qualifier with
  | none => exact (emit rfl).before fun _ => pure rfl
  | some name =>
      dsimp only
      rw [hold.lookup?, Surroundings.index]
      cases surroundings.latest? name with
      | none => exact pure rfl
      | some found => exact (emit rfl).before fun _ => pure rfl

end Counts

open Counts

theorem counts_number (value : UInt16) :
    numbers [.push .constant value] = [Quantity.number value].map Quantity.word := by
  rw [List.map_singleton, Quantity.word, Quantity.amount, UInt16.ofNat_toNat]
  rfl

theorem counts_string (text : String) :
    numbers (Code.string text) = (stringQuantities text).map Quantity.word := by
  have characters (rest : List Char) :
      numbers (rest.flatMap fun character =>
        [.push .constant (UInt16.ofNat character.toNat), .call "String.appendChar" 2]) =
      (rest.flatMap fun character => [.character character, .arguments 2]).map Quantity.word := by
    induction rest with
    | nil => rfl
    | cons first rest inductionHypothesis =>
        rw [List.flatMap_cons, List.flatMap_cons, numbers_append, inductionHypothesis,
          List.map_append]
        rfl
  have parts := characters text.toList
  unfold Code.string stringQuantities
  rw [List.map_cons, List.map_cons, ← parts]
  rfl

theorem counts_constant (value : Constant) :
    numbers (Code.constant value) = value.quantities.map Quantity.word := by
  cases value <;> rfl

theorem counts_binary (operator : BinaryOperator) :
    numbers [Code.binary operator] = operator.quantities.map Quantity.word := by
  cases operator <;> rfl

section Trees

variable {scopes : Scopes} {surroundings : Surroundings}

mutual

theorem counts_term (hold : scopes.Hold surroundings) : (tree : Term) ->
    Counts (Code.term scopes tree) (tree.quantities surroundings) fun _ => True
  | .integer _ value => emit (counts_number value)
  | .string token => emit (counts_string token.literal)
  | .constant _ value => emit (counts_constant value)
  | .variable token => (resolve hold token.literal token.position).behind fun _ resolved =>
      emit (index_eq resolved)
  | .element token index => by
      refine (resolve hold token.literal token.position).behind fun array resolved => ?_
      refine (emit (index_eq resolved) : Counts (Emission.emit [array.push]) _ _).bind
        fun _ _ => ?_
      exact (counts_expression hold index).bind fun _ _ => emit rfl
  | .call target => counts_call hold target
  | .group _ inner => counts_expression hold inner
  | .unary _ operator operand => by
      refine (counts_term hold operand).before fun _ => emit ?_
      cases operator <;> rfl

theorem counts_expression (hold : scopes.Hold surroundings) : (tree : Expression) ->
    Counts (Code.expression scopes tree) (tree.quantities surroundings) fun _ => True
  | .term first => counts_term hold first
  | .binary left operator right => by
      refine (counts_expression hold left).bind fun _ _ => ?_
      exact (counts_term hold right).bind fun _ _ => emit (counts_binary operator)

theorem counts_call (hold : scopes.Hold surroundings) : (tree : Call) ->
    Counts (Code.call scopes tree) (tree.quantities surroundings) fun _ => True
  | .mk _ qualifier routine values => by
      refine (receiver hold qualifier routine).bind fun target pushed => ?_
      refine (counts_arguments hold values).bind fun _ _ => emit ?_
      rw [← pushed]
      rfl

theorem counts_arguments (hold : scopes.Hold surroundings) : (trees : List Expression) ->
    Counts (Code.arguments scopes trees) (argumentsQuantities surroundings trees) fun _ => True
  | [] => pure True.intro
  | first :: rest =>
      (counts_expression hold first).bind fun _ _ => counts_arguments hold rest

end

mutual

theorem counts_statement (hold : scopes.Hold surroundings) : (tree : Statement) ->
    Counts (Code.statement scopes tree) (tree.quantities surroundings) fun _ => True
  | .assign token name none value => by
      refine (counts_expression hold value).bind fun _ _ => ?_
      exact (resolve hold name token.position).behind fun _ resolved => emit (index_eq resolved)
  | .assign token name (some index) value => by
      refine (resolve hold name token.position).behind fun array resolved => ?_
      refine (emit (index_eq resolved) : Counts (Emission.emit [array.push]) _ _).bind
        fun _ _ => ?_
      refine (counts_expression hold index).bind fun _ _ => ?_
      refine (emit rfl : Counts (Emission.emit [.arithmetic .add]) [] _).behind fun _ _ => ?_
      exact (counts_expression hold value).bind fun _ _ => emit rfl
  | .branch _ condition consequence none => by
      refine (counts_expression hold condition).bind fun _ _ => ?_
      refine (emit rfl : Counts _ [] _).behind fun _ _ => ?_
      refine (freshLabel .endIf).behind fun _ _ => ?_
      refine (emit rfl : Counts _ [] _).behind fun _ _ => ?_
      exact (counts_statements hold consequence).before fun _ => emit rfl
  | .branch _ condition consequence (some alternative) => by
      refine (counts_expression hold condition).bind fun _ _ => ?_
      refine (emit rfl : Counts _ [] _).behind fun _ _ => ?_
      refine (freshLabel .endIf).behind fun _ _ => ?_
      refine (freshLabel .elseIf).behind fun _ _ => ?_
      refine (emit rfl : Counts _ [] _).behind fun _ _ => ?_
      refine (counts_statements hold consequence).bind fun _ _ => ?_
      refine (emit rfl : Counts _ [] _).behind fun _ _ => ?_
      exact (counts_statements hold alternative).before fun _ => emit rfl
  | .loop _ condition body => by
      refine (freshLabel .beginWhile).behind fun _ _ => ?_
      refine (freshLabel .endWhile).behind fun _ _ => ?_
      refine (emit rfl : Counts _ [] _).behind fun _ _ => ?_
      refine (counts_expression hold condition).bind fun _ _ => ?_
      refine (emit rfl : Counts _ [] _).behind fun _ _ => ?_
      exact (counts_statements hold body).before fun _ => emit rfl
  | .perform _ target => (counts_call hold target).bind fun _ _ => emit rfl
  | .«return» _ none => emit rfl
  | .«return» _ (some value) => (counts_expression hold value).before fun _ => emit rfl

theorem counts_statements (hold : scopes.Hold surroundings) : (trees : List Statement) ->
    Counts (Code.statements scopes trees) (statementsQuantities surroundings trees) fun _ => True
  | [] => pure True.intro
  | first :: rest =>
      (counts_statement hold first).bind fun _ _ => counts_statements hold rest

end

end Trees

/-! ## What bounds quantities -/

/-- Everything that a name can mean has a cell. -/
def Surroundings.Fit (surroundings : Surroundings) : Prop :=
  ∀ name found, surroundings.latest? name = some found -> found.2 < UInt16.size

theorem Scopes.Hold.fit {scopes : Scopes} {surroundings : Surroundings}
    (hold : scopes.Hold surroundings) : surroundings.Fit := by
  intro name found known
  unfold Surroundings.latest? at known
  cases own : Declaration.latest? surroundings.ofSubroutine name with
  | some other =>
      rw [own] at known
      cases known
      exact Nat.lt_trans (Declaration.latest?_lt own) (hold.ofSubroutine.few _)
  | none =>
      rw [own] at known
      exact Nat.lt_trans (Declaration.latest?_lt known) (hold.ofClass.few _)

section Bounds

variable {surroundings : Surroundings}

theorem bounded_index (fit : surroundings.Fit) (name : String) :
    ∀ quantity ∈ surroundings.index name, quantity.Bounded := by
  unfold Surroundings.index
  cases known : surroundings.latest? name with
  | none => exact nofun
  | some found => exact List.forall_mem_singleton.mpr (fit name found known)

theorem bounded_receiver (fit : surroundings.Fit) (qualifier : Option String) :
    ∀ quantity ∈ surroundings.receiver qualifier, quantity.Bounded := by
  cases qualifier with
  | none => exact List.forall_mem_singleton.mpr (by decide)
  | some name => exact bounded_index fit name

theorem bounded_string {text : String} (ascii : ∀ character ∈ text.toList, character.toNat < 128) :
    ∀ quantity ∈ stringQuantities text, quantity.Bounded := by
  refine List.forall_mem_cons.mpr ⟨True.intro, List.forall_mem_cons.mpr ⟨True.intro, ?_⟩⟩
  intro quantity member
  rcases List.mem_flatMap.mp member with ⟨character, inText, member⟩
  rcases List.mem_cons.mp member with rfl | member
  · exact ascii character inText
  · rw [List.mem_singleton.mp member]
    exact True.intro

theorem bounded_constant (value : Constant) :
    ∀ quantity ∈ value.quantities, quantity.Bounded := by
  cases value <;> decide

theorem bounded_binary (operator : BinaryOperator) :
    ∀ quantity ∈ operator.quantities, quantity.Bounded := by
  cases operator <;> decide

mutual

theorem bounded_term (fit : surroundings.Fit) : (tree : Term) -> tree.WellFormed ->
    ∀ quantity ∈ tree.quantities surroundings, quantity.Bounded
  | .integer _ _, wellFormed => List.forall_mem_singleton.mpr wellFormed.2.2
  | .string _, wellFormed => bounded_string wellFormed.2
  | .constant _ value, _ => bounded_constant value
  | .variable token, _ => bounded_index fit token.literal
  | .element token index, wellFormed => by
      refine List.forall_mem_append.mpr ⟨bounded_index fit token.literal, ?_⟩
      exact List.forall_mem_append.mpr ⟨bounded_expression fit index wellFormed.2, by decide⟩
  | .call target, wellFormed => bounded_call fit target wellFormed
  | .group _ inner, wellFormed => bounded_expression fit inner wellFormed.2
  | .unary _ _ operand, wellFormed => bounded_term fit operand wellFormed.2

theorem bounded_expression (fit : surroundings.Fit) : (tree : Expression) -> tree.WellFormed ->
    ∀ quantity ∈ tree.quantities surroundings, quantity.Bounded
  | .term first, wellFormed => bounded_term fit first wellFormed
  | .binary left operator right, wellFormed => by
      refine List.forall_mem_append.mpr ⟨bounded_expression fit left wellFormed.1, ?_⟩
      exact List.forall_mem_append.mpr ⟨bounded_term fit right wellFormed.2, bounded_binary operator⟩

theorem bounded_call (fit : surroundings.Fit) : (tree : Call) -> tree.WellFormed ->
    ∀ quantity ∈ tree.quantities surroundings, quantity.Bounded
  | .mk _ qualifier _ values, wellFormed => by
      refine List.forall_mem_append.mpr ⟨bounded_receiver fit qualifier, ?_⟩
      refine List.forall_mem_append.mpr ⟨bounded_arguments fit values wellFormed.2, ?_⟩
      exact List.forall_mem_singleton.mpr True.intro

theorem bounded_arguments (fit : surroundings.Fit) : (trees : List Expression) ->
    argumentsWellFormed trees ->
    ∀ quantity ∈ argumentsQuantities surroundings trees, quantity.Bounded
  | [], _ => nofun
  | first :: rest, wellFormed => List.forall_mem_append.mpr
      ⟨bounded_expression fit first wellFormed.1, bounded_arguments fit rest wellFormed.2⟩

end

mutual

theorem bounded_statement (fit : surroundings.Fit) : (tree : Statement) -> tree.WellFormed ->
    ∀ quantity ∈ tree.quantities surroundings, quantity.Bounded
  | .assign _ name none value, wellFormed => List.forall_mem_append.mpr
      ⟨bounded_expression fit value wellFormed.2.2, bounded_index fit name⟩
  | .assign _ name (some index) value, wellFormed => by
      refine List.forall_mem_append.mpr ⟨bounded_index fit name, ?_⟩
      refine List.forall_mem_append.mpr
        ⟨bounded_expression fit index (wellFormed.2.1 index rfl), ?_⟩
      exact List.forall_mem_append.mpr ⟨bounded_expression fit value wellFormed.2.2, by decide⟩
  | .branch _ condition consequence none, wellFormed => List.forall_mem_append.mpr
      ⟨bounded_expression fit condition wellFormed.2.1,
        bounded_statements fit consequence wellFormed.2.2.1⟩
  | .branch _ condition consequence (some alternative), wellFormed => by
      refine List.forall_mem_append.mpr ⟨bounded_expression fit condition wellFormed.2.1, ?_⟩
      exact List.forall_mem_append.mpr ⟨bounded_statements fit consequence wellFormed.2.2.1,
        bounded_statements fit alternative wellFormed.2.2.2⟩
  | .loop _ condition body, wellFormed => List.forall_mem_append.mpr
      ⟨bounded_expression fit condition wellFormed.2.1,
        bounded_statements fit body wellFormed.2.2⟩
  | .perform _ target, wellFormed => List.forall_mem_append.mpr
      ⟨bounded_call fit target wellFormed.2, by decide⟩
  | .«return» _ none, _ => List.forall_mem_singleton.mpr (by decide)
  | .«return» _ (some value), wellFormed => bounded_expression fit value (wellFormed.2 value rfl)

theorem bounded_statements (fit : surroundings.Fit) : (trees : List Statement) ->
    statementsWellFormed trees ->
    ∀ quantity ∈ statementsQuantities surroundings trees, quantity.Bounded
  | [], _ => nofun
  | first :: rest, wellFormed => List.forall_mem_append.mpr
      ⟨bounded_statement fit first wellFormed.1, bounded_statements fit rest wellFormed.2⟩

end

end Bounds

/-! ## Classes -/

section Classes

variable {tree : Class} {ofClass : Scope}

theorem counts_prologue (fields : Nat) (kind : SubroutineKind) :
    numbers (Code.prologue (UInt16.ofNat fields) kind) =
      (prologueQuantities fields kind).map Quantity.word := by
  cases kind <;> rfl

theorem bounded_prologue {fields : Nat} (few : fields < UInt16.size) (kind : SubroutineKind) :
    ∀ quantity ∈ prologueQuantities fields kind, quantity.Bounded := by
  cases kind with
  | constructor => exact List.forall_mem_cons.mpr ⟨few, by decide⟩
  | method => exact List.forall_mem_cons.mpr ⟨by decide, List.forall_mem_singleton.mpr (by decide)⟩
  | function => exact nofun

theorem counts_subroutine (entered : Code.classScope tree.declarations = .ok ofClass)
    (routine : Subroutine) :
    Counts (Code.subroutine tree.name ofClass routine) (routine.quantities tree) fun _ => True := by
  unfold Code.subroutine
  cases begun : Code.subroutineScope tree.name routine with
  | error kind => exact fun _ _ => nofun
  | ok scope =>
      have hold := subroutine_hold entered begun
      have fields : ofClass.count .field = _ := hold.ofClass.count_eq_ofNat .field
      have locals : scope.count .«local» = _ := hold.ofSubroutine.count_eq_ofNat .«local»
      have header : numbers (.function (Code.qualified tree.name routine.name)
            (scope.count .«local») :: Code.prologue (ofClass.count .field) routine.kind) =
          (.locals (Declaration.number (routine.declared tree.name) .«local») ::
            prologueQuantities (Declaration.number tree.declared .field) routine.kind).map
              Quantity.word := by
        rw [locals, fields, List.map_cons, ← counts_prologue]
        rfl
      exact (emit header).bind fun _ _ => counts_statements hold routine.statements

theorem counts_subroutines (entered : Code.classScope tree.declarations = .ok ofClass)
    (routines : List Subroutine) :
    Counts (Code.subroutines tree.name ofClass routines)
      (routines.flatMap fun routine => routine.quantities tree) fun _ => True := by
  induction routines with
  | nil => exact pure True.intro
  | cons first rest inductionHypothesis =>
      exact (counts_subroutine entered first).bind fun _ _ => inductionHypothesis

theorem bounded_subroutine (few : tree.FewVariables) {routine : Subroutine}
    (listed : routine ∈ tree.subroutines) (wellFormed : routine.WellFormed) :
    ∀ quantity ∈ routine.quantities tree, quantity.Bounded := by
  rcases Class.fewVariables_iff.mp few with ⟨⟨ofClass, entered⟩, begun⟩
  rcases begun routine listed with ⟨scope, made⟩
  have fit := (subroutine_hold entered made).fit
  refine List.forall_mem_cons.mpr ⟨few.ofSubroutine routine listed .«local», ?_⟩
  refine List.forall_mem_append.mpr ⟨bounded_prologue (few.ofClass .field) routine.kind, ?_⟩
  exact bounded_statements fit routine.statements wellFormed.statements

theorem bounded_class (few : tree.FewVariables) (wellFormed : tree.WellFormed) :
    ∀ quantity ∈ tree.quantities, quantity.Bounded := by
  intro quantity member
  rcases List.mem_flatMap.mp member with ⟨routine, listed, member⟩
  exact bounded_subroutine few listed (wellFormed.subroutines routine listed) quantity member

theorem scopes_of_writes {className : String} {subroutines : List Subroutine}
    {labels after : LabelCounts} {commands : List Command}
    (writes : Writes (Code.subroutines className ofClass subroutines) labels commands () after) :
    ∀ routine ∈ subroutines, ∃ scope, Code.subroutineScope className routine = .ok scope := by
  induction subroutines generalizing labels commands with
  | nil => exact fun _ member => absurd member List.not_mem_nil
  | cons first rest inductionHypothesis =>
      rcases writes_bind.mp writes with ⟨⟨⟩, _, _, _, firsts, rests, -⟩
      rcases writes_subroutine firsts with ⟨scope, _, made, -, -⟩
      exact List.forall_mem_cons.mpr ⟨⟨scope, made⟩, inductionHypothesis rests⟩

/-- A class that has code has a cell for each of its variables, and the numbers in the code are its
quantities. -/
theorem numbers_of_compileClass {commands : List Command}
    (compiled : compileClass tree = .ok commands) :
    tree.FewVariables ∧ numbers commands = tree.quantities.map Quantity.word := by
  rcases compileClass_eq_ok compiled with ⟨ofClass, after, entered, writes⟩
  have result := congrArg Emitted.result writes
  have counted := (counts_subroutines entered tree.subroutines {} () result).1
  rw [writes] at counted
  exact ⟨Class.fewVariables_iff.mpr ⟨⟨ofClass, entered⟩, scopes_of_writes writes⟩, counted⟩

/-- A class that declares more variables of a kind than there are cells ends the run. -/
theorem compileClass_of_crowded {kind : VariableKind}
    (many : UInt16.size ≤ Declaration.number tree.declared kind) :
    compileClass tree = .error (.aborted .overflow) := by
  rw [compileClass_eq]
  cases entered : Code.classScope tree.declarations with
  | error abort => cases abort; rfl
  | ok scope =>
      rw [classScope_eq_declare] at entered
      have few := Scope.exists_declare_empty.mp ⟨scope, entered⟩ kind
      exact absurd few (Nat.not_lt.mpr many)

/-- Words hold small amounts exactly. -/
theorem exact_iff {quantities : List Quantity} {commands : List Command}
    (counted : numbers commands = quantities.map Quantity.word)
    (bounded : ∀ quantity ∈ quantities, quantity.Bounded) :
    ((numbers commands).map UInt16.toNat = quantities.map Quantity.amount ∧
        ∀ number ∈ numbers commands, number.toNat ≤ maxInteger) ↔
      ∀ quantity ∈ quantities, ∀ count ∈ quantity.count?, count ≤ maxInteger := by
  constructor
  · rintro ⟨same, small⟩ quantity member count counts
    have inAmounts : quantity.amount ∈ (numbers commands).map UInt16.toNat := by
      rw [same]
      exact List.mem_map_of_mem member
    rcases List.mem_map.mp inAmounts with ⟨number, inNumbers, amount⟩
    rw [← Quantity.amount_of_count counts, ← amount]
    exact small number inNumbers
  · intro few
    have small (quantity : Quantity) (member : quantity ∈ quantities) :
        quantity.amount ≤ maxInteger :=
      Quantity.amount_le (bounded quantity member) (few quantity member)
    have exactly (quantity : Quantity) (member : quantity ∈ quantities) :
        quantity.word.toNat = quantity.amount := by
      rw [quantity.toNat_word]
      exact Nat.mod_eq_of_lt (Nat.lt_of_le_of_lt (small quantity member) (by decide))
    rw [counted, List.map_map]
    refine ⟨List.map_congr_left exactly, ?_⟩
    intro number member
    rcases List.mem_map.mp member with ⟨quantity, inQuantities, rfl⟩
    rw [exactly quantity inQuantities]
    exact small quantity inQuantities

end Classes

/-! ## Sources -/

/-- A run ends only in a class that declares more variables of a kind than there are cells. -/
theorem exists_of_aborted {source : String} {abort : Abort}
    (aborted : compile source = .error (.aborted abort)) :
    ∃ tree, parse source = .ok tree ∧ ¬ tree.FewVariables := by
  cases parsed : parse source with
  | error diagnostics =>
      rw [compile_of_parse_error parsed] at aborted
      cases aborted
  | ok tree =>
      refine ⟨tree, rfl, fun few => ?_⟩
      have complaint := compile_complaint parsed few
      rw [aborted] at complaint
      cases uses : tree.undeclared with
      | nil =>
          rw [uses] at complaint
          cases complaint
      | cons use rest =>
          rw [uses] at complaint
          cases complaint

/-- Which numbers are in the code of a source.  A source has code only if each of its variables has a
cell, and the lack of one is the only reason for the run to be aborted.  The numbers in the code are
the quantities that they stand for, up to multiples of the number of words.  All quantities but the
counts of arguments and characters fit into a word, and what the source spells out is in the range of
the stack language.  So the numbers are exact and in that range if and only if all counts are. -/
theorem compile_numbers (source : String) :
    match compile source with
    | .ok commands => ∃ tree, parse source = .ok tree ∧ tree.FewVariables ∧
        (numbers commands).map UInt16.toNat =
          tree.quantities.map (fun quantity => quantity.amount % UInt16.size) ∧
        (∀ quantity ∈ tree.quantities, quantity.Bounded) ∧
        ((numbers commands).map UInt16.toNat = tree.quantities.map Quantity.amount ∧
            (∀ number ∈ numbers commands, number.toNat ≤ maxInteger) ↔
          ∀ quantity ∈ tree.quantities, ∀ count ∈ quantity.count?, count ≤ maxInteger)
    | .error (.aborted _) => ∃ tree, parse source = .ok tree ∧ ¬ tree.FewVariables
    | .error (.refused _) => True := by
  cases parsed : parse source with
  | error diagnostics =>
      rw [compile_of_parse_error parsed]
      exact True.intro
  | ok tree =>
      cases compiled : compile source with
      | ok commands =>
          have compiledTree : compileClass tree = .ok commands :=
            (compile_of_parse_ok parsed).symm.trans compiled
          rcases numbers_of_compileClass compiledTree with ⟨few, counted⟩
          have bounded := bounded_class few (parse_sound parsed).1
          have remainders : (numbers commands).map UInt16.toNat =
              tree.quantities.map fun quantity => quantity.amount % UInt16.size := by
            rw [counted, List.map_map]
            exact List.map_congr_left fun quantity _ => quantity.toNat_word
          exact ⟨tree, rfl, few, remainders, bounded, exact_iff counted bounded⟩
      | error failure =>
          cases failure with
          | refused error => exact True.intro
          | aborted abort => exact parsed ▸ exists_of_aborted compiled

/-! ## A call whose arguments are not counted

The tree of a source is known up to the places of its tokens, on which quantities do not depend. -/

section Places

variable (surroundings : Surroundings)

mutual

theorem term_quantities_unplaced : (tree : Term) ->
    tree.unplaced.quantities surroundings = tree.quantities surroundings
  | .integer _ _ => rfl
  | .string _ => rfl
  | .constant _ _ => rfl
  | .variable _ => rfl
  | .element token index => congrArg
      (fun inner => surroundings.index token.literal ++ (inner ++ [.number 1, .number 0]))
      (expression_quantities_unplaced index)
  | .call target => call_quantities_unplaced target
  | .group _ inner => expression_quantities_unplaced inner
  | .unary _ _ operand => term_quantities_unplaced operand

theorem expression_quantities_unplaced : (tree : Expression) ->
    tree.unplaced.quantities surroundings = tree.quantities surroundings
  | .term first => term_quantities_unplaced first
  | .binary left operator right => by
      rw [Expression.unplaced, Expression.quantities, Expression.quantities,
        expression_quantities_unplaced left, term_quantities_unplaced right]

theorem call_quantities_unplaced : (tree : Call) ->
    tree.unplaced.quantities surroundings = tree.quantities surroundings
  | .mk _ _ _ values => by
      rw [Call.unplaced, Call.quantities, Call.quantities, length_argumentsUnplaced,
        arguments_quantities_unplaced values]

theorem arguments_quantities_unplaced : (trees : List Expression) ->
    argumentsQuantities surroundings (argumentsUnplaced trees) =
      argumentsQuantities surroundings trees
  | [] => rfl
  | first :: rest => by
      rw [argumentsUnplaced, argumentsQuantities, argumentsQuantities,
        expression_quantities_unplaced first, arguments_quantities_unplaced rest]

end

mutual

theorem statement_quantities_unplaced : (tree : Statement) ->
    tree.unplaced.quantities surroundings = tree.quantities surroundings
  | .assign _ _ none value => congrArg (· ++ _) (expression_quantities_unplaced surroundings value)
  | .assign _ _ (some index) value => by
      rw [Statement.unplaced, Option.map_some, Statement.quantities, Statement.quantities,
        expression_quantities_unplaced surroundings index,
        expression_quantities_unplaced surroundings value]
  | .branch _ condition consequence none => by
      rw [Statement.unplaced, alternativeUnplaced, Statement.quantities, Statement.quantities,
        expression_quantities_unplaced surroundings condition,
        statements_quantities_unplaced consequence]
  | .branch _ condition consequence (some alternative) => by
      rw [Statement.unplaced, alternativeUnplaced, Statement.quantities, Statement.quantities,
        expression_quantities_unplaced surroundings condition,
        statements_quantities_unplaced consequence, statements_quantities_unplaced alternative]
  | .loop _ condition body => by
      rw [Statement.unplaced, Statement.quantities, Statement.quantities,
        expression_quantities_unplaced surroundings condition, statements_quantities_unplaced body]
  | .perform _ target => congrArg (· ++ _) (call_quantities_unplaced surroundings target)
  | .«return» _ none => rfl
  | .«return» _ (some value) => expression_quantities_unplaced surroundings value

theorem statements_quantities_unplaced : (trees : List Statement) ->
    statementsQuantities surroundings (statementsUnplaced trees) =
      statementsQuantities surroundings trees
  | [] => rfl
  | first :: rest => by
      rw [statementsUnplaced, statementsQuantities, statementsQuantities,
        statement_quantities_unplaced first, statements_quantities_unplaced rest]

end

end Places

theorem class_quantities_unplaced (tree : Class) : tree.unplaced.quantities = tree.quantities := by
  have same (routine : Subroutine) :
      routine.unplaced.quantities tree.unplaced = routine.quantities tree := by
    have name : tree.unplaced.name = tree.name := rfl
    have kind : routine.unplaced.kind = routine.kind := rfl
    have statements : routine.unplaced.statements = statementsUnplaced routine.statements := rfl
    rw [Subroutine.quantities, Subroutine.quantities, Subroutine.surroundings,
      Subroutine.surroundings, name, kind, statements, declared_unplaced, declaredByClass_unplaced,
      statements_quantities_unplaced]
  have subroutines : tree.unplaced.subroutines = tree.subroutines.map Subroutine.unplaced := rfl
  rw [Class.quantities, Class.quantities, subroutines, List.flatMap_map]
  simp only [same]

/-- A class that was written down token by token is read again, up to the places of its tokens. -/
theorem parse_spacedText {tree : Class} {tokens : List Token} (wellFormed : tree.WellFormed)
    (written : ∀ token ∈ tokens, token.IsWritten .jack) (spelled : tree.SpelledBy tokens) :
    ∃ parsed, parse (String.ofList (spacedText tokens)) = .ok parsed ∧
      parsed.unplaced = tree.unplaced := by
  refine parse_complete wellFormed ?_
  rwa [stream_spacedText reading written]

section Example

/-- The number zero. -/
def zero : Expression := .term (.integer (.ofNumber 0) 0)

/-- A call with zeros. -/
def crowdedCall (count : Nat) : Call :=
  .mk (.ofName "A") (some "A") "f" (List.replicate count zero)

/-- A function that calls itself with zeros. -/
def crowdedFunction (count : Nat) : Subroutine where
  token := .ofKeyword .function
  kind := .function
  returns := none
  name := "f"
  parameters := []
  opening := .ofMark .leftBrace
  locals := []
  statements := [
    .perform (.ofKeyword .«do») (crowdedCall count),
    .«return» (.ofKeyword .«return») none]

/-- A class with a function that calls itself with zeros. -/
def crowdedClass (count : Nat) : Class where
  token := .ofKeyword .«class»
  name := "A"
  declarations := []
  subroutines := [crowdedFunction count]

/-- The tokens of that class. -/
def crowdedTokens (count : Nat) : List Token :=
  .ofKeyword .«class» :: .ofName "A" ::
    enclosed .leftBrace (crowdedFunction count).spelling .rightBrace

/-- A source of that class, with blanks between the tokens. -/
def crowdedSource (count : Nat) : String := String.ofList (spacedText (crowdedTokens count))

theorem zeros_wellFormed (count : Nat) : argumentsWellFormed (List.replicate count zero) := by
  have one : zero.WellFormed := ⟨rfl, by decide, by decide⟩
  induction count with
  | zero => exact True.intro
  | succ count inductionHypothesis => exact ⟨one, inductionHypothesis⟩

theorem crowdedClass_wellFormed (count : Nat) : (crowdedClass count).WellFormed := by
  have none {Item : Type} {fits : Item -> Prop} : ∀ item ∈ [], fits item :=
    fun _ member => absurd member List.not_mem_nil
  refine ⟨rfl, none, List.forall_mem_singleton.mpr ⟨rfl, rfl, none, none, ?_⟩⟩
  simp only [crowdedFunction, crowdedCall, statementsWellFormed, Statement.WellFormed,
    Call.WellFormed]
  have noValue {fits : Expression -> Prop} : ∀ inner ∈ (Option.none : Option Expression), fits inner :=
    fun inner member => absurd member (Option.not_mem_none inner)
  exact ⟨⟨rfl, rfl, zeros_wellFormed count⟩, ⟨rfl, noValue⟩, True.intro⟩

theorem crowdedClass_spelledBy (count : Nat) : (crowdedClass count).SpelledBy (crowdedTokens count) :=
  ⟨[.inr (crowdedFunction count)], rfl, rfl, by simp [crowdedTokens, crowdedClass, memberSpelling]⟩

theorem zeros_written (count : Nat) :
    (∀ token ∈ argumentsSpelling (List.replicate count zero), token.IsWritten .jack) ∧
      ∀ token ∈ otherArgumentsSpelling (List.replicate count zero), token.IsWritten .jack := by
  have number : (Token.ofNumber 0).IsWritten .jack := .number 0
  have comma : (Token.ofMark .comma).IsWritten .jack := .ofMark (by decide)
  induction count with
  | zero => exact ⟨nofun, nofun⟩
  | succ count inductionHypothesis =>
      have others := inductionHypothesis.2
      exact ⟨List.forall_mem_cons.mpr ⟨number, others⟩,
        List.forall_mem_cons.mpr ⟨comma, List.forall_mem_cons.mpr ⟨number, others⟩⟩⟩

theorem crowdedTokens_written (count : Nat) :
    ∀ token ∈ crowdedTokens count, token.IsWritten .jack := by
  have zeros := (zeros_written count).1
  simp only [crowdedTokens, crowdedFunction, crowdedCall, enclosed, Subroutine.spelling, returnsToken,
    commaSeparated, List.flatMap_nil, List.nil_append, statementsSpelling, Statement.spelling,
    Call.spelling, targetSpelling, valueSpelling, List.forall_mem_cons, List.forall_mem_append,
    SubroutineKind.keyword, List.append_nil, List.not_mem_nil, IsEmpty.forall_iff, implies_true,
    and_true]
  and_intros
  all_goals first
    | exact zeros
    | exact .ofMark (by decide)
    | exact .keyword (by decide)
    | exact .name (by decide +kernel)

/-- The source is read as that class. -/
theorem parse_crowdedSource (count : Nat) : ∃ tree, parse (crowdedSource count) = .ok tree ∧
    tree.unplaced = (crowdedClass count).unplaced :=
  parse_spacedText (crowdedClass_wellFormed count) (crowdedTokens_written count)
    (crowdedClass_spelledBy count)

theorem writes_zeros (scopes : Scopes) (count : Nat) (labels : LabelCounts) :
    Writes (Code.arguments scopes (List.replicate count zero)) labels
      (List.replicate count (.push .constant 0)) () labels := by
  induction count with
  | zero => exact writes_pure.mpr ⟨rfl, rfl, rfl⟩
  | succ count inductionHypothesis =>
      exact writes_bind.mpr ⟨(), labels, [.push .constant 0], _, writes_emit.mpr ⟨rfl, rfl⟩,
        inductionHypothesis, rfl⟩

/-- The code of a function that calls itself with zeros. -/
def crowdedCode (count : Nat) : List Command :=
  .function "A.f" 0 :: (List.replicate count (.push .constant 0) ++
    [.call "A.f" (UInt16.ofNat count), .pop .temp 0, .push .constant 0, .«return»])

theorem writes_crowdedFunction (count : Nat) (labels : LabelCounts) :
    Writes (Code.subroutine "A" .empty (crowdedFunction count)) labels (crowdedCode count) ()
      labels := by
  have begun : Code.subroutineScope "A" (crowdedFunction count) = .ok .empty := rfl
  let scopes : Scopes := ⟨"A", .empty, .empty⟩
  have unknown : scopes.lookup? "A" = none := by
    unfold Scopes.lookup?
    rw [Scope.get?_empty]
    rfl
  have call : Writes (Code.call scopes (crowdedCall count)) labels
      (List.replicate count (.push .constant 0) ++ [.call "A.f" (UInt16.ofNat count)]) () labels := by
    refine writes_bind.mpr ⟨("A.f", 0), labels, [], _, ?_, ?_, rfl⟩
    · unfold Code.receiver
      dsimp only
      rw [unknown]
      exact writes_pure.mpr ⟨rfl, rfl, rfl⟩
    · refine writes_bind.mpr ⟨(), labels, _, _, writes_zeros scopes count labels, ?_, rfl⟩
      rw [List.length_replicate, Nat.zero_add]
      exact writes_emit.mpr ⟨rfl, rfl⟩
  have performs : Writes (Code.statement scopes (.perform (.ofKeyword .«do») (crowdedCall count)))
      labels (List.replicate count (.push .constant 0) ++ [.call "A.f" (UInt16.ofNat count)] ++
        [.pop .temp 0]) () labels :=
    writes_bind.mpr ⟨(), labels, _, _, call, writes_emit.mpr ⟨rfl, rfl⟩, rfl⟩
  have returns : Writes (Code.statements scopes [.«return» (.ofKeyword .«return») none]) labels
      [.push .constant 0, .«return»] () labels :=
    writes_bind.mpr ⟨(), labels, _, [], writes_emit.mpr ⟨rfl, rfl⟩, writes_pure.mpr ⟨rfl, rfl, rfl⟩,
      rfl⟩
  have statements : Writes (Code.statements scopes (crowdedFunction count).statements) labels
      (_ ++ _) () labels := writes_bind.mpr ⟨(), labels, _, _, performs, returns, rfl⟩
  unfold Code.subroutine crowdedCode
  rw [begun]
  refine writes_bind.mpr ⟨(), labels, [.function "A.f" 0], _, writes_emit.mpr ⟨rfl, rfl⟩,
    statements, ?_⟩
  simp only [List.append_assoc, List.cons_append, List.nil_append]

theorem compileClass_crowdedClass (count : Nat) :
    compileClass (crowdedClass count) = .ok (crowdedCode count) := by
  have entered : Code.classScope (crowdedClass count).declarations = .ok .empty := rfl
  have writes : Writes (Code.subroutines "A" .empty [crowdedFunction count]) {}
      (crowdedCode count ++ []) () {} :=
    writes_bind.mpr ⟨(), {}, _, [], writes_crowdedFunction count {},
      writes_pure.mpr ⟨rfl, rfl, rfl⟩, rfl⟩
  rw [List.append_nil] at writes
  have emitted : Code.subroutines (crowdedClass count).name .empty (crowdedClass count).subroutines
      {} = ⟨crowdedCode count, {}, .ok ()⟩ := writes
  rw [compileClass_eq, entered]
  dsimp only
  rw [emitted]
  rfl

theorem arguments_mem_crowdedClass (count : Nat) :
    .arguments count ∈ (crowdedClass count).quantities := by
  have surroundings : (crowdedFunction count).surroundings (crowdedClass count) = ⟨[], []⟩ := rfl
  have call : .arguments count ∈ (crowdedCall count).quantities ⟨[], []⟩ := by
    simp [crowdedCall, Call.quantities, Surroundings.receiver, Surroundings.index,
      Surroundings.latest?, Declaration.latest?]
  refine List.mem_flatMap.mpr ⟨crowdedFunction count, List.mem_singleton_self _, ?_⟩
  refine List.mem_cons_of_mem _ (List.mem_append_right _ ?_)
  rw [surroundings]
  exact List.mem_append_left _ (List.mem_append_left _ call)

/-- The number of arguments is put into a word whatever it is. -/
theorem compile_crowdedSource (count : Nat) :
    compile (crowdedSource count) = .ok (crowdedCode count) := by
  rcases parse_crowdedSource count with ⟨tree, parsed, same⟩
  have code : (compileClass tree).toOption = some (crowdedCode count) := by
    rw [← compileClass_unplaced, same, compileClass_unplaced, compileClass_crowdedClass]
    rfl
  rw [compile_of_parse_ok parsed]
  cases outcome : compileClass tree with
  | error error =>
      rw [outcome] at code
      cases code
  | ok commands =>
      rw [outcome] at code
      cases code
      rfl

/-- A call with as many arguments as there are words is a call without arguments in the code. -/
theorem crowded_call_wraps : ∃ tree commands, parse (crowdedSource 65536) = .ok tree ∧
    compile (crowdedSource 65536) = .ok commands ∧ .arguments 65536 ∈ tree.quantities ∧
    .call "A.f" 0 ∈ commands ∧
    (numbers commands).map UInt16.toNat ≠ tree.quantities.map Quantity.amount := by
  rcases parse_crowdedSource 65536 with ⟨tree, parsed, same⟩
  have counted : .arguments 65536 ∈ tree.quantities := by
    rw [← class_quantities_unplaced, same, class_quantities_unplaced]
    exact arguments_mem_crowdedClass 65536
  refine ⟨tree, _, parsed, compile_crowdedSource 65536, counted, ?_, ?_⟩
  · exact List.mem_cons_of_mem _ (List.mem_append_right _ List.mem_cons_self)
  · intro exact
    have amount : 65536 ∈ tree.quantities.map Quantity.amount := List.mem_map_of_mem counted
    rw [← exact] at amount
    rcases List.mem_map.mp amount with ⟨number, -, large⟩
    exact absurd number.toNat_lt_size (by rw [large]; decide)

end Example

/-! ## A class whose variables are not counted -/

/-- A class of static variables with one and the same name. -/
def wideClass (others : Nat) : Class where
  token := .ofKeyword .«class»
  name := "A"
  declarations := [⟨.ofKeyword .static, .static, .int, "x" :: List.replicate others "x"⟩]
  subroutines := []

/-- The tokens of that class. -/
def wideTokens (others : Nat) : List Token :=
  .ofKeyword .«class» :: .ofName "A" ::
    enclosed .leftBrace ((wideClass others).declarations.flatMap ClassVariables.spelling) .rightBrace

/-- A source of that class, with blanks between the tokens. -/
def wideSource (others : Nat) : String := String.ofList (spacedText (wideTokens others))

theorem wideTokens_written (others : Nat) : ∀ token ∈ wideTokens others, token.IsWritten .jack := by
  have names : ∀ token ∈ (List.replicate others "x").flatMap
      fun name => [Token.ofMark .comma, .ofName name], token.IsWritten .jack := by
    intro token member
    rcases List.mem_flatMap.mp member with ⟨other, listed, inside⟩
    cases List.eq_of_mem_replicate listed
    rcases List.mem_pair.mp inside with rfl | rfl
    · exact .ofMark (by decide)
    · exact .name (by decide +kernel)
  simp only [wideTokens, wideClass, enclosed, ClassVariables.spelling, typedNamesSpelling,
    commaSeparated, TypeName.token, List.flatMap_cons, List.flatMap_nil, List.append_nil,
    List.forall_mem_cons, List.forall_mem_append, List.not_mem_nil, IsEmpty.forall_iff, implies_true,
    and_true]
  and_intros
  all_goals first
    | exact names
    | exact .ofMark (by decide)
    | exact .keyword (by decide)
    | exact .name (by decide +kernel)

/-- The source is read as that class. -/
theorem parse_wideSource (others : Nat) : ∃ tree, parse (wideSource others) = .ok tree ∧
    tree.unplaced = (wideClass others).unplaced := by
  have wellFormed : (wideClass others).WellFormed :=
    ⟨rfl, List.forall_mem_singleton.mpr ⟨rfl, List.cons_ne_nil _ _⟩,
      fun _ member => absurd member List.not_mem_nil⟩
  have spelled : (wideClass others).SpelledBy (wideTokens others) :=
    ⟨(wideClass others).declarations.map .inl, rfl, rfl,
      by simp [wideTokens, wideClass, memberSpelling]⟩
  exact parse_spacedText wellFormed (wideTokens_written others) spelled

theorem number_wideClass (others : Nat) :
    Declaration.number (wideClass others).declared .static = others + 1 := by
  simp [Declaration.number, Class.declared, wideClass, ClassVariableKind.kind, List.countP_replicate]

/-- The run ends where the declarations of that class no longer have cells. -/
theorem compile_wideSource {others : Nat} (many : UInt16.size ≤ others + 1) :
    compile (wideSource others) = .error (.aborted .overflow) := by
  rcases parse_wideSource others with ⟨tree, parsed, same⟩
  have counted : Declaration.number tree.declared .static = others + 1 := by
    rw [← declaredByClass_unplaced, same, declaredByClass_unplaced, number_wideClass]
  rw [compile_of_parse_ok parsed]
  exact compileClass_of_crowded (many.trans_eq counted.symm)

end Jack
end HackToolchain
