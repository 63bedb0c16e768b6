import HackToolchain.Proofs.Jack.Linking
import HackToolchain.Proofs.Vm.Spelling

namespace HackToolchain
namespace Jack

/-!
# Names in emitted code

Emitted code can be written down as a source of the stack language, whatever class it comes from: no
name in it is lost or read as something else.  Names are made of words of the class language, which
goes without the periods and the colons of the stack language.  The name of a routine is two such words
with a period between them, and that of a label holds an underscore; no word that the stack language
reserves has either.

The words come from the tokens of the source.  They reach the code through the tree and, as the types
of variables, through the scopes.
-/

open Vm

/-! ## Words -/

/-- A name with a mark in it that no reserved word has is not reserved. -/
theorem keyword?_eq_none {dialect : Dialect} {name : String} {mark : Char}
    (member : mark ∈ name.toList) (free : ∀ keyword ∈ dialect.keywords, mark ∉ keyword.text.toList) :
    dialect.keyword? name = none := by
  unfold Dialect.keyword?
  rw [List.find?_eq_none]
  intro keyword reserved same
  rw [← beq_iff_eq.mp same] at member
  exact free keyword reserved member

/-- The name of a routine of a class. -/
theorem isIdentifier_qualified {className routine : String}
    (isWord : Dialect.jack.IsWord className.toList) (isRoutine : Dialect.jack.IsWord routine.toList) :
    Dialect.vm.IsIdentifier (Code.qualified className routine) := by
  have spelled : (Code.qualified className routine).toList =
      className.toList ++ '.' :: routine.toList := by
    simp [Code.qualified]
  constructor
  · rw [spelled]
    exact isWord.ofJack.append (List.forall_mem_cons.mpr ⟨by decide, isRoutine.ofJack.continues⟩)
  · have period : '.' ∈ (Code.qualified className routine).toList := by
      rw [spelled]
      exact List.mem_append_right _ List.mem_cons_self
    exact keyword?_eq_none period (by decide)

/-- The name of a label that the generator makes. -/
theorem isIdentifier_label (base : LabelBase) (number : Nat) :
    Dialect.vm.IsIdentifier (base.text ++ "_" ++ toString number) := by
  have spelled : (base.text ++ "_" ++ toString number).toList =
      base.text.toList ++ '_' :: (toString number).toList := by
    simp
  have isWord : Dialect.jack.IsWord base.text.toList := by cases base <;> decide +kernel
  constructor
  · rw [spelled]
    exact isWord.ofJack.append (List.forall_mem_cons.mpr ⟨by decide, Dialect.continuesName_digit⟩)
  · have underscore : '_' ∈ (base.text ++ "_" ++ toString number).toList := by
      rw [spelled]
      exact List.mem_append_right _ List.mem_cons_self
    exact keyword?_eq_none underscore (by decide)

/-- The names among the tokens are words. -/
def SpellsWords (tokens : List Token) : Prop :=
  ∀ name, Token.ofName name ∈ tokens -> Dialect.jack.IsWord name.toList

theorem SpellsWords.tail {token : Token} {rest : List Token} (words : SpellsWords (token :: rest)) :
    SpellsWords rest :=
  fun name member => words name (List.mem_cons_of_mem token member)

theorem spellsWords_append {front behind : List Token} :
    SpellsWords (front ++ behind) ↔ SpellsWords front ∧ SpellsWords behind := by
  constructor
  · intro words
    exact ⟨fun name member => words name (List.mem_append_left behind member),
      fun name member => words name (List.mem_append_right front member)⟩
  · rintro ⟨inFront, inBehind⟩ name member
    rcases List.mem_append.mp member with member | member
    · exact inFront name member
    · exact inBehind name member

theorem SpellsWords.inner {opening closing : Mark} {inner : List Token}
    (words : SpellsWords (enclosed opening inner closing)) : SpellsWords inner :=
  (spellsWords_append.mp words.tail).1

theorem SpellsWords.of_mem {spelling : α -> List Token} {items : List α} {item : α}
    (words : SpellsWords (items.flatMap spelling)) (member : item ∈ items) :
    SpellsWords (spelling item) :=
  fun name inside => words name (List.mem_flatMap.mpr ⟨item, member, inside⟩)

/-- Commas spell no names. -/
theorem SpellsWords.of_mem_commaSeparated {spelling : α -> List Token} {items : List α} {item : α}
    (words : SpellsWords (commaSeparated spelling items)) (member : item ∈ items) :
    SpellsWords (spelling item) := by
  cases items with
  | nil => cases member
  | cons first rest =>
      obtain ⟨here, others⟩ := spellsWords_append.mp words
      rcases List.mem_cons.mp member with rfl | later
      · exact here
      · exact (others.of_mem later).tail

/-! ## Scopes -/

/-- The types of all variables in the scope are words. -/
def Scope.HasTypes (scope : Scope) : Prop :=
  ∀ name declared, scope.get? name = some declared -> Dialect.jack.IsWord declared.type.toList

namespace Scope.HasTypes

variable {scope after : Scope}

theorem empty : Scope.empty.HasTypes := by
  intro name declared found
  rw [get?_empty] at found
  cases found

theorem defineAll {type : String} {kind : VariableKind} {names : List String}
    (has : scope.HasTypes) (isWord : Dialect.jack.IsWord type.toList)
    (done : scope.defineAll kind type names = .ok after) : after.HasTypes := by
  refine foldlM_keeps (fun _ scope => scope.HasTypes) ?_ names has done
  intro name rest initial next holds stepped other declared found
  rw [get?_define (defined stepped)] at found
  split at found
  · cases found
    exact isWord
  · exact holds other declared found

theorem declarations {kindOf : α -> VariableKind} {typeOf : α -> String}
    {namesOf : α -> List String} {declarations : List α} (has : scope.HasTypes)
    (words : ∀ declared ∈ declarations, Dialect.jack.IsWord (typeOf declared).toList)
    (done : declarations.foldlM (fun scope declared =>
      scope.defineAll (kindOf declared) (typeOf declared) (namesOf declared)) scope = .ok after) :
    after.HasTypes := by
  have kept := foldlM_keeps (fun rest scope => scope.HasTypes ∧
    ∀ declared ∈ rest, Dialect.jack.IsWord (typeOf declared).toList) ?_ declarations ⟨has, words⟩ done
  · exact kept.1
  · intro declared rest initial next holds stepped
    obtain ⟨isWord, others⟩ := List.forall_mem_cons.mp holds.2
    exact ⟨holds.1.defineAll isWord stepped, others⟩

end Scope.HasTypes

/-- The type that a declaration names is a word. -/
theorem isWord_declared {type : TypeName} {rest : List Token}
    (words : SpellsWords (type.token :: rest)) : Dialect.jack.IsWord type.text.toList := by
  cases type with
  | «class» name => exact words name List.mem_cons_self
  | _ => decide +kernel

theorem classScope_hasTypes {declarations : List ClassVariables} {scope : Scope}
    (words : ∀ declared ∈ declarations, SpellsWords declared.spelling)
    (done : Code.classScope declarations = .ok scope) : scope.HasTypes :=
  Scope.HasTypes.empty.declarations
    (fun declared member => isWord_declared (words declared member).tail) done

theorem subroutineScope_hasTypes {className : String} {routine : Subroutine} {scope : Scope}
    (isWord : Dialect.jack.IsWord className.toList) (words : SpellsWords routine.spelling)
    (done : Code.subroutineScope className routine = .ok scope) : scope.HasTypes := by
  obtain ⟨methods, parameters, first, second, third⟩ := subroutineScope_eq_ok done
  obtain ⟨ofParameters, ofBody⟩ := spellsWords_append.mp words.tail.tail.tail
  obtain ⟨ofLocals, -⟩ := spellsWords_append.mp ofBody.inner
  have receivers := Scope.HasTypes.empty.defineAll isWord first
  have typed : parameters.HasTypes := receivers.declarations
    (fun parameter member => isWord_declared (ofParameters.inner.of_mem_commaSeparated member)) second
  exact typed.declarations
    (fun declared member => isWord_declared (ofLocals.of_mem member).tail) third

/-! ## Emissions -/

namespace Emission

variable {known : Command -> Prop}

/-- Whatever becomes of an emission, all commands that it writes have one property, and its value, if
it has one, has another. -/
def Yields (known : Command -> Prop) (emission : Emission α) (found : α -> Prop) : Prop :=
  ∀ labels, (∀ command ∈ (emission labels).commands, known command) ∧
    ∀ value, (emission labels).result = .ok value -> found value

theorem Yields.bind {first : Emission α} {next : α -> Emission β} {reads : α -> Prop}
    {found : β -> Prop} (begins : first.Yields known reads)
    (goesOn : ∀ value, reads value -> (next value).Yields known found) :
    (first >>= next).Yields known found := by
  intro labels
  have same : (first >>= next) labels = andThen first next labels := rfl
  have begun := begins labels
  rw [same]
  unfold andThen
  dsimp only
  cases answer : (first labels).result with
  | error error => exact ⟨begun.1, nofun⟩
  | ok value =>
      have rest := goesOn value (begun.2 value answer) (first labels).labels
      exact ⟨List.forall_mem_append.mpr ⟨begun.1, rest.1⟩, rest.2⟩

theorem Yields.pure {value : α} {found : α -> Prop} (has : found value) :
    (Pure.pure value : Emission α).Yields known found := by
  intro labels
  refine ⟨nofun, ?_⟩
  rintro _ ⟨⟩
  exact has

theorem Yields.emit {commands : List Command} (all : ∀ command ∈ commands, known command) :
    (Emission.emit commands).Yields known fun _ => True :=
  fun _ => ⟨all, fun _ _ => True.intro⟩

theorem Yields.stop {found : α -> Prop} (failure : Failure) :
    (Emission.stop failure : Emission α).Yields known found :=
  fun _ => ⟨nofun, nofun⟩

theorem Yields.freshLabel (base : LabelBase) :
    (Emission.freshLabel base).Yields known fun label => Dialect.vm.IsIdentifier label := by
  intro labels
  refine ⟨nofun, ?_⟩
  rintro _ ⟨⟩
  exact isIdentifier_label base _

theorem Yields.resolve (scopes : Scopes) (name : String) (position : Position) :
    (scopes.resolve name position).Yields known fun _ => True := by
  unfold Scopes.resolve
  split
  · exact .pure True.intro
  · exact .stop _

/-- Commands without names. -/
theorem Yields.nameless {commands : List Command}
    (all : ∀ command ∈ commands, command.name? = none) :
    (Emission.emit commands).Yields Command.IsNamed fun _ => True := by
  apply Yields.emit
  intro command member name names
  rw [all command member] at names
  cases names

end Emission

/-! ## Trees -/

/-- What the scopes around a piece of code know by name are words. -/
structure Scopes.HasWords (scopes : Scopes) : Prop where
  className : Dialect.jack.IsWord scopes.className.toList
  ofClass : scopes.ofClass.HasTypes
  ofSubroutine : scopes.ofSubroutine.HasTypes

theorem Scopes.HasWords.type {scopes : Scopes} (words : scopes.HasWords) {name : String}
    {declared : Variable} (found : scopes.lookup? name = some declared) :
    Dialect.jack.IsWord declared.type.toList := by
  unfold lookup? at found
  cases here : scopes.ofSubroutine.get? name with
  | some own =>
      rw [here] at found
      cases found
      exact words.ofSubroutine name declared here
  | none =>
      rw [here] at found
      exact words.ofClass name declared found

/-- An emission writes only commands whose names can be spelled. -/
def Emission.Names (emission : Emission α) : Prop := emission.Yields Command.IsNamed fun _ => True

open Emission (Names Yields)

variable {scopes : Scopes}

theorem isNamed_of_some {command : Command} {name : String} (names : command.name? = some name)
    (isIdentifier : Dialect.vm.IsIdentifier name) : command.IsNamed := by
  intro other same
  rw [names] at same
  cases same
  exact isIdentifier

theorem names_one {command : Command} (named : command.IsNamed) : (Emission.emit [command]).Names :=
  .emit (List.forall_mem_singleton.mpr named)

theorem names_two {first second : Command} (named : first.IsNamed) (other : second.IsNamed) :
    (Emission.emit [first, second]).Names :=
  .emit (List.forall_mem_cons.mpr ⟨named, List.forall_mem_singleton.mpr other⟩)

theorem names_string (text : String) : (Emission.emit (Code.string text)).Names := by
  have new : (Command.call "String.new" 1).IsNamed := isNamed_of_some rfl (by decide +kernel)
  have append : (Command.call "String.appendChar" 2).IsNamed := isNamed_of_some rfl (by decide +kernel)
  apply Yields.emit
  refine List.forall_mem_cons.mpr ⟨nofun, List.forall_mem_cons.mpr ⟨new, ?_⟩⟩
  intro command member
  obtain ⟨character, -, member⟩ := List.mem_flatMap.mp member
  rcases List.mem_cons.mp member with rfl | member
  · exact nofun
  · exact List.mem_singleton.mp member ▸ append

theorem names_constant (value : Constant) : (Emission.emit (Code.constant value)).Names := by
  apply Yields.nameless
  cases value <;> simp [Code.constant, Command.name?]

theorem names_binary (operator : BinaryOperator) : (Emission.emit [Code.binary operator]).Names := by
  apply names_one
  cases operator with
  | mul => exact isNamed_of_some rfl (by decide +kernel)
  | div => exact isNamed_of_some rfl (by decide +kernel)
  | _ => exact nofun

theorem names_push (declared : Variable) : (Emission.emit [declared.push]).Names :=
  .nameless (List.forall_mem_singleton.mpr rfl)

/-- What a call is made on is a routine of the own class, of a variable's class or of a class that is
named. -/
theorem yields_receiver (words : scopes.HasWords) {qualifier : Option String} {routine : String}
    (spelled : SpellsWords (targetSpelling qualifier routine)) :
    (Code.receiver scopes qualifier routine).Yields Command.IsNamed
      fun target => Dialect.vm.IsIdentifier target.1 := by
  unfold Code.receiver
  cases qualifier with
  | none =>
      have isRoutine := spelled routine List.mem_cons_self
      refine (Yields.nameless (by simp [Command.name?])).bind fun _ _ => .pure ?_
      exact isIdentifier_qualified words.className isRoutine
  | some qualifier =>
      have isRoutine := spelled routine (by simp [targetSpelling])
      have isQualifier := spelled qualifier List.mem_cons_self
      dsimp only
      split
      · rename_i object found
        refine (names_push object).bind fun _ _ => .pure ?_
        exact isIdentifier_qualified (words.type found) isRoutine
      · exact .pure (isIdentifier_qualified isQualifier isRoutine)

theorem SpellsWords.others {rest : List Expression}
    (words : SpellsWords (otherArgumentsSpelling rest)) : SpellsWords (argumentsSpelling rest) := by
  cases rest with
  | nil => exact words
  | cons first rest => exact words.tail

mutual

theorem names_term (known : scopes.HasWords) :
    (tree : Term) -> SpellsWords tree.spelling -> (Code.term scopes tree).Names
  | .integer _ _, _ => .nameless (by simp [Command.name?])
  | .string token, _ => names_string token.literal
  | .constant _ value, _ => names_constant value
  | .variable _, _ => (Yields.resolve scopes _ _).bind fun declared _ => names_push declared
  | .element _ index, words => by
      refine (Yields.resolve scopes _ _).bind fun array _ => ?_
      refine (names_push array).bind fun _ _ => ?_
      refine (names_expression known index words.tail.inner).bind fun _ _ => ?_
      exact .nameless (by simp [Command.name?])
  | .call target, words => names_call known target words
  | .group _ inner, words => names_expression known inner words.inner
  | .unary _ operator operand, words => by
      refine (names_term known operand words.tail).bind fun _ _ => ?_
      exact .nameless (by cases operator <;> simp [Command.name?, Code.unary])

theorem names_expression (known : scopes.HasWords) :
    (tree : Expression) -> SpellsWords tree.spelling -> (Code.expression scopes tree).Names
  | .term first, words => names_term known first words
  | .binary left operator right, words => by
      obtain ⟨inLeft, inRight⟩ := spellsWords_append.mp words
      refine (names_expression known left inLeft).bind fun _ _ => ?_
      refine (names_term known right inRight.tail).bind fun _ _ => ?_
      exact names_binary operator

theorem names_call (known : scopes.HasWords) :
    (tree : Call) -> SpellsWords tree.spelling -> (Code.call scopes tree).Names
  | .mk _ qualifier routine values, words => by
      obtain ⟨inTarget, inArguments⟩ := spellsWords_append.mp words
      refine (yields_receiver known inTarget).bind fun target isIdentifier => ?_
      refine (names_arguments known values inArguments.inner).bind fun _ _ => ?_
      exact names_one (isNamed_of_some rfl isIdentifier)

theorem names_arguments (known : scopes.HasWords) :
    (trees : List Expression) -> SpellsWords (argumentsSpelling trees) ->
      (Code.arguments scopes trees).Names
  | [], _ => .pure True.intro
  | first :: rest, words => by
      obtain ⟨inFirst, inRest⟩ := spellsWords_append.mp words
      refine (names_expression known first inFirst).bind fun _ _ => ?_
      exact names_arguments known rest inRest.others

end

mutual

theorem names_statement (known : scopes.HasWords) :
    (tree : Statement) -> SpellsWords tree.spelling -> (Code.statement scopes tree).Names
  | .assign token name none value, words => by
      obtain ⟨-, inValue⟩ := spellsWords_append.mp words.tail.tail
      obtain ⟨inValue, -⟩ := spellsWords_append.mp inValue.tail
      refine (names_expression known value inValue).bind fun _ _ => ?_
      refine (Yields.resolve scopes name token.position).bind fun declared _ => ?_
      exact .nameless (by simp [Command.name?, Variable.pop])
  | .assign token name (some index) value, words => by
      obtain ⟨inIndex, inValue⟩ := spellsWords_append.mp words.tail.tail
      obtain ⟨inValue, -⟩ := spellsWords_append.mp inValue.tail
      refine (Yields.resolve scopes name token.position).bind fun array _ => ?_
      refine (names_push array).bind fun _ _ => ?_
      refine (names_expression known index inIndex.inner).bind fun _ _ => ?_
      refine Yields.bind (.nameless (by simp [Command.name?])) fun _ _ => ?_
      refine (names_expression known value inValue).bind fun _ _ => ?_
      exact .nameless (by simp [Command.name?])
  | .branch _ condition consequence none, words => by
      obtain ⟨inCondition, inBody⟩ := spellsWords_append.mp words.tail
      obtain ⟨inBody, -⟩ := spellsWords_append.mp inBody
      refine (names_expression known condition inCondition.inner).bind fun _ _ => ?_
      refine Yields.bind (names_one nofun) fun _ _ => ?_
      refine (Yields.freshLabel .endIf).bind fun finish isFinish => ?_
      refine (names_one (isNamed_of_some rfl isFinish)).bind fun _ _ => ?_
      refine (names_statements known consequence inBody.inner).bind fun _ _ => ?_
      exact names_one (isNamed_of_some rfl isFinish)
  | .branch _ condition consequence (some alternative), words => by
      obtain ⟨inCondition, inBodies⟩ := spellsWords_append.mp words.tail
      obtain ⟨inBody, inAlternative⟩ := spellsWords_append.mp inBodies
      refine (names_expression known condition inCondition.inner).bind fun _ _ => ?_
      refine Yields.bind (names_one nofun) fun _ _ => ?_
      refine (Yields.freshLabel .endIf).bind fun finish isFinish => ?_
      refine (Yields.freshLabel .elseIf).bind fun otherwise isOtherwise => ?_
      refine (names_one (isNamed_of_some rfl isOtherwise)).bind fun _ _ => ?_
      refine (names_statements known consequence inBody.inner).bind fun _ _ => ?_
      refine (names_two (isNamed_of_some rfl isFinish) (isNamed_of_some rfl isOtherwise)).bind
        fun _ _ => ?_
      refine (names_statements known alternative inAlternative.tail.inner).bind fun _ _ => ?_
      exact names_one (isNamed_of_some rfl isFinish)
  | .loop _ condition body, words => by
      obtain ⟨inCondition, inBody⟩ := spellsWords_append.mp words.tail
      refine (Yields.freshLabel .beginWhile).bind fun start isStart => ?_
      refine (Yields.freshLabel .endWhile).bind fun finish isFinish => ?_
      refine (names_one (isNamed_of_some rfl isStart)).bind fun _ _ => ?_
      refine (names_expression known condition inCondition.inner).bind fun _ _ => ?_
      refine (names_two ?_ (isNamed_of_some rfl isFinish)).bind fun _ _ => ?_
      · exact nofun
      refine (names_statements known body inBody.inner).bind fun _ _ => ?_
      exact names_two (isNamed_of_some rfl isStart) (isNamed_of_some rfl isFinish)
  | .perform _ target, words => by
      obtain ⟨inTarget, -⟩ := spellsWords_append.mp words.tail
      refine (names_call known target inTarget).bind fun _ _ => ?_
      exact .nameless (by simp [Command.name?])
  | .«return» _ none, _ => .nameless (by simp [Command.name?])
  | .«return» _ (some value), words => by
      obtain ⟨inValue, -⟩ := spellsWords_append.mp words.tail
      refine (names_expression known value inValue).bind fun _ _ => ?_
      exact .nameless (by simp [Command.name?])

theorem names_statements (known : scopes.HasWords) :
    (trees : List Statement) -> SpellsWords (statementsSpelling trees) ->
      (Code.statements scopes trees).Names
  | [], _ => .pure True.intro
  | first :: rest, words => by
      obtain ⟨inFirst, inRest⟩ := spellsWords_append.mp words
      refine (names_statement known first inFirst).bind fun _ _ => ?_
      exact names_statements known rest inRest

end

/-! ## Classes -/

theorem names_prologue (fields : UInt16) (kind : SubroutineKind) :
    ∀ command ∈ Code.prologue fields kind, command.IsNamed := by
  have allocate : (Command.call "Memory.alloc" 1).IsNamed := isNamed_of_some rfl (by decide +kernel)
  cases kind with
  | constructor =>
      refine List.forall_mem_cons.mpr ⟨nofun, List.forall_mem_cons.mpr ⟨allocate, ?_⟩⟩
      exact List.forall_mem_singleton.mpr nofun
  | method => exact List.forall_mem_cons.mpr ⟨nofun, List.forall_mem_singleton.mpr nofun⟩
  | function => exact nofun

theorem names_subroutine {className : String} {ofClass : Scope} {routine : Subroutine}
    (isWord : Dialect.jack.IsWord className.toList) (types : ofClass.HasTypes)
    (words : SpellsWords routine.spelling) : (Code.subroutine className ofClass routine).Names := by
  have isRoutine : Dialect.jack.IsWord routine.name.toList := words.tail.tail _ List.mem_cons_self
  obtain ⟨-, inBody⟩ := spellsWords_append.mp words.tail.tail.tail
  obtain ⟨-, inStatements⟩ := spellsWords_append.mp inBody.inner
  unfold Code.subroutine
  split
  · rename_i scope made
    refine Yields.bind (.emit (List.forall_mem_cons.mpr ⟨?_, names_prologue _ _⟩)) fun _ _ => ?_
    · exact isNamed_of_some rfl (isIdentifier_qualified isWord isRoutine)
    · exact names_statements ⟨isWord, types, subroutineScope_hasTypes isWord words made⟩
        routine.statements inStatements
  · exact .stop _

theorem names_subroutines {className : String} {ofClass : Scope}
    (isWord : Dialect.jack.IsWord className.toList) (types : ofClass.HasTypes)
    {subroutines : List Subroutine} (words : ∀ routine ∈ subroutines, SpellsWords routine.spelling) :
    (Code.subroutines className ofClass subroutines).Names := by
  induction subroutines with
  | nil => exact .pure True.intro
  | cons first rest inductionHypothesis =>
      obtain ⟨inFirst, inRest⟩ := List.forall_mem_cons.mp words
      exact (names_subroutine isWord types inFirst).bind fun _ _ => inductionHypothesis inRest

theorem spellsWords_stream (source : String) :
    SpellsWords ((reading.stream source).tokens.map Token.unplaced) := by
  intro name member
  obtain ⟨token, inside, same⟩ := List.mem_map.mp member
  have kind : token.kind = .identifier := congrArg Token.kind same
  have literal : token.literal = name := congrArg Token.literal same
  rw [← literal]
  exact (Reading.isIdentifier_of_mem inside kind).word

/-- Every name in the code of a class source is scanned as one name by the stack language. -/
theorem isNamed_of_compile {source : String} {commands : List Command}
    (compiled : compile source = .ok commands) : ∀ command ∈ commands, command.IsNamed := by
  unfold compile at compiled
  split at compiled
  · rename_i tree parsed
    obtain ⟨-, members, declarations, subroutines, spelled⟩ := parse_sound parsed
    have words := spellsWords_stream source
    rw [spelled] at words
    have inMembers (member : ClassVariables ⊕ Subroutine) (listed : member ∈ members) :
        SpellsWords (memberSpelling member) := words.tail.tail.inner.of_mem listed
    have isWord : Dialect.jack.IsWord tree.name.toList := words.tail _ List.mem_cons_self
    obtain ⟨ofClass, after, made, writes⟩ := compileClass_eq_ok compiled
    have types : ofClass.HasTypes := by
      apply classScope_hasTypes _ made
      intro declared member
      rw [← declarations] at member
      obtain ⟨_, listed, isLeft⟩ := List.mem_filterMap.mp member
      exact inMembers _ (Sum.getLeft?_eq_some_iff.mp isLeft ▸ listed)
    have routines : ∀ routine ∈ tree.subroutines, SpellsWords routine.spelling := by
      intro routine member
      rw [← subroutines] at member
      obtain ⟨_, listed, isRight⟩ := List.mem_filterMap.mp member
      exact inMembers _ (Sum.getRight?_eq_some_iff.mp isRight ▸ listed)
    have names := names_subroutines isWord types routines {}
    rw [writes] at names
    exact names.1
  · cases compiled

end Jack
end HackToolchain
