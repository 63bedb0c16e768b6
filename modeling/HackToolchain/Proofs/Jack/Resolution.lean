import HackToolchain.Proofs.Jack.Classes
import HackToolchain.Proofs.Jack.Declarations
import HackToolchain.Proofs.Jack.Grammar
import HackToolchain.Proofs.Token.Names

namespace HackToolchain
namespace Jack

/-!
# Which classes have code

The code of an expression or a statement looks up the variables that are used in it, in the order in
which code is written.  That is the order of the source, except that an assigned variable is looked up
behind the value it is given.  Nothing else makes an emission stop, so it stops exactly at the first use
of a variable that nothing around it declares.

What a call is made on may be a class or a variable, so that it needs no declaration.
-/

/-! ## Uses of variables -/

/-- A use of a variable, and the position to complain at. -/
structure Use where
  position : Position
  name : String
deriving DecidableEq, Repr

mutual

/-- The variables that a term reads or indexes. -/
def Term.uses : Term -> List Use
  | .integer _ _ => []
  | .string _ => []
  | .constant _ _ => []
  | .variable token => [⟨token.position, token.literal⟩]
  | .element token index => ⟨token.position, token.literal⟩ :: index.uses
  | .call target => target.uses
  | .group _ inner => inner.uses
  | .unary _ _ operand => operand.uses

/-- The variables that an expression reads or indexes. -/
def Expression.uses : Expression -> List Use
  | .term first => first.uses
  | .binary left _ right => left.uses ++ right.uses

/-- The variables that the arguments of a call read or index.  What it is made on is not among them. -/
def Call.uses : Call -> List Use
  | .mk _ _ _ values => argumentsUses values

/-- The variables that arguments read or index. -/
def argumentsUses : List Expression -> List Use
  | [] => []
  | first :: rest => first.uses ++ argumentsUses rest

end

mutual

/-- The variables that a statement assigns, reads or indexes.  A variable is assigned behind its value;
an array that is assigned to is looked up first.  Either is complained about at the statement. -/
def Statement.uses : Statement -> List Use
  | .assign token name none value => value.uses ++ [⟨token.position, name⟩]
  | .assign token name (some index) value =>
    ⟨token.position, name⟩ :: (index.uses ++ value.uses)
  | .branch _ condition consequence none => condition.uses ++ statementsUses consequence
  | .branch _ condition consequence (some alternative) =>
    condition.uses ++ (statementsUses consequence ++ statementsUses alternative)
  | .loop _ condition body => condition.uses ++ statementsUses body
  | .perform _ target => target.uses
  | .«return» _ none => []
  | .«return» _ (some value) => value.uses

/-- The variables that statements assign, read or index. -/
def statementsUses : List Statement -> List Use
  | [] => []
  | first :: rest => first.uses ++ statementsUses rest

end

/-- The variables that a subroutine assigns, reads or indexes. -/
def Subroutine.uses (routine : Subroutine) : List Use := statementsUses routine.statements

/-- A name is that of a parameter or a local variable of a subroutine, or of a variable of its class,
wherever in the class that is declared. -/
def Class.Declares (tree : Class) (routine : Subroutine) (name : String) : Prop :=
  name ∈ routine.parameters.map Parameter.name ∨
    name ∈ routine.locals.flatMap LocalVariables.names ∨
    name ∈ tree.declarations.flatMap ClassVariables.names

instance (tree : Class) (routine : Subroutine) (name : String) :
    Decidable (tree.Declares routine name) :=
  inferInstanceAs (Decidable (_ ∨ _ ∨ _))

/-- The uses of variables that are not declared, subroutine by subroutine. -/
def Class.undeclared (tree : Class) : List Use :=
  tree.subroutines.flatMap fun routine =>
    routine.uses.filter fun use => ¬ tree.Declares routine use.name

/-! ## Where an emission stops -/

/-- What looking up names comes to: the first that means nothing is complained about. -/
def Scopes.lookUp (scopes : Scopes) (uses : List Use) : Except Failure Unit :=
  match uses.find? fun use => (scopes.lookup? use.name).isNone with
  | none => .ok ()
  | some use => .error (.refused (.unresolved scopes.className use.position use.name))

theorem Scopes.lookUp_append (scopes : Scopes) (first second : List Use) :
    scopes.lookUp (first ++ second) = scopes.lookUp first >>= fun _ => scopes.lookUp second := by
  unfold lookUp
  rw [List.find?_append]
  cases first.find? fun use => (scopes.lookup? use.name).isNone with
  | none => rfl
  | some use => rfl

/-- An emission looks up names, and does not stop if all of them mean something. -/
def Looks (scopes : Scopes) (emission : Emission α) (uses : List Use) : Prop :=
  ∀ labels, ((emission labels).result.map fun _ => ()) = scopes.lookUp uses

/-- An emission that cannot stop. -/
def Emission.Succeeds (emission : Emission α) : Prop :=
  ∀ labels, ∃ value, (emission labels).result = .ok value

namespace Looks

variable {scopes : Scopes} {uses : List Use}

theorem bind {first : Emission α} {next : α -> Emission β} {rest : List Use}
    (begins : Looks scopes first uses) (goesOn : ∀ value, Looks scopes (next value) rest) :
    Looks scopes (first >>= next) (uses ++ rest) := by
  intro labels
  have same : (first >>= next) labels = Emission.andThen first next labels := rfl
  have begun := begins labels
  rw [same, Scopes.lookUp_append, ← begun]
  unfold Emission.andThen
  dsimp only
  cases (first labels).result with
  | error error => rfl
  | ok value => exact goesOn value _

theorem of_succeeds {emission : Emission α} (succeeds : emission.Succeeds) :
    Looks scopes emission [] := by
  intro labels
  rcases succeeds labels with ⟨value, result⟩
  rw [result]
  rfl

theorem emit (commands : List Vm.Command) : Looks scopes (Emission.emit commands) [] :=
  of_succeeds fun _ => ⟨(), rfl⟩

theorem freshLabel (base : LabelBase) : Looks scopes (Emission.freshLabel base) [] :=
  of_succeeds fun _ => ⟨_, rfl⟩

theorem pure (value : α) : Looks scopes (Pure.pure value) [] := of_succeeds fun _ => ⟨value, rfl⟩

/-- Something that looks up nothing may stand in front. -/
theorem behind {first : Emission α} {next : α -> Emission β} (begins : Looks scopes first [])
    (goesOn : ∀ value, Looks scopes (next value) uses) : Looks scopes (first >>= next) uses :=
  bind begins goesOn

/-- Something that looks up nothing may stand behind. -/
theorem before {first : Emission α} {next : α -> Emission β} (begins : Looks scopes first uses)
    (goesOn : ∀ value, Looks scopes (next value) []) : Looks scopes (first >>= next) uses := by
  have both := bind begins goesOn
  rwa [List.append_nil] at both

theorem resolve (name : String) (position : Position) :
    Looks scopes (scopes.resolve name position) [⟨position, name⟩] := by
  intro labels
  unfold Scopes.resolve Scopes.lookUp
  cases known : scopes.lookup? name with
  | none =>
      rw [List.find?_cons_of_pos (by simp [known])]
      rfl
  | some declared =>
      rw [List.find?_cons_of_neg (by simp [known])]
      rfl

theorem receiver (qualifier : Option String) (routine : String) :
    Looks scopes (Code.receiver scopes qualifier routine) [] := by
  unfold Code.receiver
  cases qualifier with
  | none => exact (emit _).behind fun _ => pure _
  | some name =>
      dsimp only
      cases scopes.lookup? name with
      | none => exact pure _
      | some object => exact (emit _).behind fun _ => pure _

end Looks

open Looks

mutual

theorem looks_term (scopes : Scopes) :
    (tree : Term) -> Looks scopes (Code.term scopes tree) tree.uses
  | .integer _ _ => emit _
  | .string _ => emit _
  | .constant _ _ => emit _
  | .variable token => (resolve token.literal token.position).before fun _ => emit _
  | .element token index => by
      refine (resolve token.literal token.position).bind fun _ => ?_
      refine (emit _).behind fun _ => ?_
      exact (looks_expression scopes index).before fun _ => emit _
  | .call target => looks_call scopes target
  | .group _ inner => looks_expression scopes inner
  | .unary _ _ operand => (looks_term scopes operand).before fun _ => emit _

theorem looks_expression (scopes : Scopes) :
    (tree : Expression) -> Looks scopes (Code.expression scopes tree) tree.uses
  | .term first => looks_term scopes first
  | .binary left _ right => by
      refine (looks_expression scopes left).bind fun _ => ?_
      exact (looks_term scopes right).before fun _ => emit _

theorem looks_call (scopes : Scopes) :
    (tree : Call) -> Looks scopes (Code.call scopes tree) tree.uses
  | .mk _ qualifier routine values => by
      refine (receiver qualifier routine).behind fun _ => ?_
      exact (looks_arguments scopes values).before fun _ => emit _

theorem looks_arguments (scopes : Scopes) :
    (trees : List Expression) -> Looks scopes (Code.arguments scopes trees) (argumentsUses trees)
  | [] => pure _
  | first :: rest => (looks_expression scopes first).bind fun _ => looks_arguments scopes rest

end

mutual

theorem looks_statement (scopes : Scopes) :
    (tree : Statement) -> Looks scopes (Code.statement scopes tree) tree.uses
  | .assign token name none value => by
      refine (looks_expression scopes value).bind fun _ => ?_
      exact (resolve name token.position).before fun _ => emit _
  | .assign token name (some index) value => by
      refine (resolve name token.position).bind fun _ => ?_
      refine (emit _).behind fun _ => ?_
      refine (looks_expression scopes index).bind fun _ => ?_
      refine (emit _).behind fun _ => ?_
      exact (looks_expression scopes value).before fun _ => emit _
  | .branch _ condition consequence none => by
      refine (looks_expression scopes condition).bind fun _ => ?_
      refine (emit _).behind fun _ => ?_
      refine (freshLabel .endIf).behind fun _ => ?_
      refine (emit _).behind fun _ => ?_
      exact (looks_statements scopes consequence).before fun _ => emit _
  | .branch _ condition consequence (some alternative) => by
      refine (looks_expression scopes condition).bind fun _ => ?_
      refine (emit _).behind fun _ => ?_
      refine (freshLabel .endIf).behind fun _ => ?_
      refine (freshLabel .elseIf).behind fun _ => ?_
      refine (emit _).behind fun _ => ?_
      refine (looks_statements scopes consequence).bind fun _ => ?_
      refine (emit _).behind fun _ => ?_
      exact (looks_statements scopes alternative).before fun _ => emit _
  | .loop _ condition body => by
      refine (freshLabel .beginWhile).behind fun _ => ?_
      refine (freshLabel .endWhile).behind fun _ => ?_
      refine (emit _).behind fun _ => ?_
      refine (looks_expression scopes condition).bind fun _ => ?_
      refine (emit _).behind fun _ => ?_
      exact (looks_statements scopes body).before fun _ => emit _
  | .perform _ target => (looks_call scopes target).before fun _ => emit _
  | .«return» _ none => emit _
  | .«return» _ (some value) => (looks_expression scopes value).before fun _ => emit _

theorem looks_statements (scopes : Scopes) :
    (trees : List Statement) -> Looks scopes (Code.statements scopes trees) (statementsUses trees)
  | [] => pure _
  | first :: rest => (looks_statement scopes first).bind fun _ => looks_statements scopes rest

end

theorem looks_body (scopes : Scopes) (routine : Subroutine) :
    Looks scopes (Code.body scopes routine) routine.uses :=
  (emit _).behind fun _ => looks_statements scopes routine.statements

/-! ## Names that are declared -/

/-- What uses come to that are not declared: the first is complained about. -/
def Class.complaint (tree : Class) : List Use -> Except Failure Unit
  | [] => .ok ()
  | use :: _ => .error (.refused (.unresolved tree.name use.position use.name))

theorem Class.complaint_append (tree : Class) (first second : List Use) :
    tree.complaint (first ++ second) =
      tree.complaint first >>= fun _ => tree.complaint second := by
  cases first with
  | nil => rfl
  | cons use rest => rfl

/-- What looking up names comes to is what those come to that mean nothing. -/
theorem lookUp_eq_complaint {tree : Class} {scopes : Scopes} (name : scopes.className = tree.name)
    {uses : List Use} {known : Use -> Bool}
    (knows : ∀ use ∈ uses, (scopes.lookup? use.name).isSome = known use) :
    scopes.lookUp uses = tree.complaint (uses.filter fun use => !known use) := by
  have same : (uses.filter fun use => (scopes.lookup? use.name).isNone) =
      uses.filter fun use => !known use := by
    apply List.filter_congr
    intro use member
    rw [← knows use member, Option.not_isSome]
  unfold Scopes.lookUp
  rw [← List.head?_filter, same, name]
  cases uses.filter fun use => !known use with
  | nil => rfl
  | cons use rest => rfl

theorem names_declared (className : String) (routine : Subroutine) :
    (routine.declared className).map Declaration.name = receiverNames routine.kind ++
      routine.parameters.map Parameter.name ++ routine.locals.flatMap LocalVariables.names := by
  simp [Subroutine.declared, List.map_flatMap, Function.comp_def]

theorem names_declaredByClass (tree : Class) :
    tree.declared.map Declaration.name = tree.declarations.flatMap ClassVariables.names := by
  simp [Class.declared, List.map_flatMap, Function.comp_def]

/-- The declarations around a subroutine's statements are its own and those of its class, and for a
method the object that it is called on. -/
theorem isSome_surroundings {tree : Class} {routine : Subroutine} {name : String}
    (isWord : name ≠ "this") :
    ((routine.surroundings tree).latest? name).isSome ↔ tree.Declares routine name := by
  have receivers : name ∉ receiverNames routine.kind := by
    cases routine.kind <;> simp [receiverNames, isWord]
  have ofSubroutine : (Declaration.latest? (routine.declared tree.name).reverse name).isSome ↔
      name ∈ (routine.declared tree.name).map Declaration.name := by
    simp [Declaration.isSome_latest?]
  have ofClass : (Declaration.latest? tree.declared.reverse name).isSome ↔
      name ∈ tree.declared.map Declaration.name := by
    simp [Declaration.isSome_latest?]
  rw [names_declared] at ofSubroutine
  rw [names_declaredByClass] at ofClass
  rw [Surroundings.isSome_latest?]
  unfold Subroutine.surroundings Class.Declares
  simp only [ofSubroutine, ofClass, List.mem_append, receivers, false_or, or_assoc]

/-- The code of a subroutine stops at the first use of a variable that is not declared. -/
theorem looks_subroutine {tree : Class} {routine : Subroutine} {ofClass ofSubroutine : Scope}
    (entered : Code.classScope tree.declarations = .ok ofClass)
    (begun : Code.subroutineScope tree.name routine = .ok ofSubroutine)
    (named : ∀ use ∈ routine.uses, use.name ≠ "this") (labels : LabelCounts) :
    ((Code.subroutine tree.name ofClass routine labels).result.map fun _ => ()) =
      tree.complaint (routine.uses.filter fun use => ¬ tree.Declares routine use.name) := by
  have hold := subroutine_hold entered begun
  have knows (use : Use) (member : use ∈ routine.uses) :
      (Scopes.lookup? ⟨tree.name, ofClass, ofSubroutine⟩ use.name).isSome =
        decide (tree.Declares routine use.name) := by
    rw [hold.lookup?, Option.isSome_map, Bool.eq_iff_iff, isSome_surroundings (named use member),
      decide_eq_true_eq]
  have looks := looks_body ⟨tree.name, ofClass, ofSubroutine⟩ routine labels
  simp only [Code.subroutine, begun, decide_not]
  rw [looks, lookUp_eq_complaint rfl knows]

/-- The code of subroutines stops at the first use in any of them of a variable that is not
declared. -/
theorem looks_subroutines {tree : Class} {ofClass : Scope} {routines : List Subroutine}
    (entered : Code.classScope tree.declarations = .ok ofClass)
    (begun : ∀ routine ∈ routines, ∃ scope, Code.subroutineScope tree.name routine = .ok scope)
    (named : ∀ routine ∈ routines, ∀ use ∈ routine.uses, use.name ≠ "this")
    (labels : LabelCounts) :
    ((Code.subroutines tree.name ofClass routines labels).result.map fun _ => ()) =
      tree.complaint (routines.flatMap fun routine =>
        routine.uses.filter fun use => ¬ tree.Declares routine use.name) := by
  induction routines generalizing labels with
  | nil => rfl
  | cons first rest inductionHypothesis =>
      rcases List.forall_mem_cons.mp begun with ⟨⟨scope, firstBegun⟩, restBegun⟩
      rcases List.forall_mem_cons.mp named with ⟨firstNamed, restNamed⟩
      have here := looks_subroutine entered firstBegun firstNamed labels
      rw [List.flatMap_cons, Class.complaint_append, ← here]
      change ((Emission.andThen (Code.subroutine tree.name ofClass first) fun _ =>
        Code.subroutines tree.name ofClass rest) labels).result.map _ = _
      unfold Emission.andThen
      dsimp only
      cases (Code.subroutine tree.name ofClass first labels).result with
      | error error => rfl
      | ok value => exact inductionHypothesis restBegun restNamed _

/-- A class whose variables all have cells has code unless a variable is used that is not declared. -/
theorem compileClass_complaint {tree : Class} (few : tree.FewVariables)
    (named : ∀ routine ∈ tree.subroutines, ∀ use ∈ routine.uses, use.name ≠ "this") :
    ((compileClass tree).map fun _ => ()) = tree.complaint tree.undeclared := by
  rcases Class.fewVariables_iff.mp few with ⟨⟨ofClass, entered⟩, begun⟩
  rw [compileClass_eq, entered]
  dsimp only
  rw [Class.undeclared, ← looks_subroutines entered begun named {}]
  cases (Code.subroutines tree.name ofClass tree.subroutines {}).result with
  | error error => rfl
  | ok value => rfl

/-! ## Names that are used -/

theorem mem_enclosed {token : Token} {opening closing : Mark} {inner : List Token}
    (member : token ∈ inner) : token ∈ enclosed opening inner closing :=
  List.mem_cons_of_mem _ (List.mem_append_left _ member)

theorem mem_argumentsSpelling {token : Token} {rest : List Expression}
    (member : token ∈ argumentsSpelling rest) : token ∈ otherArgumentsSpelling rest := by
  cases rest with
  | nil => exact member
  | cons first rest => exact List.mem_cons_of_mem _ member

mutual

theorem use_mem_term : (tree : Term) -> ∀ use ∈ tree.uses, .ofName use.name ∈ tree.spelling
  | .integer _ _, _, member => by cases member
  | .string _, _, member => by cases member
  | .constant _ _, _, member => by cases member
  | .variable _, use, member => by
      rw [List.mem_singleton.mp member]
      exact List.mem_singleton_self _
  | .element _ index, use, member => by
      rcases List.mem_cons.mp member with rfl | inside
      · exact List.mem_cons_self
      · exact List.mem_cons_of_mem _ (mem_enclosed (use_mem_expression index use inside))
  | .call target, use, member => use_mem_call target use member
  | .group _ inner, use, member => mem_enclosed (use_mem_expression inner use member)
  | .unary _ _ operand, use, member => List.mem_cons_of_mem _ (use_mem_term operand use member)

theorem use_mem_expression :
    (tree : Expression) -> ∀ use ∈ tree.uses, .ofName use.name ∈ tree.spelling
  | .term first, use, member => use_mem_term first use member
  | .binary left _ right, use, member => by
      rcases List.mem_append.mp member with inLeft | inRight
      · exact List.mem_append_left _ (use_mem_expression left use inLeft)
      · exact List.mem_append_right _ (List.mem_cons_of_mem _ (use_mem_term right use inRight))

theorem use_mem_call : (tree : Call) -> ∀ use ∈ tree.uses, .ofName use.name ∈ tree.spelling
  | .mk _ _ _ values, use, member =>
      List.mem_append_right _ (mem_enclosed (use_mem_arguments values use member))

theorem use_mem_arguments : (trees : List Expression) -> ∀ use ∈ argumentsUses trees,
    .ofName use.name ∈ argumentsSpelling trees
  | [], _, member => by cases member
  | first :: rest, use, member => by
      rcases List.mem_append.mp member with inFirst | inRest
      · exact List.mem_append_left _ (use_mem_expression first use inFirst)
      · exact List.mem_append_right _ (mem_argumentsSpelling (use_mem_arguments rest use inRest))

end

mutual

theorem use_mem_statement :
    (tree : Statement) -> ∀ use ∈ tree.uses, .ofName use.name ∈ tree.spelling
  | .assign _ name none value, use, member => by
      rcases List.mem_append.mp member with inValue | same
      · have inside := use_mem_expression value use inValue
        simp [Statement.spelling, inside]
      · rw [List.mem_singleton.mp same]
        simp [Statement.spelling]
  | .assign _ name (some index) value, use, member => by
      rcases List.mem_cons.mp member with rfl | member
      · simp [Statement.spelling]
      rcases List.mem_append.mp member with inIndex | inValue
      · have inside := use_mem_expression index use inIndex
        simp [Statement.spelling, indexSpelling, mem_enclosed inside]
      · have inside := use_mem_expression value use inValue
        simp [Statement.spelling, inside]
  | .branch _ condition consequence none, use, member => by
      rcases List.mem_append.mp member with inCondition | inBody
      · have inside := use_mem_expression condition use inCondition
        simp [Statement.spelling, mem_enclosed inside]
      · have inside := use_mem_statements consequence use inBody
        simp [Statement.spelling, mem_enclosed inside]
  | .branch _ condition consequence (some alternative), use, member => by
      rcases List.mem_append.mp member with inCondition | member
      · have inside := use_mem_expression condition use inCondition
        simp [Statement.spelling, mem_enclosed inside]
      rcases List.mem_append.mp member with inBody | inAlternative
      · have inside := use_mem_statements consequence use inBody
        simp [Statement.spelling, mem_enclosed inside]
      · have inside := use_mem_statements alternative use inAlternative
        simp [Statement.spelling, alternativeSpelling, mem_enclosed inside]
  | .loop _ condition body, use, member => by
      rcases List.mem_append.mp member with inCondition | inBody
      · have inside := use_mem_expression condition use inCondition
        simp [Statement.spelling, mem_enclosed inside]
      · have inside := use_mem_statements body use inBody
        simp [Statement.spelling, mem_enclosed inside]
  | .perform _ target, use, member => by
      have inside := use_mem_call target use member
      simp [Statement.spelling, inside]
  | .«return» _ none, _, member => by cases member
  | .«return» _ (some value), use, member => by
      have inside := use_mem_expression value use member
      simp [Statement.spelling, valueSpelling, inside]

theorem use_mem_statements : (trees : List Statement) -> ∀ use ∈ statementsUses trees,
    .ofName use.name ∈ statementsSpelling trees
  | [], _, member => by cases member
  | first :: rest, use, member => by
      rcases List.mem_append.mp member with inFirst | inRest
      · exact List.mem_append_left _ (use_mem_statement first use inFirst)
      · exact List.mem_append_right _ (use_mem_statements rest use inRest)

end

/-- A variable that is used in a source is written there as a name. -/
theorem isIdentifier_of_use {source : String} {tree : Class} (parsed : parse source = .ok tree)
    {routine : Subroutine} (listed : routine ∈ tree.subroutines) {use : Use}
    (member : use ∈ routine.uses) : Dialect.jack.IsIdentifier use.name := by
  rcases parse_sound parsed with ⟨-, members, -, subroutines, spelled⟩
  rw [← subroutines] at listed
  rcases List.mem_filterMap.mp listed with ⟨_, inClass, isRight⟩
  rw [Sum.getRight?_eq_some_iff] at isRight
  subst isRight
  have inBody := use_mem_statements routine.statements use member
  have inRoutine : .ofName use.name ∈ routine.spelling := by
    simp [Subroutine.spelling, enclosed, inBody]
  have inTokens : .ofName use.name ∈ (reading.stream source).tokens.map Token.unplaced := by
    rw [spelled]
    exact List.mem_cons_of_mem _ (List.mem_cons_of_mem _
      (mem_enclosed (List.mem_flatMap.mpr ⟨_, inClass, inRoutine⟩)))
  rcases List.mem_map.mp inTokens with ⟨token, inside, same⟩
  have kind : token.kind = .identifier := congrArg Token.kind same
  have literal : token.literal = use.name := congrArg Token.literal same
  rw [← literal]
  exact Reading.isIdentifier_of_mem inside kind

/-- A variable is not called as the current object is. -/
theorem ne_this_of_isIdentifier {name : String} (isIdentifier : Dialect.jack.IsIdentifier name) :
    name ≠ "this" := by
  rintro rfl
  exact absurd isIdentifier.notKeyword (by decide +kernel)

/-! ## Sources -/

theorem Class.head?_undeclared_eq_none {tree : Class} : tree.undeclared.head? = none ↔
    ∀ routine ∈ tree.subroutines, ∀ use ∈ routine.uses, tree.Declares routine use.name := by
  simp [Class.undeclared, List.head?_eq_none_iff]

/-- What becomes of a source that is read is what the uses of its variables call for. -/
theorem compile_complaint {source : String} {tree : Class} (parsed : parse source = .ok tree)
    (few : tree.FewVariables) :
    ((compile source).map fun _ => ()) = tree.complaint tree.undeclared := by
  rw [compile_of_parse_ok parsed]
  exact compileClass_complaint few fun routine listed use member =>
    ne_this_of_isIdentifier (isIdentifier_of_use parsed listed member)

/-- A source that is read, and that has cells for all its variables, has code if and only if every
variable that is assigned, read or indexed in a subroutine is declared by the subroutine or by the
class.  If there is no code, the class is refused for the first variable that is not. -/
theorem compile_resolves {source : String} {tree : Class} (parsed : parse source = .ok tree)
    (few : tree.FewVariables) :
    ((∃ commands, compile source = .ok commands) ↔
      ∀ routine ∈ tree.subroutines, ∀ use ∈ routine.uses, tree.Declares routine use.name) ∧
    ∀ failure, compile source = .error failure -> ∃ use, tree.undeclared.head? = some use ∧
      failure = .refused (.unresolved tree.name use.position use.name) := by
  have complaint := compile_complaint parsed few
  rw [← Class.head?_undeclared_eq_none]
  cases outcome : compile source with
  | ok commands =>
      rw [outcome] at complaint
      refine ⟨⟨fun _ => ?_, fun _ => ⟨commands, rfl⟩⟩, nofun⟩
      cases uses : tree.undeclared with
      | nil => rfl
      | cons use rest =>
          rw [uses] at complaint
          cases complaint
  | error error =>
      rw [outcome] at complaint
      cases uses : tree.undeclared with
      | nil =>
          rw [uses] at complaint
          cases complaint
      | cons use rest =>
          rw [uses] at complaint
          refine ⟨⟨nofun, nofun⟩, ?_⟩
          rintro _ ⟨⟩
          cases complaint
          exact ⟨use, rfl, rfl⟩

/-- A class whose method assigns a variable that is not declared, and reads a field that is declared
behind it. -/
def accountSource : String :=
  "class Account \x7b method void add(int money) \x7b let total = sum + money; return; \x7d" ++
  "  field int sum; \x7d"

theorem account_is_unresolved : ∃ tree, parse accountSource = .ok tree ∧ tree.FewVariables ∧
    compile accountSource = .error (.refused (.unresolved "Account" ⟨1, 46⟩ "total")) := by
  have shown : (parse accountSource).toOption.any (fun tree =>
      decide (tree.declared.length < UInt16.size) &&
        tree.subroutines.all (fun routine =>
          decide ((routine.declared tree.name).length < UInt16.size)) &&
        decide (tree.name = "Account") &&
        decide (tree.undeclared = [⟨⟨1, 46⟩, "total"⟩])) = true := by decide +kernel
  cases parsed : parse accountSource with
  | error diagnostics =>
      rw [parsed] at shown
      cases shown
  | ok tree =>
      rw [parsed] at shown
      simp only [Except.toOption, Option.any_some, Bool.and_eq_true, decide_eq_true_eq,
        List.all_eq_true] at shown
      obtain ⟨⟨⟨ofClass, ofSubroutine⟩, name⟩, undeclared⟩ := shown
      have few : tree.FewVariables := .of_length ofClass ofSubroutine
      obtain ⟨compiles, fails⟩ := compile_resolves parsed few
      rw [← Class.head?_undeclared_eq_none, undeclared] at compiles
      refine ⟨tree, rfl, few, ?_⟩
      cases outcome : compile accountSource with
      | ok commands => exact absurd (compiles.mp ⟨commands, outcome⟩) nofun
      | error error =>
          obtain ⟨use, first, same⟩ := fails error outcome
          rw [undeclared] at first
          cases first
          rw [same, name]

end Jack
end HackToolchain
