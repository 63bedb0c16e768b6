import HackToolchain.Jack.Source
import HackToolchain.Proofs.Token.Passing

namespace HackToolchain
namespace Jack

/-!
# How class trees are spelled

A tree says how it is written, token by token.  The tokens that its nodes keep say nothing more than
that, apart from positions, if they are the tokens which the nodes start with.  Then only numbers and
strings are left that a tree may hold and a source may not.

The members of a class may be written in any order in which the variables and the subroutines each
keep theirs.
-/

/-! ## Words -/

/-- The keyword of a constant. -/
def Constant.keyword : Constant -> Keyword
  | .true => .true
  | .false => .false
  | .null => .null
  | .this => .this

/-- The mark of an operator in front of a term. -/
def UnaryOperator.mark : UnaryOperator -> Mark
  | .neg => .minus
  | .not => .tilde

/-- The token of a type. -/
def TypeName.token : TypeName -> Token
  | .int => .ofKeyword .int
  | .char => .ofKeyword .char
  | .boolean => .ofKeyword .boolean
  | .«class» name => .ofName name

/-- The keyword of a declaration of class variables. -/
def ClassVariableKind.keyword : ClassVariableKind -> Keyword
  | .static => .static
  | .field => .field

/-- The keyword of a subroutine. -/
def SubroutineKind.keyword : SubroutineKind -> Keyword
  | .constructor => .constructor
  | .function => .function
  | .method => .method

/-- Items with commas between them. -/
def commaSeparated (spelling : α -> List Token) : List α -> List Token
  | [] => []
  | first :: rest => spelling first ++ rest.flatMap fun item => .ofMark .comma :: spelling item

/-- Tokens between an opening and a closing mark. -/
def enclosed (opening : Mark) (inner : List Token) (closing : Mark) : List Token :=
  .ofMark opening :: (inner ++ [.ofMark closing])

theorem length_enclosed (opening : Mark) (inner : List Token) (closing : Mark) :
    (enclosed opening inner closing).length = inner.length + 2 := by
  rw [enclosed, List.length_cons, List.length_append]
  rfl

/-! ## Spellings -/

/-- The names in front of a call's arguments. -/
def targetSpelling (qualifier : Option String) (name : String) : List Token :=
  match qualifier with
  | none => [.ofName name]
  | some qualifier => [.ofName qualifier, .ofMark .period, .ofName name]

mutual

/-- The tokens of a term. -/
def Term.spelling : Term -> List Token
  | .integer token _ => [token.unplaced]
  | .string token => [token.unplaced]
  | .constant _ value => [.ofKeyword value.keyword]
  | .variable token => [.ofName token.literal]
  | .element token index =>
    .ofName token.literal :: enclosed .leftBracket index.spelling .rightBracket
  | .call target => target.spelling
  | .group _ inner => enclosed .leftParen inner.spelling .rightParen
  | .unary _ operator operand => .ofMark operator.mark :: operand.spelling

/-- The tokens of an expression. -/
def Expression.spelling : Expression -> List Token
  | .term first => first.spelling
  | .binary left operator right => left.spelling ++ .ofMark operator.mark :: right.spelling

/-- The tokens of a call. -/
def Call.spelling : Call -> List Token
  | .mk _ qualifier name values =>
    targetSpelling qualifier name ++ enclosed .leftParen (argumentsSpelling values) .rightParen

/-- The tokens of a call's arguments. -/
def argumentsSpelling : List Expression -> List Token
  | [] => []
  | first :: rest => first.spelling ++ otherArgumentsSpelling rest

/-- The tokens of the arguments behind the first. -/
def otherArgumentsSpelling : List Expression -> List Token
  | [] => []
  | first :: rest => .ofMark .comma :: (first.spelling ++ otherArgumentsSpelling rest)

end

/-- The tokens behind the variable that is assigned to. -/
def indexSpelling : Option Expression -> List Token
  | none => []
  | some index => enclosed .leftBracket index.spelling .rightBracket

/-- The tokens of a value that is returned. -/
def valueSpelling : Option Expression -> List Token
  | none => []
  | some value => value.spelling

mutual

/-- The tokens of a statement. -/
def Statement.spelling : Statement -> List Token
  | .assign _ name index value =>
    .ofKeyword .«let» :: .ofName name :: (indexSpelling index ++
      .ofMark .equal :: (value.spelling ++ [.ofMark .semicolon]))
  | .branch _ condition consequence alternative =>
    .ofKeyword .«if» :: (enclosed .leftParen condition.spelling .rightParen ++
      (enclosed .leftBrace (statementsSpelling consequence) .rightBrace ++
        alternativeSpelling alternative))
  | .loop _ condition body =>
    .ofKeyword .«while» :: (enclosed .leftParen condition.spelling .rightParen ++
      enclosed .leftBrace (statementsSpelling body) .rightBrace)
  | .perform _ target => .ofKeyword .«do» :: (target.spelling ++ [.ofMark .semicolon])
  | .«return» _ value => .ofKeyword .«return» :: (valueSpelling value ++ [.ofMark .semicolon])

/-- The tokens of statements. -/
def statementsSpelling : List Statement -> List Token
  | [] => []
  | first :: rest => first.spelling ++ statementsSpelling rest

/-- The tokens of an alternative. -/
def alternativeSpelling : Option (List Statement) -> List Token
  | none => []
  | some statements =>
    .ofKeyword .«else» :: enclosed .leftBrace (statementsSpelling statements) .rightBrace

end

/-- The tokens of a type and the variables that are declared to have it. -/
def typedNamesSpelling (type : TypeName) (names : List String) : List Token :=
  type.token :: (commaSeparated (fun name => [.ofName name]) names ++ [.ofMark .semicolon])

/-- The tokens of a declaration of class variables. -/
def ClassVariables.spelling (declared : ClassVariables) : List Token :=
  .ofKeyword declared.kind.keyword :: typedNamesSpelling declared.type declared.names

/-- The tokens of a declaration of local variables. -/
def LocalVariables.spelling (declared : LocalVariables) : List Token :=
  .ofKeyword .var :: typedNamesSpelling declared.type declared.names

/-- The tokens of a parameter. -/
def Parameter.spelling (parameter : Parameter) : List Token :=
  [parameter.type.token, .ofName parameter.name]

/-- The token that says what a subroutine returns. -/
def returnsToken : Option TypeName -> Token
  | none => .ofKeyword .void
  | some type => type.token

/-- The tokens of a subroutine. -/
def Subroutine.spelling (routine : Subroutine) : List Token :=
  .ofKeyword routine.kind.keyword :: returnsToken routine.returns :: .ofName routine.name ::
    (enclosed .leftParen (commaSeparated Parameter.spelling routine.parameters) .rightParen ++
      enclosed .leftBrace (routine.locals.flatMap LocalVariables.spelling ++
        statementsSpelling routine.statements) .rightBrace)

/-- The tokens of a member of a class. -/
def memberSpelling : ClassVariables ⊕ Subroutine -> List Token
  | .inl declared => declared.spelling
  | .inr routine => routine.spelling

/-- The tokens spell a class. -/
def Class.SpelledBy (tree : Class) (tokens : List Token) : Prop :=
  ∃ members : List (ClassVariables ⊕ Subroutine),
    members.filterMap Sum.getLeft? = tree.declarations ∧
    members.filterMap Sum.getRight? = tree.subroutines ∧
    tokens = .ofKeyword .«class» :: .ofName tree.name ::
      enclosed .leftBrace (members.flatMap memberSpelling) .rightBrace

/-! ## Well-formed trees -/

/-- An integer constant denotes a value. -/
def Denotes (token : Token) (value : UInt16) : Prop :=
  token.kind = .integer ∧ decimalValue token.literal.toList = value.toNat ∧
    value.toNat ≤ maxInteger

mutual

/-- The nodes of a term keep the tokens that they start with, its integers denote their values and
its strings are ASCII. -/
def Term.WellFormed : Term -> Prop
  | .integer token value => Denotes token value
  | .string token => token.kind = .string ∧ ∀ character ∈ token.literal.toList,
      character.toNat < 128
  | .constant token value => token.unplaced = .ofKeyword value.keyword
  | .variable token => token.kind = .identifier
  | .element token index => token.kind = .identifier ∧ index.WellFormed
  | .call target => target.WellFormed
  | .group token inner => token.unplaced = .ofMark .leftParen ∧ inner.WellFormed
  | .unary token operator operand =>
    token.unplaced = .ofMark operator.mark ∧ operand.WellFormed

/-- The terms of an expression are well formed. -/
def Expression.WellFormed : Expression -> Prop
  | .term first => first.WellFormed
  | .binary left _ right => left.WellFormed ∧ right.WellFormed

/-- A call keeps its first name, and its arguments are well formed. -/
def Call.WellFormed : Call -> Prop
  | .mk token qualifier name values =>
    token.unplaced = .ofName (qualifier.getD name) ∧ argumentsWellFormed values

/-- The arguments of a call are well formed. -/
def argumentsWellFormed : List Expression -> Prop
  | [] => True
  | first :: rest => first.WellFormed ∧ argumentsWellFormed rest

end

mutual

/-- A statement keeps its keyword, and its parts are well formed. -/
def Statement.WellFormed : Statement -> Prop
  | .assign token _ index value =>
    token.unplaced = .ofKeyword .«let» ∧ (∀ inner ∈ index, inner.WellFormed) ∧ value.WellFormed
  | .branch token condition consequence alternative =>
    token.unplaced = .ofKeyword .«if» ∧ condition.WellFormed ∧ statementsWellFormed consequence ∧
      alternativeWellFormed alternative
  | .loop token condition body =>
    token.unplaced = .ofKeyword .«while» ∧ condition.WellFormed ∧ statementsWellFormed body
  | .perform token target => token.unplaced = .ofKeyword .«do» ∧ target.WellFormed
  | .«return» token value =>
    token.unplaced = .ofKeyword .«return» ∧ ∀ inner ∈ value, inner.WellFormed

/-- Statements are well formed. -/
def statementsWellFormed : List Statement -> Prop
  | [] => True
  | first :: rest => first.WellFormed ∧ statementsWellFormed rest

/-- An alternative is well formed. -/
def alternativeWellFormed : Option (List Statement) -> Prop
  | none => True
  | some statements => statementsWellFormed statements

end

/-- A declaration keeps its keyword and declares something. -/
def ClassVariables.WellFormed (declared : ClassVariables) : Prop :=
  declared.token.unplaced = .ofKeyword declared.kind.keyword ∧ declared.names ≠ []

/-- A declaration keeps its keyword and declares something. -/
def LocalVariables.WellFormed (declared : LocalVariables) : Prop :=
  declared.token.unplaced = .ofKeyword .var ∧ declared.names ≠ []

/-- A parameter keeps the token of its type. -/
def Parameter.WellFormed (parameter : Parameter) : Prop :=
  parameter.token.unplaced = parameter.type.token

/-- A subroutine keeps its keyword and the brace that opens its body, and its parts are well
formed. -/
structure Subroutine.WellFormed (routine : Subroutine) : Prop where
  token : routine.token.unplaced = .ofKeyword routine.kind.keyword
  opening : routine.opening.unplaced = .ofMark .leftBrace
  parameters : ∀ parameter ∈ routine.parameters, parameter.WellFormed
  locals : ∀ declared ∈ routine.locals, declared.WellFormed
  statements : statementsWellFormed routine.statements

/-- A class keeps its keyword, and its members are well formed. -/
structure Class.WellFormed (tree : Class) : Prop where
  token : tree.token.unplaced = .ofKeyword .«class»
  declarations : ∀ declared ∈ tree.declarations, declared.WellFormed
  subroutines : ∀ routine ∈ tree.subroutines, routine.WellFormed

/-! ## Trees without positions -/

mutual

/-- A term without positions. -/
def Term.unplaced : Term -> Term
  | .integer token value => .integer token.unplaced value
  | .string token => .string token.unplaced
  | .constant token value => .constant token.unplaced value
  | .variable token => .variable token.unplaced
  | .element token index => .element token.unplaced index.unplaced
  | .call target => .call target.unplaced
  | .group token inner => .group token.unplaced inner.unplaced
  | .unary token operator operand => .unary token.unplaced operator operand.unplaced

/-- An expression without positions. -/
def Expression.unplaced : Expression -> Expression
  | .term first => .term first.unplaced
  | .binary left operator right => .binary left.unplaced operator right.unplaced

/-- A call without positions. -/
def Call.unplaced : Call -> Call
  | .mk token qualifier name values => .mk token.unplaced qualifier name (argumentsUnplaced values)

/-- The arguments of a call without positions. -/
def argumentsUnplaced : List Expression -> List Expression
  | [] => []
  | first :: rest => first.unplaced :: argumentsUnplaced rest

end

mutual

/-- A statement without positions. -/
def Statement.unplaced : Statement -> Statement
  | .assign token name index value =>
    .assign token.unplaced name (index.map Expression.unplaced) value.unplaced
  | .branch token condition consequence alternative =>
    .branch token.unplaced condition.unplaced (statementsUnplaced consequence)
      (alternativeUnplaced alternative)
  | .loop token condition body =>
    .loop token.unplaced condition.unplaced (statementsUnplaced body)
  | .perform token target => .perform token.unplaced target.unplaced
  | .«return» token value => .«return» token.unplaced (value.map Expression.unplaced)

/-- Statements without positions. -/
def statementsUnplaced : List Statement -> List Statement
  | [] => []
  | first :: rest => first.unplaced :: statementsUnplaced rest

/-- An alternative without positions. -/
def alternativeUnplaced : Option (List Statement) -> Option (List Statement)
  | none => none
  | some statements => some (statementsUnplaced statements)

end

/-- A declaration without positions. -/
def ClassVariables.unplaced (declared : ClassVariables) : ClassVariables :=
  { declared with token := declared.token.unplaced }

/-- A declaration without positions. -/
def LocalVariables.unplaced (declared : LocalVariables) : LocalVariables :=
  { declared with token := declared.token.unplaced }

/-- A parameter without positions. -/
def Parameter.unplaced (parameter : Parameter) : Parameter :=
  { parameter with token := parameter.token.unplaced }

/-- A subroutine without positions. -/
def Subroutine.unplaced (routine : Subroutine) : Subroutine :=
  { routine with
    token := routine.token.unplaced
    parameters := routine.parameters.map Parameter.unplaced
    opening := routine.opening.unplaced
    locals := routine.locals.map LocalVariables.unplaced
    statements := statementsUnplaced routine.statements }

/-- A class without positions. -/
def Class.unplaced (tree : Class) : Class :=
  { tree with
    token := tree.token.unplaced
    declarations := tree.declarations.map ClassVariables.unplaced
    subroutines := tree.subroutines.map Subroutine.unplaced }

/-! ## Positions do not matter -/

mutual

theorem Term.spelling_unplaced : (tree : Term) -> tree.unplaced.spelling = tree.spelling
  | .integer _ _ => rfl
  | .string _ => rfl
  | .constant _ _ => rfl
  | .variable _ => rfl
  | .element token index =>
    congrArg (Token.ofName token.literal :: enclosed .leftBracket · .rightBracket)
      index.spelling_unplaced
  | .call target => target.spelling_unplaced
  | .group _ inner => congrArg (enclosed .leftParen · .rightParen) inner.spelling_unplaced
  | .unary _ operator operand =>
    congrArg (Token.ofMark operator.mark :: ·) operand.spelling_unplaced

theorem Expression.spelling_unplaced : (tree : Expression) -> tree.unplaced.spelling = tree.spelling
  | .term first => first.spelling_unplaced
  | .binary left operator right => by
    rw [Expression.unplaced, Expression.spelling, Expression.spelling, left.spelling_unplaced,
      right.spelling_unplaced]

theorem Call.spelling_unplaced : (tree : Call) -> tree.unplaced.spelling = tree.spelling
  | .mk _ _ _ values => by
    rw [Call.unplaced, Call.spelling, Call.spelling, argumentsSpelling_unplaced values]

theorem argumentsSpelling_unplaced : (values : List Expression) ->
    argumentsSpelling (argumentsUnplaced values) = argumentsSpelling values
  | [] => rfl
  | first :: rest => by
    rw [argumentsUnplaced, argumentsSpelling, argumentsSpelling, first.spelling_unplaced,
      otherArgumentsSpelling_unplaced rest]

theorem otherArgumentsSpelling_unplaced : (values : List Expression) ->
    otherArgumentsSpelling (argumentsUnplaced values) = otherArgumentsSpelling values
  | [] => rfl
  | first :: rest => by
    rw [argumentsUnplaced, otherArgumentsSpelling, otherArgumentsSpelling, first.spelling_unplaced,
      otherArgumentsSpelling_unplaced rest]

end

mutual

theorem Term.wellFormed_unplaced : (tree : Term) -> (tree.unplaced.WellFormed ↔ tree.WellFormed)
  | .integer _ _ => Iff.rfl
  | .string _ => Iff.rfl
  | .constant _ _ => Iff.rfl
  | .variable _ => Iff.rfl
  | .element _ index => and_congr Iff.rfl index.wellFormed_unplaced
  | .call target => target.wellFormed_unplaced
  | .group _ inner => and_congr Iff.rfl inner.wellFormed_unplaced
  | .unary _ _ operand => and_congr Iff.rfl operand.wellFormed_unplaced

theorem Expression.wellFormed_unplaced :
    (tree : Expression) -> (tree.unplaced.WellFormed ↔ tree.WellFormed)
  | .term first => first.wellFormed_unplaced
  | .binary left _ right => and_congr left.wellFormed_unplaced right.wellFormed_unplaced

theorem Call.wellFormed_unplaced : (tree : Call) -> (tree.unplaced.WellFormed ↔ tree.WellFormed)
  | .mk _ _ _ values => and_congr Iff.rfl (argumentsWellFormed_unplaced values)

theorem argumentsWellFormed_unplaced : (values : List Expression) ->
    (argumentsWellFormed (argumentsUnplaced values) ↔ argumentsWellFormed values)
  | [] => Iff.rfl
  | first :: rest => and_congr first.wellFormed_unplaced (argumentsWellFormed_unplaced rest)

end

theorem indexSpelling_unplaced (index : Option Expression) :
    indexSpelling (index.map Expression.unplaced) = indexSpelling index := by
  cases index with
  | none => rfl
  | some inner => exact congrArg (enclosed .leftBracket · .rightBracket) inner.spelling_unplaced

theorem valueSpelling_unplaced (value : Option Expression) :
    valueSpelling (value.map Expression.unplaced) = valueSpelling value := by
  cases value with
  | none => rfl
  | some inner => exact inner.spelling_unplaced

theorem optionWellFormed_unplaced (index : Option Expression) :
    (∀ inner ∈ index.map Expression.unplaced, inner.WellFormed) ↔
      ∀ inner ∈ index, inner.WellFormed := by
  cases index with
  | none => exact Iff.rfl
  | some inner => simp [inner.wellFormed_unplaced]

mutual

theorem Statement.spelling_unplaced : (tree : Statement) -> tree.unplaced.spelling = tree.spelling
  | .assign _ name index value => by
    rw [Statement.unplaced, Statement.spelling, Statement.spelling, indexSpelling_unplaced,
      value.spelling_unplaced]
  | .branch _ condition consequence alternative => by
    rw [Statement.unplaced, Statement.spelling, Statement.spelling, condition.spelling_unplaced,
      statementsSpelling_unplaced consequence, alternativeSpelling_unplaced alternative]
  | .loop _ condition body => by
    rw [Statement.unplaced, Statement.spelling, Statement.spelling, condition.spelling_unplaced,
      statementsSpelling_unplaced body]
  | .perform _ target => by
    rw [Statement.unplaced, Statement.spelling, Statement.spelling, target.spelling_unplaced]
  | .«return» _ value => by
    rw [Statement.unplaced, Statement.spelling, Statement.spelling, valueSpelling_unplaced]

theorem statementsSpelling_unplaced : (statements : List Statement) ->
    statementsSpelling (statementsUnplaced statements) = statementsSpelling statements
  | [] => rfl
  | first :: rest => by
    rw [statementsUnplaced, statementsSpelling, statementsSpelling, first.spelling_unplaced,
      statementsSpelling_unplaced rest]

theorem alternativeSpelling_unplaced : (alternative : Option (List Statement)) ->
    alternativeSpelling (alternativeUnplaced alternative) = alternativeSpelling alternative
  | none => rfl
  | some statements => by
    rw [alternativeUnplaced, alternativeSpelling, alternativeSpelling,
      statementsSpelling_unplaced statements]

end

mutual

theorem Statement.wellFormed_unplaced :
    (tree : Statement) -> (tree.unplaced.WellFormed ↔ tree.WellFormed)
  | .assign _ _ index value =>
    and_congr Iff.rfl (and_congr (optionWellFormed_unplaced index) value.wellFormed_unplaced)
  | .branch _ condition consequence alternative =>
    and_congr Iff.rfl (and_congr condition.wellFormed_unplaced
      (and_congr (statementsWellFormed_unplaced consequence)
        (alternativeWellFormed_unplaced alternative)))
  | .loop _ condition body =>
    and_congr Iff.rfl
      (and_congr condition.wellFormed_unplaced (statementsWellFormed_unplaced body))
  | .perform _ target => and_congr Iff.rfl target.wellFormed_unplaced
  | .«return» _ value => and_congr Iff.rfl (optionWellFormed_unplaced value)

theorem statementsWellFormed_unplaced : (statements : List Statement) ->
    (statementsWellFormed (statementsUnplaced statements) ↔ statementsWellFormed statements)
  | [] => Iff.rfl
  | first :: rest => and_congr first.wellFormed_unplaced (statementsWellFormed_unplaced rest)

theorem alternativeWellFormed_unplaced : (alternative : Option (List Statement)) ->
    (alternativeWellFormed (alternativeUnplaced alternative) ↔ alternativeWellFormed alternative)
  | none => Iff.rfl
  | some statements => statementsWellFormed_unplaced statements

end

theorem ClassVariables.spelling_unplaced (tree : ClassVariables) :
    tree.unplaced.spelling = tree.spelling := rfl

theorem ClassVariables.wellFormed_unplaced (tree : ClassVariables) :
    tree.unplaced.WellFormed ↔ tree.WellFormed := Iff.rfl

theorem LocalVariables.spelling_unplaced (tree : LocalVariables) :
    tree.unplaced.spelling = tree.spelling := rfl

theorem LocalVariables.wellFormed_unplaced (tree : LocalVariables) :
    tree.unplaced.WellFormed ↔ tree.WellFormed := Iff.rfl

theorem Parameter.spelling_unplaced (tree : Parameter) :
    tree.unplaced.spelling = tree.spelling := rfl

theorem Parameter.wellFormed_unplaced (tree : Parameter) :
    tree.unplaced.WellFormed ↔ tree.WellFormed := Iff.rfl

theorem forall_unplaced {fits : α -> Prop} {bare : α -> α}
    (same : ∀ item, fits (bare item) ↔ fits item) (items : List α) :
    (∀ item ∈ items.map bare, fits item) ↔ ∀ item ∈ items, fits item := by
  rw [List.forall_mem_map]
  exact forall_congr' fun item => imp_congr_right fun _ => same item

theorem flatMap_unplaced {spelling : α -> List Token} {bare : α -> α}
    (same : ∀ item, spelling (bare item) = spelling item) (items : List α) :
    (items.map bare).flatMap spelling = items.flatMap spelling := by
  rw [List.flatMap_map]
  exact congrArg (List.flatMap · items) (funext same)

theorem commaSeparated_unplaced {spelling : α -> List Token} {bare : α -> α}
    (same : ∀ item, spelling (bare item) = spelling item) (items : List α) :
    commaSeparated spelling (items.map bare) = commaSeparated spelling items := by
  cases items with
  | nil => rfl
  | cons first rest =>
      have sameBehind (item : α) : Token.ofMark .comma :: spelling (bare item) =
          .ofMark .comma :: spelling item := congrArg _ (same item)
      have behind : (rest.map bare).flatMap (fun item => .ofMark .comma :: spelling item) =
          rest.flatMap fun item => .ofMark .comma :: spelling item :=
        flatMap_unplaced sameBehind rest
      rw [List.map_cons, commaSeparated, commaSeparated, same, behind]

theorem Subroutine.spelling_unplaced (tree : Subroutine) :
    tree.unplaced.spelling = tree.spelling := by
  have parameters : commaSeparated Parameter.spelling (tree.parameters.map Parameter.unplaced) =
      commaSeparated Parameter.spelling tree.parameters :=
    commaSeparated_unplaced Parameter.spelling_unplaced tree.parameters
  have locals : (tree.locals.map LocalVariables.unplaced).flatMap LocalVariables.spelling =
      tree.locals.flatMap LocalVariables.spelling :=
    flatMap_unplaced LocalVariables.spelling_unplaced tree.locals
  have statements := statementsSpelling_unplaced tree.statements
  simp only [Subroutine.unplaced, Subroutine.spelling, parameters, locals, statements]

theorem Subroutine.wellFormed_unplaced (tree : Subroutine) :
    tree.unplaced.WellFormed ↔ tree.WellFormed := by
  have parameters := forall_unplaced Parameter.wellFormed_unplaced tree.parameters
  have locals := forall_unplaced LocalVariables.wellFormed_unplaced tree.locals
  have statements := statementsWellFormed_unplaced tree.statements
  constructor
  · intro fits
    exact ⟨fits.token, fits.opening, parameters.mp fits.parameters, locals.mp fits.locals,
      statements.mp fits.statements⟩
  · intro fits
    exact ⟨fits.token, fits.opening, parameters.mpr fits.parameters, locals.mpr fits.locals,
      statements.mpr fits.statements⟩

theorem Class.wellFormed_unplaced (tree : Class) :
    tree.unplaced.WellFormed ↔ tree.WellFormed := by
  have declarations := forall_unplaced ClassVariables.wellFormed_unplaced tree.declarations
  have subroutines := forall_unplaced Subroutine.wellFormed_unplaced tree.subroutines
  constructor
  · intro fits
    exact ⟨fits.token, declarations.mp fits.declarations, subroutines.mp fits.subroutines⟩
  · intro fits
    exact ⟨fits.token, declarations.mpr fits.declarations, subroutines.mpr fits.subroutines⟩

/-- Members without positions can be put together in the order in which they stand with them. -/
theorem exists_members {members : List (ClassVariables ⊕ Subroutine)}
    {declarations : List ClassVariables} {subroutines : List Subroutine}
    (left : (members.filterMap Sum.getLeft?).map ClassVariables.unplaced =
      declarations.map ClassVariables.unplaced)
    (right : (members.filterMap Sum.getRight?).map Subroutine.unplaced =
      subroutines.map Subroutine.unplaced) :
    ∃ others : List (ClassVariables ⊕ Subroutine), others.filterMap Sum.getLeft? = declarations ∧
      others.filterMap Sum.getRight? = subroutines ∧
      others.flatMap memberSpelling = members.flatMap memberSpelling := by
  induction members generalizing declarations subroutines with
  | nil =>
      exact ⟨[], (List.map_eq_nil_iff.mp left.symm).symm, (List.map_eq_nil_iff.mp right.symm).symm, rfl⟩
  | cons member members inductionHypothesis =>
      cases member with
      | inl declared =>
          rcases List.map_eq_cons_iff.mp left.symm with ⟨other, rest, rfl, same, left⟩
          rcases inductionHypothesis left.symm right with ⟨others, hasLeft, hasRight, spelled⟩
          refine ⟨.inl other :: others, congrArg (other :: ·) hasLeft, hasRight, ?_⟩
          have spelledFirst : other.spelling = declared.spelling := by
            rw [← other.spelling_unplaced, same, declared.spelling_unplaced]
          rw [List.flatMap_cons, List.flatMap_cons, spelled]
          exact congrArg (· ++ _) spelledFirst
      | inr routine =>
          rcases List.map_eq_cons_iff.mp right.symm with ⟨other, rest, rfl, same, right⟩
          rcases inductionHypothesis left right.symm with ⟨others, hasLeft, hasRight, spelled⟩
          refine ⟨.inr other :: others, hasLeft, congrArg (other :: ·) hasRight, ?_⟩
          have spelledFirst : other.spelling = routine.spelling := by
            rw [← other.spelling_unplaced, same, routine.spelling_unplaced]
          rw [List.flatMap_cons, List.flatMap_cons, spelled]
          exact congrArg (· ++ _) spelledFirst

/-- Classes that differ in positions only are spelled by the same tokens. -/
theorem Class.SpelledBy.of_unplaced_eq {tree other : Class} {tokens : List Token}
    (spelled : tree.SpelledBy tokens) (same : tree.unplaced = other.unplaced) :
    other.SpelledBy tokens := by
  rcases spelled with ⟨members, left, right, rfl⟩
  have name : tree.unplaced.name = other.unplaced.name := congrArg Class.name same
  have name : tree.name = other.name := name
  have declarations := congrArg Class.declarations same
  have subroutines := congrArg Class.subroutines same
  rw [Class.unplaced, Class.unplaced, ← left] at declarations
  rw [Class.unplaced, Class.unplaced, ← right] at subroutines
  rcases exists_members declarations subroutines with ⟨others, hasLeft, hasRight, spelled⟩
  exact ⟨others, hasLeft, hasRight, by rw [spelled, name]⟩

/-! ## Spelled tokens -/

/-- All tokens are plain. -/
def AllPlain (tokens : List Token) : Prop := ∀ token ∈ tokens, token.Plain

@[simp]
theorem allPlain_nil : AllPlain [] := fun _ none => absurd none List.not_mem_nil

@[simp]
theorem allPlain_cons {token : Token} {rest : List Token} :
    AllPlain (token :: rest) ↔ token.Plain ∧ AllPlain rest := List.forall_mem_cons

@[simp]
theorem allPlain_append {front behind : List Token} :
    AllPlain (front ++ behind) ↔ AllPlain front ∧ AllPlain behind := List.forall_mem_append

@[simp]
theorem allPlain_enclosed {opening closing : Mark} {inner : List Token} :
    AllPlain (enclosed opening inner closing) ↔ AllPlain inner := by
  simp [enclosed, Token.plain_ofMark]

theorem allPlain_flatMap {spelling : α -> List Token} {items : List α}
    (plain : ∀ item ∈ items, AllPlain (spelling item)) : AllPlain (items.flatMap spelling) := by
  intro token member
  rcases List.mem_flatMap.mp member with ⟨item, listed, spelled⟩
  exact plain item listed token spelled

theorem allPlain_commaSeparated {spelling : α -> List Token} {items : List α}
    (plain : ∀ item ∈ items, AllPlain (spelling item)) :
    AllPlain (commaSeparated spelling items) := by
  cases items with
  | nil => exact allPlain_nil
  | cons first rest =>
      rcases List.forall_mem_cons.mp plain with ⟨plainFirst, plainRest⟩
      refine allPlain_append.mpr ⟨plainFirst, allPlain_flatMap fun item listed => ?_⟩
      exact allPlain_cons.mpr ⟨Token.plain_ofMark .comma, plainRest item listed⟩

/-- A constant that is spelled as it is kept is no anomaly. -/
theorem plain_unplaced {token : Token} (classified : token.kind.isAnomaly = false) :
    token.unplaced.Plain := ⟨classified, rfl⟩

theorem plain_type (type : TypeName) : type.token.Plain := by
  cases type <;> exact ⟨rfl, rfl⟩

mutual

theorem Term.allPlain_spelling : (tree : Term) -> tree.WellFormed -> AllPlain tree.spelling
  | .integer token value, wellFormed =>
    allPlain_cons.mpr ⟨plain_unplaced (by rw [wellFormed.1]; rfl), allPlain_nil⟩
  | .string token, wellFormed =>
    allPlain_cons.mpr ⟨plain_unplaced (by rw [wellFormed.1]; rfl), allPlain_nil⟩
  | .constant _ value, _ => allPlain_cons.mpr ⟨Token.plain_ofKeyword _, allPlain_nil⟩
  | .variable token, _ => allPlain_cons.mpr ⟨Token.plain_ofName _, allPlain_nil⟩
  | .element token index, wellFormed => allPlain_cons.mpr
    ⟨Token.plain_ofName _, allPlain_enclosed.mpr (index.allPlain_spelling wellFormed.2)⟩
  | .call target, wellFormed => target.allPlain_spelling wellFormed
  | .group _ inner, wellFormed => allPlain_enclosed.mpr (inner.allPlain_spelling wellFormed.2)
  | .unary _ operator operand, wellFormed =>
    allPlain_cons.mpr ⟨Token.plain_ofMark _, operand.allPlain_spelling wellFormed.2⟩

theorem Expression.allPlain_spelling :
    (tree : Expression) -> tree.WellFormed -> AllPlain tree.spelling
  | .term first, wellFormed => first.allPlain_spelling wellFormed
  | .binary left _ right, wellFormed => allPlain_append.mpr
    ⟨left.allPlain_spelling wellFormed.1,
      allPlain_cons.mpr ⟨Token.plain_ofMark _, right.allPlain_spelling wellFormed.2⟩⟩

theorem Call.allPlain_spelling : (tree : Call) -> tree.WellFormed -> AllPlain tree.spelling
  | .mk _ qualifier name values, wellFormed => by
    refine allPlain_append.mpr ⟨?_, allPlain_enclosed.mpr (allPlain_arguments values wellFormed.2)⟩
    cases qualifier <;> simp [targetSpelling, Token.plain_ofName, Token.plain_ofMark]

theorem allPlain_arguments :
    (values : List Expression) -> argumentsWellFormed values -> AllPlain (argumentsSpelling values)
  | [], _ => allPlain_nil
  | first :: rest, wellFormed => allPlain_append.mpr
    ⟨first.allPlain_spelling wellFormed.1, allPlain_otherArguments rest wellFormed.2⟩

theorem allPlain_otherArguments : (values : List Expression) -> argumentsWellFormed values ->
    AllPlain (otherArgumentsSpelling values)
  | [], _ => allPlain_nil
  | first :: rest, wellFormed => allPlain_cons.mpr ⟨Token.plain_ofMark _, allPlain_append.mpr
    ⟨first.allPlain_spelling wellFormed.1, allPlain_otherArguments rest wellFormed.2⟩⟩

end

mutual

theorem Statement.allPlain_spelling :
    (tree : Statement) -> tree.WellFormed -> AllPlain tree.spelling
  | .assign _ name index value, wellFormed => by
    have plainIndex : AllPlain (indexSpelling index) := by
      cases index with
      | none => exact allPlain_nil
      | some inner =>
          exact allPlain_enclosed.mpr (inner.allPlain_spelling (wellFormed.2.1 inner rfl))
    have plainValue := value.allPlain_spelling wellFormed.2.2
    simp [Statement.spelling, plainIndex, plainValue, Token.plain_ofKeyword, Token.plain_ofName,
      Token.plain_ofMark]
  | .branch _ condition consequence alternative, wellFormed => by
    have plainCondition := condition.allPlain_spelling wellFormed.2.1
    have plainConsequence := allPlain_statements consequence wellFormed.2.2.1
    have plainAlternative := allPlain_alternative alternative wellFormed.2.2.2
    simp [Statement.spelling, plainCondition, plainConsequence, plainAlternative,
      Token.plain_ofKeyword]
  | .loop _ condition body, wellFormed => by
    have plainCondition := condition.allPlain_spelling wellFormed.2.1
    have plainBody := allPlain_statements body wellFormed.2.2
    simp [Statement.spelling, plainCondition, plainBody, Token.plain_ofKeyword]
  | .perform _ target, wellFormed => by
    have plainTarget := target.allPlain_spelling wellFormed.2
    simp [Statement.spelling, plainTarget, Token.plain_ofKeyword, Token.plain_ofMark]
  | .«return» _ value, wellFormed => by
    have plainValue : AllPlain (valueSpelling value) := by
      cases value with
      | none => exact allPlain_nil
      | some inner => exact inner.allPlain_spelling (wellFormed.2 inner rfl)
    simp [Statement.spelling, plainValue, Token.plain_ofKeyword, Token.plain_ofMark]

theorem allPlain_statements : (statements : List Statement) -> statementsWellFormed statements ->
    AllPlain (statementsSpelling statements)
  | [], _ => allPlain_nil
  | first :: rest, wellFormed => allPlain_append.mpr
    ⟨first.allPlain_spelling wellFormed.1, allPlain_statements rest wellFormed.2⟩

theorem allPlain_alternative :
    (alternative : Option (List Statement)) -> alternativeWellFormed alternative ->
    AllPlain (alternativeSpelling alternative)
  | none, _ => allPlain_nil
  | some statements, wellFormed => allPlain_cons.mpr
    ⟨Token.plain_ofKeyword _, allPlain_enclosed.mpr (allPlain_statements statements wellFormed)⟩

end

theorem allPlain_typedNames (type : TypeName) (names : List String) :
    AllPlain (typedNamesSpelling type names) := by
  have plainNames : AllPlain (commaSeparated (fun name => [.ofName name]) names) :=
    allPlain_commaSeparated fun name _ => allPlain_cons.mpr ⟨Token.plain_ofName name, allPlain_nil⟩
  simp [typedNamesSpelling, plain_type, plainNames, Token.plain_ofMark]

theorem Parameter.allPlain_spelling (tree : Parameter) : AllPlain tree.spelling :=
  allPlain_cons.mpr
    ⟨plain_type tree.type, allPlain_cons.mpr ⟨Token.plain_ofName tree.name, allPlain_nil⟩⟩

theorem Subroutine.allPlain_spelling (tree : Subroutine) (wellFormed : tree.WellFormed) :
    AllPlain tree.spelling := by
  have plainReturns : (returnsToken tree.returns).Plain := by
    cases tree.returns with
    | none => exact Token.plain_ofKeyword .void
    | some type => exact plain_type type
  have plainParameters : AllPlain (commaSeparated Parameter.spelling tree.parameters) :=
    allPlain_commaSeparated fun parameter _ => parameter.allPlain_spelling
  have plainLocals : AllPlain (tree.locals.flatMap LocalVariables.spelling) :=
    allPlain_flatMap fun declared _ =>
      allPlain_cons.mpr ⟨Token.plain_ofKeyword .var, allPlain_typedNames declared.type declared.names⟩
  have plainStatements := allPlain_statements tree.statements wellFormed.statements
  simp [Subroutine.spelling, plainReturns, plainParameters, plainLocals, plainStatements,
    Token.plain_ofKeyword, Token.plain_ofName]

/-- No token that spells a well-formed class is an anomaly. -/
theorem Class.allPlain_of_spelledBy {tree : Class} {tokens : List Token}
    (wellFormed : tree.WellFormed) (spelled : tree.SpelledBy tokens) : AllPlain tokens := by
  rcases spelled with ⟨members, declarations, subroutines, rfl⟩
  have plainMembers : AllPlain (members.flatMap memberSpelling) := by
    refine allPlain_flatMap fun member listed => ?_
    cases member with
    | inl declared =>
        exact allPlain_cons.mpr
          ⟨Token.plain_ofKeyword _, allPlain_typedNames declared.type declared.names⟩
    | inr routine =>
        refine routine.allPlain_spelling (wellFormed.subroutines routine ?_)
        rw [← subroutines]
        exact List.mem_filterMap.mpr ⟨.inr routine, listed, rfl⟩
  simp [plainMembers, Token.plain_ofKeyword, Token.plain_ofName]

end Jack
end HackToolchain
