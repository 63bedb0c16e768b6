import HackToolchain.Jack.Tree
import HackToolchain.Token.Production

namespace HackToolchain
namespace Jack

/-!
# Class sources

The grammar of a class, one production per construct.  A construct is recognised by its first
token, so a production never has to take anything back, and the first token that fits nowhere
ends the reading.

Constructs nest and repeat, which every production below accounts for with one number: an upper
bound for the tokens that are left.  Each repetition and each nesting uses up at least one token,
so a bound that holds at the beginning of a source is never reached.

`parse` also refuses a source in which an anomaly was reported, although its grammar may be in
order, and reports the anomalies behind the first error.
-/

namespace Source

open Production

/-- Read nothing because the bound is reached. -/
def exhausted : Production α := fun cursor => (none, cursor)

/-- Whether the token after the current one is the given mark. -/
def isFollowedBy (mark : Mark) : Production Bool := do
  return (← lookahead).kind == .mark mark

/-- Require a mark to follow and move on to it. -/
def expectMark (mark : Mark) : Production Unit := expect (.mark mark)

/-- Require a name to follow, move on to it and return it. -/
def name : Production String := expectLiteral .identifier

/-! ## Repetition -/

/-- One or more items with commas between them. -/
def separated (item : Production α) : Nat -> Production (List α)
  | 0 => exhausted
  | bound + 1 => do
    let first ← item
    if ← isFollowedBy .comma then
      advance
      return first :: (← separated item bound)
    else return [first]

/-- Items for as long as the next token starts one.  The cursor is moved to that token. -/
def repeated (starts : TokenKind -> Bool) (item : Production α) : Nat -> Production (List α)
  | 0 => exhausted
  | bound + 1 => do
    if starts (← lookahead).kind then
      advance
      let first ← item
      return first :: (← repeated starts item bound)
    else return []

/-! ## Expressions -/

/-- The operator that a token stands for between two terms. -/
def binaryOperator? : TokenKind -> Option BinaryOperator
  | .mark mark => BinaryOperator.ofMark? mark
  | _ => none

/-- The rest of a chain, given what stands in front of it. -/
def chain (term : Production Term) : Nat -> Expression -> Production Expression
  | 0, _ => exhausted
  | bound + 1, left => do
    match binaryOperator? (← lookahead).kind with
    | some operator =>
      advance
      advance
      chain term bound (.binary left operator (← term))
    | none => return left

/-- An expression that starts behind the current token. -/
def nextExpression (term : Production Term) (bound : Nat) : Production Expression := do
  advance
  chain term bound (.term (← term))

/-- A call, from its first name on. -/
def call (term : Production Term) (bound : Nat) : Production Call := do
  let token ← current
  let (qualifier, routine) ← (do
    if ← isFollowedBy .period then
      advance
      return (some token.literal, ← name)
    else return (none, token.literal))
  expectMark .leftParen
  let arguments ← (do
    if ← isFollowedBy .rightParen then return []
    else separated (nextExpression term bound) bound)
  expectMark .rightParen
  return .mk token qualifier routine arguments

/-- The first character that is outside ASCII. -/
def foreignCharacter? (text : String) : Option Char :=
  text.toList.find? fun character => 128 ≤ character.toNat

/-- A term, from its first token on. -/
def term : Nat -> Production Term
  | 0 => exhausted
  | bound + 1 => do
    let token ← current
    match token.kind with
    | .integer =>
      match token.value? with
      | some value => return .integer token value
      | none => reject (.outOfRange "integer" token.literal)
    | .string =>
      match foreignCharacter? token.literal with
      | some character => reject (.remark ("unsupported character " ++
          Text.quotedCharacter character ++ " in string constant"))
      | none => return .string token
    | .keyword .true => return .constant token .true
    | .keyword .false => return .constant token .false
    | .keyword .null => return .constant token .null
    | .keyword .this => return .constant token .this
    | .identifier =>
      match (← lookahead).kind with
      | .mark .leftBracket =>
        advance
        let index ← nextExpression (term bound) bound
        expectMark .rightBracket
        return .element token index
      | .mark .leftParen | .mark .period => return .call (← call (term bound) bound)
      | _ => return .variable token
    | .mark .leftParen =>
      let inner ← nextExpression (term bound) bound
      expectMark .rightParen
      return .group token inner
    | .mark .minus =>
      advance
      return .unary token .neg (← term bound)
    | .mark .tilde =>
      advance
      return .unary token .not (← term bound)
    | _ => rejectCurrent "an expression"

/-- An expression that starts behind the current token, with whatever terms it holds. -/
def expression (bound : Nat) : Production Expression := nextExpression (term bound) bound

/-! ## Statements -/

/-- Whether a token starts a statement. -/
def startsStatement : TokenKind -> Bool
  | .keyword .«let» | .keyword .«if» | .keyword .«while» | .keyword .«do»
  | .keyword .«return» => true
  | _ => false

/-- Statements in braces. -/
def block (statement : Production Statement) (bound : Nat) : Production (List Statement) := do
  expectMark .leftBrace
  let statements ← repeated startsStatement statement bound
  expectMark .rightBrace
  return statements

/-- An expression in parentheses. -/
def condition (bound : Nat) : Production Expression := do
  expectMark .leftParen
  let condition ← expression bound
  expectMark .rightParen
  return condition

/-- A statement, from its keyword on. -/
def statement : Nat -> Production Statement
  | 0 => exhausted
  | bound + 1 => do
    let token ← current
    match token.kind with
    | .keyword .«let» =>
      let target ← name
      let index ← (do
        if ← isFollowedBy .leftBracket then
          advance
          let index ← expression bound
          expectMark .rightBracket
          return some index
        else return none)
      expectMark .equal
      let value ← expression bound
      expectMark .semicolon
      return .assign token target index value
    | .keyword .«if» =>
      let test ← condition bound
      let consequence ← block (statement bound) bound
      if (← lookahead).kind == .keyword .«else» then
        advance
        return .branch token test consequence (some (← block (statement bound) bound))
      else return .branch token test consequence none
    | .keyword .«while» =>
      let test ← condition bound
      return .loop token test (← block (statement bound) bound)
    | .keyword .«do» =>
      expect .identifier
      let target ← call (term bound) bound
      expectMark .semicolon
      return .perform token target
    | .keyword .«return» =>
      let value ← (do
        if ← isFollowedBy .semicolon then return none
        else return some (← expression bound))
      expectMark .semicolon
      return .«return» token value
    | _ => rejectCurrent "a statement"

/-! ## Declarations -/

/-- A type, which has to follow. -/
def typeName : Production TypeName := do
  let token ← lookahead
  let read (type : TypeName) : Production TypeName := do
    advance
    return type
  match token.kind with
  | .keyword .int => read .int
  | .keyword .char => read .char
  | .keyword .boolean => read .boolean
  | .identifier => read (.«class» token.literal)
  | _ => rejectLookahead "a type"

/-- A type and the variables that are declared to have it. -/
def typedNames (bound : Nat) : Production (TypeName × List String) := do
  let type ← typeName
  let names ← separated name bound
  expectMark .semicolon
  return (type, names)

/-- A declaration of class variables, from its keyword on. -/
def classVariables (kind : ClassVariableKind) (bound : Nat) : Production ClassVariables := do
  let token ← current
  let (type, names) ← typedNames bound
  return ⟨token, kind, type, names⟩

/-- A declaration of local variables, from its keyword on. -/
def localVariables (bound : Nat) : Production LocalVariables := do
  let token ← current
  let (type, names) ← typedNames bound
  return ⟨token, type, names⟩

/-- A parameter. -/
def parameter : Production Parameter := do
  let type ← typeName
  let token ← current
  return ⟨token, type, ← name⟩

/-- A subroutine, from its keyword on. -/
def subroutine (kind : SubroutineKind) (bound : Nat) : Production Subroutine := do
  let token ← current
  let returns ← (do
    if (← lookahead).kind == .keyword .void then
      advance
      return none
    else return some (← typeName))
  let routine ← name
  expectMark .leftParen
  let parameters ← (do
    if ← isFollowedBy .rightParen then return []
    else separated parameter bound)
  expectMark .rightParen
  expectMark .leftBrace
  let opening ← current
  let locals ← repeated (· == .keyword .var) (localVariables bound) bound
  let statements ← repeated startsStatement (statement bound) bound
  expectMark .rightBrace
  return ⟨token, kind, returns, routine, parameters, opening, locals, statements⟩

/-- The kind of class variables a token declares. -/
def classVariableKind? : TokenKind -> Option ClassVariableKind
  | .keyword .static => some .static
  | .keyword .field => some .field
  | _ => none

/-- The kind of subroutine a token declares. -/
def subroutineKind? : TokenKind -> Option SubroutineKind
  | .keyword .constructor => some .constructor
  | .keyword .function => some .function
  | .keyword .method => some .method
  | _ => none

/-- The variables and subroutines of a class in any order, and the brace that closes it. -/
def members : Nat -> Production (List ClassVariables × List Subroutine)
  | 0 => exhausted
  | bound + 1 => do
    let next := (← lookahead).kind
    match classVariableKind? next, subroutineKind? next with
    | some kind, _ =>
      advance
      let declaration ← classVariables kind bound
      let (declarations, subroutines) ← members bound
      return (declaration :: declarations, subroutines)
    | none, some kind =>
      advance
      let declaration ← subroutine kind bound
      let (declarations, subroutines) ← members bound
      return (declarations, declaration :: subroutines)
    | none, none =>
      if next == .mark .rightBrace then
        advance
        return ([], [])
      else rejectLookahead "a class variable, a subroutine or '\x7d'"

/-- A class, from its keyword to the end of the source. -/
def classTree (bound : Nat) : Production Class := do
  let token ← current
  if token.kind == .keyword .«class» then
    let className ← name
    expectMark .leftBrace
    let (declarations, subroutines) ← members bound
    expect .endOfFile
    return ⟨token, className, declarations, subroutines⟩
  else rejectCurrent "'class'"

end Source

/-- How a class source is read: line ends separate tokens like blanks do. -/
def reading : Reading := { dialect := .jack, skipsComments := true, skipsNewlines := true }

/-- Read a class source: its tree if the class is in order and free of anomalies, and the cursor
at the end of the source. -/
def run (source : String) : Option Class × Cursor :=
  let start := Cursor.ofStream (reading.stream source) true
  match Source.classTree (start.remaining + 1) start with
  | (some tree, cursor) => if cursor.hasErrors then (none, cursor.drain) else (some tree, cursor)
  | (none, cursor) => (none, cursor.drain)

/-- Read a class source: its tree, or the first error and all anomalies. -/
def parse (source : String) : Except (List Diagnostic) Class :=
  match run source with
  | (some tree, _) => .ok tree
  | (none, cursor) => .error cursor.report

end Jack
end HackToolchain
