import HackToolchain.Token.Basic

namespace HackToolchain
namespace Jack

/-!
# Class trees

The tree of one class.  Nodes that a later stage may complain about keep the token they start
with.  An expression is the chain it is written as: operators have no precedence and apply from
left to right, so the tree leans to the left and the last operator stands at its root.

Names are not resolved.  Whether the qualifier of a call is a variable or a class is decided
where the scopes are known.
-/

/-- The type a declaration gives: a primitive one or a class. -/
inductive TypeName where
  | int
  | char
  | boolean
  | «class» (name : String)
deriving DecidableEq, Repr

/-- How a type is written. -/
def TypeName.text : TypeName -> String
  | .int => "int"
  | .char => "char"
  | .boolean => "boolean"
  | .«class» name => name

/-- Operators between two terms. -/
inductive BinaryOperator where
  | add
  | sub
  | mul
  | div
  | and
  | or
  | lt
  | gt
  | eq
deriving DecidableEq, Repr

/-- The mark of an operator between two terms. -/
def BinaryOperator.mark : BinaryOperator -> Mark
  | .add => .plus
  | .sub => .minus
  | .mul => .star
  | .div => .slash
  | .and => .ampersand
  | .or => .bar
  | .lt => .less
  | .gt => .greater
  | .eq => .equal

/-- Every operator between two terms. -/
def BinaryOperator.all : List BinaryOperator := [.add, .sub, .mul, .div, .and, .or, .lt, .gt, .eq]

/-- The operator a mark stands for between two terms. -/
def BinaryOperator.ofMark? (mark : Mark) : Option BinaryOperator :=
  all.find? fun operator => operator.mark == mark

/-- Operators in front of a term. -/
inductive UnaryOperator where
  | neg
  | not
deriving DecidableEq, Repr

/-- The constants that are keywords. -/
inductive Constant where
  | true
  | false
  | null
  | this
deriving DecidableEq, Repr

mutual

/-- The operands of an expression. -/
inductive Term where
  | integer (token : Token) (value : UInt16)
  | string (token : Token)
  | constant (token : Token) (constant : Constant)
  | variable (token : Token)
  /-- An element of the array that a variable holds. -/
  | element (token : Token) (index : Expression)
  | call (call : Call)
  | group (token : Token) (inner : Expression)
  | unary (token : Token) (operator : UnaryOperator) (operand : Term)

/-- A chain of terms. -/
inductive Expression where
  | term (term : Term)
  | binary (left : Expression) (operator : BinaryOperator) (right : Term)

/-- A call of a subroutine of the own class, of a class that is named, or of a variable's
class. -/
inductive Call where
  | mk (token : Token) (qualifier : Option String) (name : String) (arguments : List Expression)

end

/-- Statements. -/
inductive Statement where
  /-- Assign to a variable, or to an element of the array it holds. -/
  | assign (token : Token) (name : String) (index : Option Expression) (value : Expression)
  | branch (token : Token) (condition : Expression) (consequence : List Statement)
      (alternative : Option (List Statement))
  | loop (token : Token) (condition : Expression) (body : List Statement)
  /-- Call for the effect. -/
  | perform (token : Token) (call : Call)
  | «return» (token : Token) (value : Option Expression)

/-- The two kinds of class variables: one per class and one per object. -/
inductive ClassVariableKind where
  | static
  | field
deriving DecidableEq, Repr

/-- A declaration of class variables of one type. -/
structure ClassVariables where
  token : Token
  kind : ClassVariableKind
  type : TypeName
  names : List String
deriving DecidableEq, Repr

/-- A parameter.  Its token is that of its type. -/
structure Parameter where
  token : Token
  type : TypeName
  name : String
deriving DecidableEq, Repr

/-- A declaration of local variables of one type. -/
structure LocalVariables where
  token : Token
  type : TypeName
  names : List String
deriving DecidableEq, Repr

/-- The three kinds of subroutines: making an object, working without one, working on one. -/
inductive SubroutineKind where
  | constructor
  | function
  | method
deriving DecidableEq, Repr

/-- A subroutine.  A type is missing where nothing is returned. -/
structure Subroutine where
  token : Token
  kind : SubroutineKind
  returns : Option TypeName
  name : String
  parameters : List Parameter
  /-- The token that opens the body. -/
  opening : Token
  locals : List LocalVariables
  statements : List Statement

/-- A class. -/
structure Class where
  token : Token
  name : String
  declarations : List ClassVariables
  subroutines : List Subroutine

end Jack
end HackToolchain
