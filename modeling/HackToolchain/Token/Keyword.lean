namespace HackToolchain

/-!
# Keywords and dialects

The toolchain reads three languages that share one scanner.  A dialect says which words are
reserved and which characters a name may hold.  A word that two dialects reserve is one keyword,
so its spelling does not depend on the dialect.
-/

/-- The words reserved by at least one of the three languages. -/
inductive Keyword where
  | «class» | constructor | method | function
  | int | boolean | char | void
  | var | static | field
  | «let» | «do» | «if» | «else» | «while» | «return»
  | true | false | null | this
  | push | pop | add | sub | neg | eq | gt | lt | and | or | not
  | label | goto | call
deriving DecidableEq, Repr

/-- How a keyword is written in a source. -/
def Keyword.text : Keyword -> String
  | .«class» => "class"
  | .constructor => "constructor"
  | .method => "method"
  | .function => "function"
  | .int => "int"
  | .boolean => "boolean"
  | .char => "char"
  | .void => "void"
  | .var => "var"
  | .static => "static"
  | .field => "field"
  | .«let» => "let"
  | .«do» => "do"
  | .«if» => "if"
  | .«else» => "else"
  | .«while» => "while"
  | .«return» => "return"
  | .true => "true"
  | .false => "false"
  | .null => "null"
  | .this => "this"
  | .push => "push"
  | .pop => "pop"
  | .add => "add"
  | .sub => "sub"
  | .neg => "neg"
  | .eq => "eq"
  | .gt => "gt"
  | .lt => "lt"
  | .and => "and"
  | .or => "or"
  | .not => "not"
  | .label => "label"
  | .goto => "goto"
  | .call => "call"

/-- The three source languages, from the class language down to assembly. -/
inductive Dialect where
  | jack
  | vm
  | asm
deriving DecidableEq, Repr

namespace Dialect

/-- The words a dialect reserves.  Assembly reserves none. -/
def keywords : Dialect -> List Keyword
  | .jack => [.«class», .constructor, .method, .function, .int, .boolean, .char, .void, .var,
      .static, .field, .«let», .«do», .«if», .«else», .«while», .«return», .true, .false, .null,
      .this]
  | .vm => [.push, .pop, .add, .sub, .neg, .eq, .gt, .lt, .and, .or, .not, .label, .goto, .«if»,
      .function, .call, .«return»]
  | .asm => []

/-- The keyword a word spells in the dialect, if it spells one. -/
def keyword? (dialect : Dialect) (word : String) : Option Keyword :=
  dialect.keywords.find? fun keyword => keyword.text == word

/-- Characters other than letters and digits that a name of the dialect may hold after its first
one.  The dollar sign is kept out of the stack language, where the translator makes labels with
it that no source can spell. -/
def nameMarks : Dialect -> List Char
  | .jack => ['_']
  | .vm => ['_', '.', ':']
  | .asm => ['_', '.', '$', ':']

/-- Whether a name of the dialect may start with the character.  Only assembly lets a name start
with a mark other than the underscore.  Letters are those of ASCII. -/
def startsName (dialect : Dialect) (character : Char) : Bool :=
  character.isAlpha || character == '_' ||
    (dialect == .asm && dialect.nameMarks.contains character)

/-- Whether a name of the dialect may go on with the character. -/
def continuesName (dialect : Dialect) (character : Char) : Bool :=
  character.isAlphanum || dialect.nameMarks.contains character

end Dialect
end HackToolchain
