import HackToolchain.Text.Lines
import HackToolchain.Token.Basic

namespace HackToolchain
namespace Vm

/-!
# Commands of the stack machine

The stack machine moves words between its stack and eight memory segments, computes on the top
of the stack, jumps between labels of one function, and calls functions.  Operands are machine
words.
-/

/-- The memory segments a word is pushed from or popped to. -/
inductive Segment where
  | «local»
  | argument
  | this
  | that
  | constant
  | static
  | temp
  | pointer
deriving DecidableEq, Repr

namespace Segment

/-- The name of a segment. -/
def name : Segment -> String
  | .«local» => "local"
  | .argument => "argument"
  | .this => "this"
  | .that => "that"
  | .constant => "constant"
  | .static => "static"
  | .temp => "temp"
  | .pointer => "pointer"

/-- Every segment, in the order of the declaration. -/
def all : List Segment :=
  [.«local», .argument, .this, .that, .constant, .static, .temp, .pointer]

/-- The segment a name belongs to. -/
def ofName? (name : String) : Option Segment := all.find? fun segment => segment.name == name

end Segment

/-- Operations on the top of the stack. -/
inductive Operation where
  | add
  | sub
  | neg
  | eq
  | gt
  | lt
  | and
  | or
  | not
deriving DecidableEq, Repr

namespace Operation

/-- The word that reserves an operation's name. -/
def keyword : Operation -> Keyword
  | .add => .add
  | .sub => .sub
  | .neg => .neg
  | .eq => .eq
  | .gt => .gt
  | .lt => .lt
  | .and => .and
  | .or => .or
  | .not => .not

/-- The name of an operation. -/
def name (operation : Operation) : String := operation.keyword.text

/-- Every operation, in the order of the declaration. -/
def all : List Operation := [.add, .sub, .neg, .eq, .gt, .lt, .and, .or, .not]

/-- The operation a reserved word names. -/
def ofKeyword? (word : Keyword) : Option Operation :=
  all.find? fun operation => operation.keyword == word

end Operation

/-- One command. -/
inductive Command where
  | arithmetic (operation : Operation)
  | push (segment : Segment) (index : UInt16)
  | pop (segment : Segment) (index : UInt16)
  | label (name : String)
  | goto (label : String)
  /-- Jump if the popped word is not zero. -/
  | ifGoto (label : String)
  | function (name : String) (locals : UInt16)
  | call (name : String) (arguments : UInt16)
  | «return»
deriving DecidableEq, Repr

/-- A command as one line of source. -/
def Command.text : Command -> String
  | .arithmetic operation => operation.name
  | .push segment index => "push " ++ segment.name ++ " " ++ toString index.toNat
  | .pop segment index => "pop " ++ segment.name ++ " " ++ toString index.toNat
  | .label name => "label " ++ name
  | .goto name => "goto " ++ name
  | .ifGoto name => "if-goto " ++ name
  | .function name locals => "function " ++ name ++ " " ++ toString locals.toNat
  | .call name arguments => "call " ++ name ++ " " ++ toString arguments.toNat
  | .«return» => "return"

/-- Commands as source, one per line. -/
def sourceText (commands : List Command) : String :=
  Text.closedLines (commands.map Command.text)

/-- A file of commands with their lines.  Its name also names the file's static cells. -/
structure File where
  name : String
  commands : List (Located Command)
deriving DecidableEq, Repr

/-- A file of commands that come from no source.  Each stands on the line that it has in the
commands' source text. -/
def File.ofCommands (name : String) (commands : List Command) : File :=
  ⟨name, commands.mapIdx fun index command => ⟨command, index + 1⟩⟩

end Vm
end HackToolchain
