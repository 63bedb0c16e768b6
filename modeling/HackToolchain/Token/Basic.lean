import HackToolchain.Abort
import HackToolchain.Text.Quoted
import HackToolchain.Token.Keyword

namespace HackToolchain

/-!
# Tokens

A token is a piece of source text with its class and the position of its first character.  The
classes are the same for all dialects.  Two of them hold what the scanner could not classify, so
that scanning itself never fails: a character no token starts with, and a piece that starts like
a token but is not finished as one.
-/

/-- A place in a source text; lines and columns count from one.  Readers keep both in machine
words, which a source with very wide tabs can outgrow: see `Position.step`. -/
structure Position where
  line : Nat
  column : Nat
deriving DecidableEq, Repr

namespace Position

/-- The first character of a text. -/
def start : Position := ⟨1, 1⟩

/-- The place after a character.  A tab is as wide as the reader of the source shows it. -/
def after (tabWidth : UInt64) (position : Position) (character : Char) : Position :=
  if character = '\n' then ⟨position.line + 1, 1⟩
  else if character = '\t' then ⟨position.line, position.column + tabWidth.toNat⟩
  else ⟨position.line, position.column + 1⟩

/-- The place after a piece of text. -/
def afterText (tabWidth : UInt64) (position : Position) (text : List Char) : Position :=
  text.foldl (after tabWidth) position

/-- The line and the column fit their words. -/
def Fits (position : Position) : Prop :=
  position.line < UInt64.size ∧ position.column < UInt64.size

instance (position : Position) : Decidable position.Fits :=
  inferInstanceAs (Decidable (_ ∧ _))

/-- Count on over a character, as long as the words suffice. -/
def step (tabWidth : UInt64) (position : Position) (character : Char) : Except Abort Position :=
  let behind := position.after tabWidth character
  if behind.Fits then .ok behind else .error .overflow

/-- Count on over a piece of text. -/
def steps (tabWidth : UInt64) (position : Position) (text : List Char) : Except Abort Position :=
  text.foldlM (step tabWidth) position

end Position

/-- The three ways to write a comment: to the end of its line, between delimiters, and between
delimiters of which the first has a second star. -/
inductive CommentKind where
  | line
  | block
  | doc
deriving DecidableEq, Repr

/-- Tokens of one punctuation character. -/
inductive Mark where
  | leftParen | rightParen | leftBracket | rightBracket | leftBrace | rightBrace
  | comma | semicolon | equal | period
  | plus | minus | star | slash | ampersand | bar | tilde
  | less | greater | at
deriving DecidableEq, Repr

namespace Mark

/-- The character a mark consists of. -/
def character : Mark -> Char
  | .leftParen => '('
  | .rightParen => ')'
  | .leftBracket => '['
  | .rightBracket => ']'
  | .leftBrace => '\x7b'
  | .rightBrace => '\x7d'
  | .comma => ','
  | .semicolon => ';'
  | .equal => '='
  | .period => '.'
  | .plus => '+'
  | .minus => '-'
  | .star => '*'
  | .slash => '/'
  | .ampersand => '&'
  | .bar => '|'
  | .tilde => '~'
  | .less => '<'
  | .greater => '>'
  | .at => '@'

/-- Every mark, in the order of the declaration. -/
def all : List Mark :=
  [.leftParen, .rightParen, .leftBracket, .rightBracket, .leftBrace, .rightBrace, .comma,
    .semicolon, .equal, .period, .plus, .minus, .star, .slash, .ampersand, .bar, .tilde, .less,
    .greater, .at]

/-- The mark a character is, if it is one. -/
def ofCharacter? (character : Char) : Option Mark :=
  all.find? fun mark => mark.character == character

end Mark

/-- The classes of tokens. -/
inductive TokenKind where
  /-- A character that no token of the dialect starts with. -/
  | unknown
  /-- A piece that starts like a token and is not finished as one: an open string or block
  comment, or a carriage return with no line feed after it. -/
  | illegal
  | endOfFile
  | newline
  | comment (kind : CommentKind)
  | keyword (keyword : Keyword)
  | mark (mark : Mark)
  | integer
  | string
  | identifier
deriving DecidableEq, Repr

namespace TokenKind

/-- How messages call a class of tokens. -/
def text : TokenKind -> String
  | .unknown => "unknown character"
  | .illegal => "illegal token"
  | .endOfFile => "end of file"
  | .newline => "newline"
  | .comment _ => "comment"
  | .keyword word => word.text
  | .mark sign => String.ofList ['\'', sign.character, '\'']
  | .integer => "integer constant"
  | .string => "string constant"
  | .identifier => "identifier"

/-- Whether a token of the class ends a command of a line-oriented language. -/
def endsLine : TokenKind -> Bool
  | .comment _ | .newline | .endOfFile => true
  | _ => false

/-- Whether the class holds what the scanner could not make a token of. -/
def isAnomaly : TokenKind -> Bool
  | .unknown | .illegal => true
  | _ => false

/-- Whether the spelling of a token says more than its class does. -/
def hasFreeText : TokenKind -> Bool
  | .identifier | .integer | .string | .unknown | .illegal => true
  | _ => false

end TokenKind

/-- A token with the position of its first character.  The literal of a string leaves out the
quotes, that of a newline is one line feed however the line was ended, and every other literal
is the text itself. -/
structure Token where
  position : Position
  kind : TokenKind
  literal : String
deriving DecidableEq, Repr

/-- A value with the source line it was read from. -/
structure Located (α : Type) where
  item : α
  line : Nat
deriving DecidableEq, Repr

/-- The largest integer a source can name: the last fifteen-bit address. -/
def maxInteger : Nat := 32767

/-- The number a run of decimal digits denotes. -/
def decimalValue (digits : List Char) : Nat :=
  digits.foldl (fun value digit => value * 10 + (digit.toNat - '0'.toNat)) 0

namespace Token

/-- The value of an integer constant, if it is in range. -/
def value? (token : Token) : Option UInt16 :=
  let value := decimalValue token.literal.toList
  if token.kind = .integer ∧ value ≤ maxInteger then some (UInt16.ofNat value) else none

/-- How a message names a token: by its class, and by its quoted text where the class alone does
not determine it. -/
def describe (token : Token) : String :=
  if token.kind.hasFreeText then token.kind.text ++ " " ++ Text.quoted token.literal
  else token.kind.text

end Token
end HackToolchain
