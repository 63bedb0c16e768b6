import HackToolchain.Token.Basic

namespace HackToolchain

/-!
# Scanning

The scanner cuts a source into tokens without losing any of it.  What it cuts off for one token
is a `Lexeme`: the spelling, which is the exact piece of source, and the literal, which is what
the token keeps of it.  Blanks separate tokens and newlines are tokens.  Scanning never fails,
because a piece that cannot be classified becomes a token of its own class.

`Scanner.next` reads one token.  At the end of the text it answers an end-of-file token and
stays where it is, so it can be asked again.
-/

/-- One token's piece of the source, with the text after it. -/
structure Lexeme where
  kind : TokenKind
  /-- What the token keeps. -/
  literal : List Char
  /-- The piece of source the token takes up. -/
  spelling : List Char
  rest : List Char

namespace Lexeme

/-- A piece that is kept as it is spelled. -/
def verbatim (kind : TokenKind) (spelling rest : List Char) : Lexeme :=
  ⟨kind, spelling, spelling, rest⟩

/-- The longest run of characters that pass the test, kept as it is spelled. -/
def run (kind : TokenKind) (test : Char -> Bool) (text : List Char) : Lexeme :=
  verbatim kind (text.takeWhile test) (text.dropWhile test)

/-- A line end of one or two characters, or a carriage return that ends no line. -/
def carriageReturn : List Char -> Lexeme
  | '\n' :: rest => ⟨.newline, ['\n'], ['\r', '\n'], rest⟩
  | rest => verbatim .illegal ['\r'] rest

/-- Whether a character ends the line it stands on. -/
def breaksLine (character : Char) : Bool :=
  character == '\n' || character == '\r'

/-- Cut behind the first end delimiter of a block comment.  `seen` holds the comment so far in
reverse. -/
def splitComment (seen : List Char) : List Char -> Option (List Char × List Char)
  | '*' :: '/' :: rest => some (('/' :: '*' :: seen).reverse, rest)
  | character :: rest => splitComment (character :: seen) rest
  | [] => none

/-- The kind of block comment, told by the text after its start delimiter.  A delimiter that
closes at once is not a second star. -/
def blockKind : List Char -> CommentKind
  | '*' :: '/' :: _ => .block
  | '*' :: _ => .doc
  | _ => .block

/-- A block comment, given the text after its start delimiter.  One that is never closed takes
up the rest of the source. -/
def blockComment (body : List Char) : Lexeme :=
  match splitComment ['*', '/'] body with
  | some (spelling, rest) => verbatim (.comment (blockKind body)) spelling rest
  | none => verbatim .illegal ('/' :: '*' :: body) []

/-- What starts with a slash, given the text after it. -/
def slash : List Char -> Lexeme
  | '/' :: rest =>
    run (.comment .line) (fun character => !breaksLine character) ('/' :: '/' :: rest)
  | '*' :: rest => blockComment rest
  | rest => verbatim (.mark .slash) ['/'] rest

/-- A string, given the text after its opening quote.  It ends on its line; an open one is kept
without its quote. -/
def string (text : List Char) : Lexeme :=
  let inside := fun character => character != '"' && !breaksLine character
  let literal := text.takeWhile inside
  match text.dropWhile inside with
  | '"' :: rest => ⟨.string, literal, '"' :: literal ++ ['"'], rest⟩
  | rest => ⟨.illegal, literal, '"' :: literal, rest⟩

/-- A name or a keyword, given its first character and the text after it. -/
def word (dialect : Dialect) (first : Char) (text : List Char) : Lexeme :=
  let spelling := first :: text.takeWhile dialect.continuesName
  let kind := match dialect.keyword? (String.ofList spelling) with
    | some keyword => .keyword keyword
    | none => .identifier
  verbatim kind spelling (text.dropWhile dialect.continuesName)

/-- The token that starts with a character, given the text after it.  Where a name may start
with a mark, the mark is taken for a name. -/
def ofText (dialect : Dialect) (first : Char) (rest : List Char) : Lexeme :=
  if first = '\n' then verbatim .newline ['\n'] rest
  else if first = '\r' then carriageReturn rest
  else if first = '/' then slash rest
  else if first = '"' then string rest
  else if first.isDigit then run .integer Char.isDigit (first :: rest)
  else if dialect.startsName first then word dialect first rest
  else match Mark.ofCharacter? first with
    | some mark => verbatim (.mark mark) [first] rest
    | none => verbatim .unknown [first] rest

end Lexeme

/-- A source being read: the text that is left and the place where it starts. -/
structure Scanner where
  dialect : Dialect
  tabWidth : UInt64
  position : Position
  rest : List Char

namespace Scanner

/-- The tab width of a reader who asks for none. -/
def defaultTabWidth : UInt64 := 4

/-- A scanner at the first character of a source. -/
def ofSource (dialect : Dialect) (tabWidth : UInt64) (source : String) : Scanner :=
  ⟨dialect, tabWidth, .start, source.toList⟩

/-- Space, horizontal and vertical tab, and form feed only separate tokens. -/
def isBlank (character : Char) : Bool :=
  character == ' ' || character == '\t' || character == '\x0b' || character == '\x0c'

/-- Pass over the blanks in front of the next token. -/
def skipBlanks (scanner : Scanner) : Scanner :=
  { scanner with
    position := scanner.position.afterText scanner.tabWidth (scanner.rest.takeWhile isBlank)
    rest := scanner.rest.dropWhile isBlank }

/-- The next token and the scanner behind it. -/
def next (scanner : Scanner) : Token × Scanner :=
  let scanner := scanner.skipBlanks
  match scanner.rest with
  | [] => (⟨scanner.position, .endOfFile, ""⟩, scanner)
  | first :: rest =>
    let lexeme := Lexeme.ofText scanner.dialect first rest
    (⟨scanner.position, lexeme.kind, String.ofList lexeme.literal⟩,
      { scanner with
        position := scanner.position.afterText scanner.tabWidth lexeme.spelling
        rest := lexeme.rest })

end Scanner
end HackToolchain
