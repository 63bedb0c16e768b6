import HackToolchain.Token.Scanner

namespace HackToolchain

/-!
# Token streams

A stream is everything a scanner will ever answer: the tokens before the end of the source, and
the place of the end-of-file token, which then repeats forever.  Because the end is a place and
not a list entry, a stream always has a next token and taking the tail of a finished stream is
harmless.  The tokens of a stream never include an end-of-file token.

Which comments and newlines a reader sees is decided by filtering the stream.  The tokens that
are left keep their positions.

A stream has places of any size.  `Reading.run` also asks whether the words suffice in which a
reader counts its places.  With the default tab width every source does that fits in a memory, so
the languages read streams.
-/

/-- Tokens in source order, and the place where the source ends. -/
structure TokenStream where
  tokens : List Token
  finish : Position
deriving DecidableEq, Repr

namespace TokenStream

/-- The token that follows all others, any number of times. -/
def endToken (stream : TokenStream) : Token := ⟨stream.finish, .endOfFile, ""⟩

/-- The next token. -/
def head (stream : TokenStream) : Token := stream.tokens.headD stream.endToken

/-- What follows the next token. -/
def tail (stream : TokenStream) : TokenStream := { stream with tokens := stream.tokens.tail }

/-- The tokens with the first of the end-of-file tokens. -/
def toList (stream : TokenStream) : List Token := stream.tokens ++ [stream.endToken]

/-- Leave out the tokens of some classes. -/
def without (stream : TokenStream) (hidden : TokenKind -> Bool) : TokenStream :=
  { stream with tokens := stream.tokens.filter fun token => !hidden token.kind }

end TokenStream

namespace Scanner

/-- Collect tokens up to the end of the source.  Every token takes up at least one character, so
as many steps as characters are left, and one for the end, always suffice. -/
def collect : Nat -> Scanner -> Array Token -> TokenStream
  | 0, scanner, tokens => ⟨tokens.toList, scanner.position⟩
  | steps + 1, scanner, tokens =>
    let (token, scanner) := scanner.next
    if token.kind = .endOfFile then ⟨tokens.toList, token.position⟩
    else collect steps scanner (tokens.push token)

/-- All tokens that a scanner has in front of it. -/
def stream (scanner : Scanner) : TokenStream :=
  collect (scanner.rest.length + 1) scanner #[]

end Scanner

/-- How a source is to be read. -/
structure Reading where
  dialect : Dialect
  tabWidth : UInt64 := Scanner.defaultTabWidth
  skipsComments : Bool := false
  skipsNewlines : Bool := false
deriving DecidableEq, Repr

namespace Reading

/-- Whether tokens of a class are left out. -/
def hides (reading : Reading) : TokenKind -> Bool
  | .comment _ => reading.skipsComments
  | .newline => reading.skipsNewlines
  | _ => false

/-- The tokens of a source that the reading leaves in. -/
def stream (reading : Reading) (source : String) : TokenStream :=
  (Scanner.ofSource reading.dialect reading.tabWidth source).stream.without reading.hides

/-- Read a source to its end, which a reader gets to if its places fit their words on the whole
way. -/
def run (reading : Reading) (source : String) : Except Abort TokenStream :=
  (Position.steps reading.tabWidth .start source.toList).map fun _ => reading.stream source

end Reading
end HackToolchain
