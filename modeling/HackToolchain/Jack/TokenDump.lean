import HackToolchain.Text.Lines
import HackToolchain.Token.Stream

namespace HackToolchain
namespace Jack

/-!
# Token dumps

A listing of all tokens of a class source, one per line with its place, a coarse class and its
text.  The text is escaped, so that each token keeps to its line whatever it holds.
-/

/-- The coarse class of a token.  All keywords, all comments and all punctuation marks are taken
together. -/
def category : TokenKind -> String
  | .keyword _ => "keyword"
  | .mark _ => "symbol"
  | kind => kind.text

/-- The line of one token. -/
def dumpLine (token : Token) : String :=
  toString token.position.line ++ ":" ++ toString token.position.column ++ " " ++
    category token.kind ++ " " ++ Text.escape .listing token.literal

/-- The lines of all tokens of a source, comments and line ends included, up to the end-of-file
token. -/
def dumpTokens (source : String) : String :=
  Text.closedLines ((({ dialect := .jack } : Reading).stream source).toList.map dumpLine)

end Jack
end HackToolchain
