import HackToolchain.Text.Lines
import HackToolchain.Token.Basic

namespace HackToolchain

/-!
# Diagnostics

A diagnostic is a complaint at a place in the source.  A complaint says what is wrong as data;
its wording is in `Complaint.message` alone.  Complaints that only one language can raise carry
their own wording, because this module knows tokens and no grammar.
-/

/-- What a reader of tokens can find wrong. -/
inductive Complaint where
  /-- A token that the scanner could not classify. -/
  | anomaly (found : Token)
  /-- The lookahead is not what has to follow. -/
  | nextIsNot (expected : String) (found : Token)
  /-- The current token cannot stand where it stands. -/
  | currentIsNot (expected : String) (found : Token)
  /-- The current token starts nothing. -/
  | unexpected (found : Token)
  /-- A number that needs more than fifteen bits; `role` is what the number was meant to be. -/
  | outOfRange (role : String) (literal : String)
  /-- A complaint in the words of the reader's own language. -/
  | remark (text : String)
deriving DecidableEq, Repr

/-- The wording of a complaint. -/
def Complaint.message : Complaint -> String
  | .anomaly found => found.describe
  | .nextIsNot expected found =>
    "expected next token to be " ++ expected ++ ", got " ++ found.describe ++ " instead"
  | .currentIsNot expected found =>
    "expected " ++ expected ++ ", got " ++ found.describe ++ " instead"
  | .unexpected found => "unexpected " ++ found.describe
  | .outOfRange role literal =>
    role ++ " " ++ literal ++ " is out of range 0..=" ++ toString maxInteger
  | .remark text => text

/-- A complaint and the place it is about. -/
structure Diagnostic where
  position : Position
  complaint : Complaint
deriving DecidableEq, Repr

namespace Diagnostic

/-- The complaint's wording. -/
def message (diagnostic : Diagnostic) : String := diagnostic.complaint.message

/-- The whole line that shows a diagnostic to a user. -/
def text (diagnostic : Diagnostic) : String :=
  "parsing error (line " ++ toString diagnostic.position.line ++ ", col " ++
    toString diagnostic.position.column ++ "): " ++ diagnostic.message

/-- Several diagnostics, each on a line of its own. -/
def joined (diagnostics : List Diagnostic) : String :=
  Text.joinLines (diagnostics.map text)

end Diagnostic
end HackToolchain
