import HackToolchain.Hack.Instruction
import HackToolchain.Token.Production

namespace HackToolchain
namespace Hack

/-!
# Assembly sources

A line of assembly holds one instruction: `@` with a number or a symbol, a label in parentheses,
or a compute instruction with an optional destination in front and an optional jump behind.

The fields of a compute instruction are not made of names and numbers: `D` and `D1` are names to
the scanner while `0` is a number.  So the tokens of such a line are put together again and the
fields are read from their text.  Blanks between them thereby do not matter.
-/

/-- The text in front of the first occurrence of a separator and the text behind it. -/
def splitAtFirst (separator : Char) (text : String) : Option (String × String) :=
  let inFront := fun character => character != separator
  match text.toList.dropWhile inFront with
  | [] => none
  | _ :: behind => some (String.ofList (text.toList.takeWhile inFront), String.ofList behind)

/-- Read the fields of a compute instruction.  Of several malformed fields the destination is
found out first and the jump before the computation. -/
def computeOfText (text : String) : Except FieldError Instruction := do
  let (destination, operation) ← match splitAtFirst '=' text with
    | some (destination, operation) => pure (← Destination.ofText destination, operation)
    | none => pure (Destination.nowhere, text)
  let (computation, jump) ← match splitAtFirst ';' operation with
    | some (computation, jump) => pure (computation, some (← Jump.ofText jump))
    | none => pure (operation, none)
  return .compute destination (← Computation.ofText computation) jump

namespace Source

/-- What follows an at sign. -/
def address : Production Instruction := do
  let token ← Production.lookahead
  match token.kind with
  | .integer =>
    Production.advance
    match token.value? with
    | some value => return .value value
    | none => Production.reject (.outOfRange "address" token.literal)
  | .identifier =>
    Production.advance
    return .symbol token.literal
  | _ => Production.rejectLookahead "a symbol or an address"

/-- What follows an opening parenthesis. -/
def label : Production Instruction := do
  let name ← Production.expectLiteral .identifier
  Production.expect (.mark .rightParen)
  return .label name

/-- Append the literals of the tokens up to the end of the line, moving on to the last of them. -/
def restOfLine (cursor : Cursor) (text : String) : String × Cursor :=
  let following := cursor.stream.tail.tokens.takeWhile fun token => !token.kind.endsLine
  (following.foldl (fun text token => text ++ token.literal) text,
    cursor.advanceBy following.length)

/-- A compute instruction, whose tokens reach to the end of the line. -/
def compute : Production Instruction := fun cursor =>
  let (text, behind) := restOfLine cursor cursor.current.literal
  match computeOfText text with
  | .ok instruction => (some instruction, behind)
  | .error error => (none, behind.complain cursor.current.position (.remark error.message))

/-- One instruction. -/
def instruction : Production Instruction := do
  let token ← Production.current
  match token.kind with
  | .mark .at => address
  | .mark .leftParen => label
  | .identifier | .integer | .mark .minus | .unknown => compute
  | _ => Production.reject (.unexpected token)

end Source

/-- Read an assembly source: its instructions with their lines, or the diagnostics of all its
malformed lines. -/
def parse (source : String) : Except (List Diagnostic) (List (Located Instruction)) :=
  readLines .asm Source.instruction source

end Hack
end HackToolchain
