import HackToolchain.Token.Production
import HackToolchain.Vm.Command

namespace HackToolchain
namespace Vm

/-!
# Sources of the stack machine

A line holds one command: a keyword with the operands that the keyword asks for.  Segments are
not reserved words, so any name can stand in a segment's place and is looked up there.
-/

namespace Source

/-- The segment that has to follow. -/
def segment : Production Segment := do
  let name ← Production.expectLiteral .identifier
  match Segment.ofName? name with
  | some segment => return segment
  | none => Production.reject (.remark ("unknown segment '" ++ name ++ "'"))

/-- The number that has to follow. -/
def number : Production UInt16 := do
  Production.expect .integer
  let token ← Production.current
  match token.value? with
  | some value => return value
  | none => Production.reject (.outOfRange "integer" token.literal)

/-- The name that has to follow. -/
def name : Production String := Production.expectLiteral .identifier

/-- One command. -/
def command : Production Command := do
  match (← Production.current).kind with
  | .keyword .push => return .push (← segment) (← number)
  | .keyword .pop => return .pop (← segment) (← number)
  | .keyword .label => return .label (← name)
  | .keyword .goto => return .goto (← name)
  | .keyword .«if» =>
    Production.expect (.mark .minus)
    Production.expect (.keyword .goto)
    return .ifGoto (← name)
  | .keyword .function => return .function (← name) (← number)
  | .keyword .call => return .call (← name) (← number)
  | .keyword .«return» => return .«return»
  | .keyword word =>
    match Operation.ofKeyword? word with
    | some operation => return .arithmetic operation
    | none => Production.rejectCurrent "a command"
  | _ => Production.rejectCurrent "a command"

end Source

/-- Read a source: its commands with their lines, or the diagnostics of all its malformed
lines. -/
def parse (source : String) : Except (List Diagnostic) (List (Located Command)) :=
  readLines .vm Source.command source

end Vm
end HackToolchain
