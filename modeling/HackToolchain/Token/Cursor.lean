import HackToolchain.Token.Diagnostic
import HackToolchain.Token.Stream

namespace HackToolchain

/-!
# Cursors

A cursor is a window of two tokens, the current one and the lookahead, that moves over a stream,
together with the diagnostics recorded so far.  The stream of a cursor starts at its current
token, so the window needs no storage of its own.

A cursor may also report anomalies: then every token that could not be classified is recorded
when it enters the window, once, whatever the grammar does with it afterwards.

A cursor counts its moves.  A move at the end of the source leads nowhere, so a reader that makes
one has lost track of where it is; that no reader does shows in the count, which never exceeds
the number of tokens.
-/

/-- A place in a stream with the diagnostics met on the way there. -/
structure Cursor where
  /-- The current token and everything after it. -/
  stream : TokenStream
  reportsAnomalies : Bool
  /-- How often the window has been moved. -/
  moves : Nat
  diagnostics : Array Diagnostic
deriving DecidableEq, Repr

namespace Cursor

/-! ## The window -/

/-- The current token. -/
def current (cursor : Cursor) : Token := cursor.stream.head

/-- The token after the current one. -/
def lookahead (cursor : Cursor) : Token := cursor.stream.tail.head

/-- The number of tokens from the current one to the end of the source. -/
def remaining (cursor : Cursor) : Nat := cursor.stream.tokens.length

/-- Whether the current token is of the given class. -/
def currentIs (cursor : Cursor) (kind : TokenKind) : Bool := cursor.current.kind == kind

/-- Whether the lookahead is of the given class. -/
def lookaheadIs (cursor : Cursor) (kind : TokenKind) : Bool := cursor.lookahead.kind == kind

/-! ## Recording -/

/-- Record a complaint at a place. -/
def complain (cursor : Cursor) (position : Position) (complaint : Complaint) : Cursor :=
  { cursor with diagnostics := cursor.diagnostics.push ⟨position, complaint⟩ }

/-- Record a complaint at the current token. -/
def complainAtCurrent (cursor : Cursor) (complaint : Complaint) : Cursor :=
  cursor.complain cursor.current.position complaint

/-- Record that the lookahead is not what has to follow. -/
def rejectLookahead (cursor : Cursor) (expected : String) : Cursor :=
  cursor.complain cursor.lookahead.position (.nextIsNot expected cursor.lookahead)

/-- Record a token that enters the window, if it is an anomaly and those are reported. -/
def notice (cursor : Cursor) (token : Token) : Cursor :=
  if cursor.reportsAnomalies && token.kind.isAnomaly then
    cursor.complain token.position (.anomaly token)
  else cursor

/-- Whether anything has been recorded. -/
def hasErrors (cursor : Cursor) : Bool := !cursor.diagnostics.isEmpty

/-- The diagnostics in the order they were recorded. -/
def report (cursor : Cursor) : List Diagnostic := cursor.diagnostics.toList

/-- Forget the recorded diagnostics. -/
def clear (cursor : Cursor) : Cursor := { cursor with diagnostics := #[] }

/-! ## Moving -/

/-- Put the window on the first two tokens of a stream. -/
def ofStream (stream : TokenStream) (reportsAnomalies : Bool) : Cursor :=
  let cursor : Cursor := ⟨stream, reportsAnomalies, 0, #[]⟩
  (cursor.notice cursor.current).notice cursor.lookahead

/-- Move one token on.  At the end of the source the window stays where it is. -/
def advance (cursor : Cursor) : Cursor :=
  let moved : Cursor := { cursor with stream := cursor.stream.tail, moves := cursor.moves + 1 }
  moved.notice moved.lookahead

/-- Move one token on and answer the token that was current. -/
def bump (cursor : Cursor) : Token × Cursor := (cursor.current, cursor.advance)

/-- Move a number of tokens on. -/
def advanceBy (cursor : Cursor) (count : Nat) : Cursor := count.repeat advance cursor

/-- Move on to the first token whose class passes the test.  The end of the source is the last
token that can be reached. -/
def advanceTo (cursor : Cursor) (test : TokenKind -> Bool) : Cursor :=
  cursor.advanceBy (cursor.stream.tokens.takeWhile fun token => !test token.kind).length

/-- Move on if the lookahead is of the given class; otherwise record that and stay. -/
def expect (cursor : Cursor) (kind : TokenKind) : Bool × Cursor :=
  if cursor.lookaheadIs kind then (true, cursor.advance)
  else (false, cursor.rejectLookahead kind.text)

/-- Move on if the lookahead ends a line-oriented command; otherwise record that and stay. -/
def expectEndOfLine (cursor : Cursor) : Bool × Cursor :=
  if cursor.lookahead.kind.endsLine then (true, cursor.advance)
  else (false, cursor.rejectLookahead "end of line")

/-- Move to the end of the source, so that anomalies behind the place where reading stopped are
still reported. -/
def drain (cursor : Cursor) : Cursor := cursor.advanceBy cursor.remaining

end Cursor
end HackToolchain
