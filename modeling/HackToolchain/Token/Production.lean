import HackToolchain.Token.Cursor

namespace HackToolchain

/-!
# Productions

A production of a grammar starts with the cursor on its first token and, if it succeeds, leaves
it on its last one.  It returns what it has read, or nothing if it has failed; either way it
returns the cursor, because the diagnostics recorded there outlive the failure.  In a sequence
the first failure ends everything.

`readLines` runs one production per line for the two line-oriented languages.  A malformed line
costs one diagnostic and nothing of the lines around it: reading goes on behind its end.
-/

/-- Reading something off a cursor.  Nothing is returned when the production fails. -/
def Production (α : Type) : Type := Cursor -> Option α × Cursor

namespace Production

/-- Read nothing and succeed. -/
def succeed (value : α) : Production α := fun cursor => (some value, cursor)

/-- Read one production and then another that depends on it. -/
def andThen (first : Production α) (next : α -> Production β) : Production β := fun cursor =>
  match first cursor with
  | (some value, cursor) => next value cursor
  | (none, cursor) => (none, cursor)

instance : Monad Production where
  pure := succeed
  bind := andThen

/-- Apply a change of the cursor that cannot fail. -/
def move (change : Cursor -> Cursor) : Production Unit := fun cursor => (some (), change cursor)

/-- The current token. -/
def current : Production Token := fun cursor => (some cursor.current, cursor)

/-- The token after the current one. -/
def lookahead : Production Token := fun cursor => (some cursor.lookahead, cursor)

/-- Move one token on. -/
def advance : Production Unit := move Cursor.advance

/-- Require the lookahead to be of a class and move on to it. -/
def expect (kind : TokenKind) : Production Unit := fun cursor =>
  match cursor.expect kind with
  | (true, cursor) => (some (), cursor)
  | (false, cursor) => (none, cursor)

/-- Require the lookahead to end the line and move on to it. -/
def expectEndOfLine : Production Unit := fun cursor =>
  match cursor.expectEndOfLine with
  | (true, cursor) => (some (), cursor)
  | (false, cursor) => (none, cursor)

/-- Require the lookahead to be of a class, move on to it and return its literal. -/
def expectLiteral (kind : TokenKind) : Production String := do
  expect kind
  return (← current).literal

/-- Fail because the lookahead is not what has to follow. -/
def rejectLookahead (expected : String) : Production α := fun cursor =>
  (none, cursor.rejectLookahead expected)

/-- Fail with a complaint at the current token. -/
def reject (complaint : Complaint) : Production α := fun cursor =>
  (none, cursor.complainAtCurrent complaint)

/-- Fail because the current token cannot stand where it stands. -/
def rejectCurrent (expected : String) : Production α := do
  reject (.currentIsNot expected (← current))

end Production

/-! ## Line-oriented sources -/

/-- Read items from the current token to the end of the source.  Blank lines are passed over.  An
item has to reach to the end of its line; where it does not, the rest of the line is passed
over.  Each round moves the cursor on, so that as many rounds as tokens remain, and one for the
end of the source, always suffice. -/
def readItems (item : Production α) :
    Nat -> Cursor -> Array (Located α) -> Array (Located α) × Cursor
  | 0, cursor, items => (items, cursor)
  | rounds + 1, cursor, items =>
    if cursor.currentIs .endOfFile then (items, cursor)
    else if cursor.currentIs .newline then readItems item rounds cursor.advance items
    else
      let wholeLine : Production α := do
        let value ← item
        Production.expectEndOfLine
        return value
      match wholeLine cursor with
      | (some value, behind) =>
        readItems item rounds behind (items.push ⟨value, cursor.current.position.line⟩)
      | (none, behind) => readItems item rounds (behind.advanceTo TokenKind.endsLine) items

/-- How a source of one item per line is read: its line ends matter and its comments do not. -/
def lineReading (dialect : Dialect) : Reading := { dialect := dialect, skipsComments := true }

/-- Read all lines of a source: the items of its well-formed lines, and the cursor at the end. -/
def runLines (dialect : Dialect) (item : Production α) (source : String) :
    Array (Located α) × Cursor :=
  let start := Cursor.ofStream ((lineReading dialect).stream source) false
  readItems item (start.remaining + 1) start #[]

/-- Read a source of one item per line.  Either every line is well formed and all items are
returned, each with its line, or the diagnostics of the malformed lines are. -/
def readLines (dialect : Dialect) (item : Production α) (source : String) :
    Except (List Diagnostic) (List (Located α)) :=
  let (items, cursor) := runLines dialect item source
  if cursor.hasErrors then .error cursor.report else .ok items.toList

end HackToolchain
