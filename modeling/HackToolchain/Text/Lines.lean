namespace HackToolchain
namespace Text

/-!
# Lines of a text

A line ends at a line feed, and a carriage return directly before that line feed belongs to the
line end.  A final line feed opens no further line, so the empty text has no lines.  A carriage
return at the very end of the text belongs to its line, because no line feed follows it.
-/

/-- Close a line that is collected in reverse, without the carriage return of its line end. -/
def closeLine : List Char -> List Char
  | '\r' :: reversed => reversed.reverse
  | reversed => reversed.reverse

/-- Split into lines.  `current` holds the current line in reverse, and `closed` the finished
lines, also in reverse. -/
def linesFrom (current : List Char) (closed : List (List Char)) :
    List Char -> List (List Char)
  | [] => (if current.isEmpty then closed else current.reverse :: closed).reverse
  | '\n' :: rest => linesFrom [] (closeLine current :: closed) rest
  | character :: rest => linesFrom (character :: current) closed rest

/-- The lines of a text in order, without their ends. -/
def lines (text : String) : List String :=
  (linesFrom [] [] text.toList).map String.ofList

/-- Put one text per line, with a line feed between neighbours and none at the end. -/
def joinLines (texts : List String) : String :=
  String.intercalate "\n" texts

/-- Put one text per line, each closed by a line feed. -/
def closedLines (texts : List String) : String :=
  texts.foldl (fun text line => text ++ line ++ "\n") ""

end Text
end HackToolchain
