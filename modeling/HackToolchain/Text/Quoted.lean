import HackToolchain.Text.Printable

namespace HackToolchain
namespace Text

/-!
# Quoted text

A message that shows a piece of source text quotes it so that it stays on one line and nothing
in it is invisible.  Backslash, the chosen quotation marks, and the four controls NUL, tab, line
feed and carriage return have short escapes.  Every other character that cannot be shown is
written by its code point, and so is a combining mark where it would merge with what stands
before it.

The places differ only in which marks they escape and where they still trust a combining mark.
Those decisions are the fields of `EscapeStyle`; there is one escaping function.
-/

/-- The decisions that tell one way of quoting from another. -/
structure EscapeStyle where
  /-- Quotation marks that take a backslash. -/
  marks : List Char
  /-- Whether a combining mark is escaped wherever it stands; otherwise it is escaped only as
  the first character, where it has nothing to be drawn over. -/
  escapesEveryExtender : Bool
deriving DecidableEq, Repr

namespace EscapeStyle

/-- A text between double quotes. -/
def string : EscapeStyle := ⟨['"'], true⟩

/-- One character between single quotes. -/
def character : EscapeStyle := ⟨['\''], true⟩

/-- A bare listing, which gives neither mark the chance to look like a delimiter. -/
def listing : EscapeStyle := ⟨['"', '\''], false⟩

end EscapeStyle

/-- A code point in lower-case hexadecimal between braces, without leading zeros. -/
def escapedCodePoint (character : Char) : List Char :=
  ['\\', 'u', '\x7b'] ++ Nat.toDigits 16 character.toNat ++ ['\x7d']

/-- One character as it stands in quoted text.  `leads` tells whether it is the first one. -/
def escapeCharacter (style : EscapeStyle) (leads : Bool) (character : Char) : List Char :=
  if character = '\x00' then ['\\', '0']
  else if character = '\t' then ['\\', 't']
  else if character = '\n' then ['\\', 'n']
  else if character = '\r' then ['\\', 'r']
  else if character = '\\' || style.marks.contains character then ['\\', character]
  else if extendsGrapheme character && (leads || style.escapesEveryExtender) then
    escapedCodePoint character
  else if isPrintable character then [character]
  else escapedCodePoint character

/-- All characters of a text in order; only the first of them leads. -/
def escapeCharacters (style : EscapeStyle) : List Char -> List Char
  | [] => []
  | first :: rest => escapeCharacter style true first ++ rest.flatMap (escapeCharacter style false)

/-- A text escaped in the given style, without delimiters. -/
def escape (style : EscapeStyle) (text : String) : String :=
  String.ofList (escapeCharacters style text.toList)

/-- A text between double quotes. -/
def quoted (text : String) : String :=
  "\"" ++ escape .string text ++ "\""

/-- A character between single quotes. -/
def quotedCharacter (character : Char) : String :=
  "'" ++ String.ofList (escapeCharacter .character true character) ++ "'"

end Text
end HackToolchain
