-- White space: the characters that separate tokens and that trimming removes, and the ends
-- of lines, which are of several kinds.
-- Tables of this folder follow version 14.0 of the Unicode character data.
import EnergyGraph.Text.Ranges

namespace EnergyGraph.Text

def blankSwitches : Switches :=
  [0x9, 0xE, 0x1C, 0x21, 0x85, 0x86, 0xA0, 0xA1, 0x1680, 0x1681, 0x2000, 0x200B, 0x2028, 0x202A,
   0x202F, 0x2030, 0x205F, 0x2060, 0x3000, 0x3001]

/-- Separators of words, lines and paragraphs, and the four information separators of ASCII. -/
def isBlank (c : Char) : Bool := blankSwitches.holds c.toNat

/-- The characters without the blanks at both ends. -/
def trimmed (cs : List Char) : List Char :=
  ((cs.dropWhile isBlank).reverse.dropWhile isBlank).reverse

/-- The text without the blanks at both ends. -/
def trim (s : String) : String := String.ofList (trimmed s.toList)

/-- A carriage return, alone or before a line feed, becomes a line feed. -/
def unifyLineEnds : List Char → List Char
  | '\r' :: '\n' :: rest => '\n' :: unifyLineEnds rest
  | '\r' :: rest => '\n' :: unifyLineEnds rest
  | c :: rest => c :: unifyLineEnds rest
  | [] => []

end EnergyGraph.Text
