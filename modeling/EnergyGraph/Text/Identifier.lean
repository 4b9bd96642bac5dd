-- The forms of names and versions in documents. All of them may be followed by
-- one line end.
import EnergyGraph.Text.Digit

namespace EnergyGraph.Text

def isSmallAscii (c : Char) : Bool := 'a' ≤ c && c ≤ 'z'

def isCapitalAscii (c : Char) : Bool := 'A' ≤ c && c ≤ 'Z'

def isLetterAscii (c : Char) : Bool := isSmallAscii c || isCapitalAscii c

def isDigitAscii (c : Char) : Bool := '0' ≤ c && c ≤ '9'

/-- The end of the text, or one line end before it. -/
def isEnd (cs : List Char) : Bool := cs == [] || cs == ['\n']

/-- A first character of one kind, and others of another kind up to the end. -/
def hasForm (first others : Char → Bool) (s : String) : Bool :=
  match s.toList with
  | [] => false
  | c :: rest => first c && isEnd (rest.dropWhile others)

/-- Letters, digits and underscores of ASCII, a digit not first. -/
def isIdentifier (s : String) : Bool :=
  hasForm (fun c => isLetterAscii c || c == '_')
    (fun c => isLetterAscii c || isDigitAscii c || c == '_') s

/-- Small letters, digits and underscores of ASCII, a letter first. -/
def isDocumentName (s : String) : Bool :=
  hasForm isSmallAscii (fun c => isSmallAscii c || isDigitAscii c || c == '_') s

/-- The form of a document's name, as messages give it. -/
def documentNameForm : String := "^[a-z][a-z0-9_]*$"

/-- Drops decimal digits, of which there has to be one. -/
def dropDecimals? (cs : List Char) : Option (List Char) :=
  match cs with
  | c :: rest => if isDecimal c then some (rest.dropWhile isDecimal) else none
  | [] => none

/-- What may stand after the sign that follows a version's numbers. -/
def isVersionTail (c : Char) : Bool :=
  isLetterAscii c || isDigitAscii c || c == '.' || c == '+' || c == '-'

/-- Three numbers with points between them, and perhaps a tail after a sign. -/
def isSemanticVersion (s : String) : Bool :=
  match dropDecimals? s.toList with
  | some ('.' :: rest) =>
    match dropDecimals? rest with
    | some ('.' :: rest) =>
      match dropDecimals? rest with
      | some (c :: t :: rest) =>
        if c == '-' || c == '+' then isVersionTail t && isEnd (rest.dropWhile isVersionTail)
        else false
      | some rest => isEnd rest
      | none => false
    | _ => false
  | _ => false

end EnergyGraph.Text
