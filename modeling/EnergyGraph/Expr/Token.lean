-- Tokens of expression text: numbers, names, operators and brackets.
import EnergyGraph.Decimal.Reading
import EnergyGraph.Expr.Fault
import EnergyGraph.Text.Letter

namespace EnergyGraph.Expr

inductive Token.Kind where
  | number (value : Number)
  | name
  | operator (op : Operator)
  | openParen
  | closeParen
  | openBracket
  | closeBracket
  | comma
  /-- Stands after the last character. -/
  | finish
deriving BEq, Inhabited

structure Token where
  kind : Token.Kind
  text : String
  start : Nat
  stop : Nat
deriving Inhabited

/-- The stretch of a token, at least one character wide. -/
def Token.span (t : Token) : Span := ⟨t.start, max t.stop (t.start + 1)⟩

/-! ## Numbers -/

/-- What follows the first character of a number: everything that could belong to
one, so that a malformed number is one chunk. A sign belongs to it after an `e`. -/
def numberTail (before : Char) : List Char → List Char
  | [] => []
  | c :: rest =>
    if Text.isAlphanumeric c || c == '.' || c == '_' then c :: numberTail c rest
    else if (c == '+' || c == '-') && (before == 'e' || before == 'E') then c :: numberTail c rest
    else []

/-- The value of a chunk that starts like a number. Digits alone are an integer; with a
point or an exponent the number is a double. -/
def numberValue (cs : List Char) (span : Span) : Except Unreadable Number :=
  let run := Decimal.takeDigits cs
  if run.count ≠ 0 ∧ run.rest = [] then
    if run.count > Decimal.longestInteger then .error .longInteger else .ok (.int run.value)
  else
    match Decimal.readUnsigned? cs with
    | none => .error (.mistake ⟨.malformedNumber (String.ofList cs), span⟩)
    | some x =>
      if x.isFinite then .ok (.float x)
      else .error (.mistake ⟨.infiniteNumber (String.ofList cs), span⟩)

/-! ## The other tokens -/

def isNameStart (c : Char) : Bool := Text.isLetter c || c == '_'

def isNameChar (c : Char) : Bool := Text.isAlphanumeric c || c == '_'

/-- Tokens of one character. -/
def mark? : Char → Option Token.Kind
  | '+' => some (.operator .add)
  | '-' => some (.operator .sub)
  | '*' => some (.operator .mul)
  | '/' => some (.operator .div)
  | '^' => some (.operator .pow)
  | '(' => some .openParen
  | ')' => some .closeParen
  | '[' => some .openBracket
  | ']' => some .closeBracket
  | ',' => some .comma
  | _ => none

/-- A number starts with a digit, or with a point and a digit. -/
def startsNumber (c : Char) (rest : List Char) : Bool :=
  Text.isDigit c ||
    (c == '.' && match rest with
      | d :: _ => Text.isDigit d
      | [] => false)

/-- The tokens of a text whose first character stands at `start`. -/
def tokensFrom (start : Nat) (cs : List Char) : Except Unreadable (List Token) :=
  match cs with
  | [] => .ok []
  | c :: rest =>
    if Text.isBlank c then tokensFrom (start + 1) rest
    else if startsNumber c rest then
      let tail := numberTail c rest
      let stop := start + 1 + tail.length
      do
        let value ← numberValue (c :: tail) ⟨start, stop⟩
        let after ← tokensFrom stop (rest.drop tail.length)
        .ok (⟨.number value, String.ofList (c :: tail), start, stop⟩ :: after)
    else if isNameStart c then
      let tail := rest.takeWhile isNameChar
      let stop := start + 1 + tail.length
      do
        let after ← tokensFrom stop (rest.drop tail.length)
        .ok (⟨.name, String.ofList (c :: tail), start, stop⟩ :: after)
    else
      match mark? c with
      | some kind => do
        let after ← tokensFrom (start + 1) rest
        .ok (⟨kind, String.singleton c, start, start + 1⟩ :: after)
      | none => .error (.mistake ⟨.unexpectedCharacter c, ⟨start, start + 1⟩⟩)
termination_by cs.length
decreasing_by all_goals (simp; try omega)

/-- The tokens of a text, the last of them the end of the text. -/
def tokenize (text : String) : Except Unreadable (List Token) := do
  let cs := text.toList
  let tokens ← tokensFrom 0 cs
  .ok (tokens ++ [⟨.finish, "", cs.length, cs.length⟩])

end EnergyGraph.Expr
