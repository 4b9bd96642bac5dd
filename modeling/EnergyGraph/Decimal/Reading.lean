-- Numbers read from text: integers and decimals, with digits of any script,
-- single underscores between digits, blanks around, and the words for the
-- infinities and for the value that is not a number.
import EnergyGraph.Decimal.Rounding
import EnergyGraph.Text.Blank
import EnergyGraph.Text.Digit

namespace EnergyGraph.Decimal

open Text

/-- The double nearest to digits · 10^exp. Far outside the range of doubles the
answer is infinite or zero, and the power is not computed. -/
def nearest (digits : Nat) (exp : Int) : Float :=
  if digits = 0 then 0.0
  else
    let magnitude : Int := (Nat.log2 digits : Int) * 30103 / 100000 + exp
    if magnitude > 320 then 1.0 / 0.0
    else if magnitude < -400 then 0.0
    else nearestRatio (digits * Nat.pow 10 exp.toNat) (Nat.pow 10 (-exp).toNat)

/-- The double nearest to an integer, infinite when it is out of range. -/
def ofInt (n : Int) : Float :=
  if n < 0 then -(nearest n.natAbs 0) else nearest n.natAbs 0

/-- The double nearest to an integer, where there is a finite one. -/
def ofInt? (n : Int) : Option Float :=
  let x := ofInt n
  if x.isFinite then some x else none

/-- A run of digits with the number they add up to. -/
structure Digits where
  value : Nat
  count : Nat
  rest : List Char

/-- Digits with single underscores between them. The run ends before an
underscore that no digit follows. -/
def takeDigits (cs : List Char) : Digits := go 0 0 cs
where
  go (value count : Nat) : List Char → Digits
    | [] => ⟨value, count, []⟩
    | '_' :: c :: rest =>
      match decimalValue? c with
      | some d => if count = 0 then ⟨value, count, '_' :: c :: rest⟩ else go (value * 10 + d) (count + 1) rest
      | none => ⟨value, count, '_' :: c :: rest⟩
    | c :: rest =>
      match decimalValue? c with
      | some d => go (value * 10 + d) (count + 1) rest
      | none => ⟨value, count, c :: rest⟩

/-- A sign at the front: whether it is a minus, and what follows. -/
def takeSign : List Char → Bool × List Char
  | '-' :: rest => (true, rest)
  | '+' :: rest => (false, rest)
  | cs => (false, cs)

/-- The exponent of a decimal, from the mark on. -/
def readExponent? : List Char → Option Int
  | [] => some 0
  | c :: rest =>
    if c = 'e' ∨ c = 'E' then
      let (negative, body) := takeSign rest
      let run := takeDigits body
      if run.count = 0 ∨ run.rest ≠ [] then none
      else some (if negative then -(run.value : Int) else run.value)
    else none

/-- Digits, a point, digits and an exponent; digits on one side of the point suffice. -/
def readUnsigned? (cs : List Char) : Option Float :=
  let whole := takeDigits cs
  let (fraction, tail) : Digits × List Char :=
    match whole.rest with
    | '.' :: rest => let f := takeDigits rest; (f, f.rest)
    | rest => (⟨0, 0, []⟩, rest)
  if whole.count + fraction.count = 0 then none
  else
    (readExponent? tail).map fun e =>
      let digits := whole.value * Nat.pow 10 fraction.count + fraction.value
      nearest digits (e - fraction.count)

/-- A decimal, or one of the words `inf`, `infinity` and `nan` in any case. -/
def readFloat? (s : String) : Option Float :=
  let (negative, body) := takeSign (trimmed s.toList)
  let word := String.ofList (body.map Char.toLower)
  let magnitude? :=
    if word == "inf" || word == "infinity" then some (1.0 / 0.0)
    else if word == "nan" then some (0.0 / 0.0)
    else readUnsigned? body
  magnitude?.map fun x => if negative then -x else x

/-- The most digits that an integer is read from. Decimals have no such limit. -/
def longestInteger : Nat := 4300

/-- A decimal integer with an optional sign. -/
def readInt? (s : String) : Option Int :=
  let (negative, body) := takeSign (trimmed s.toList)
  let run := takeDigits body
  if run.count = 0 ∨ run.rest ≠ [] ∨ run.count > longestInteger then none
  else some (if negative then -(run.value : Int) else run.value)

end EnergyGraph.Decimal
