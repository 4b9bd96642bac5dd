-- The shortest decimal that reads back as a given value, the nearest of those,
-- and the text that numbers have in every output.
import EnergyGraph.Decimal.Binary

namespace EnergyGraph.Decimal

/-! ## The digits -/

/-- The least k with m · 2^q below 10^k, for a value that is not zero. The
logarithm to base two leaves three candidates. -/
def Binary.scale (x : Binary) : Int :=
  let guess := ((Nat.log2 x.m : Int) + x.q) * 30103 / 100000
  let below (k : Int) : Bool := cmpScaled 1 k x.m x.q == .gt
  if below guess then guess else if below (guess + 1) then guess + 1 else guess + 2

/-- The largest multiple of 10^grid that is not above the value, counted in steps of the grid. -/
def Binary.steps (x : Binary) (grid : Int) : Nat :=
  (x.m * Nat.pow 2 x.q.toNat * Nat.pow 10 (-grid).toNat) /
    (Nat.pow 2 (-x.q).toNat * Nat.pow 10 grid.toNat)

/-- Of the two points of the grid around the value the one that reads back; of
two such points the nearer, and the even one where both are equally near. -/
def Binary.onGrid? (x : Binary) (grid : Int) : Option Dec :=
  let low := x.steps grid
  let below : Dec := ⟨low, grid⟩
  let above : Dec := ⟨low + 1, grid⟩
  match x.readsBack below, x.readsBack above with
  | true, true =>
    match cmpScaled (2 * low + 1) grid (2 * x.m) x.q with
    | .gt => some below
    | .lt => some above
    | .eq => some (if low % 2 == 0 then below else above)
  | true, false => some below
  | false, true => some above
  | false, false => none

/-- Drops zeros at the end of the digits; `fuel` bounds how many. -/
def Dec.stripped (d : Dec) : Dec := go (Nat.log2 d.digits + 1) d
where
  go : Nat → Dec → Dec
    | 0, d => d
    | fuel + 1, d =>
      if d.digits ≠ 0 ∧ d.digits % 10 = 0 then go fuel ⟨d.digits / 10, d.exp + 1⟩ else d

/-- The value itself, as a decimal with all of its digits. -/
def Binary.exact (x : Binary) : Dec :=
  if 0 ≤ x.q then ⟨x.m * Nat.pow 2 x.q.toNat, 0⟩ else ⟨x.m * Nat.pow 5 (-x.q).toNat, x.q⟩

/-- The decimal with the fewest digits that reads back; seventeen always suffice. -/
def Binary.shortest (x : Binary) : Dec :=
  let scale := x.scale
  let found := (List.range 17).findSome? fun n => x.onGrid? (scale - (n + 1 : Nat))
  (found.getD x.exact).stripped

/-! ## The layout -/

/-- Decisions of a number format that do not change the digits. -/
structure Layout where
  /-- Exponents of the leading digit from here on are written positionally. -/
  plainFrom : Int
  /-- Exponents below this one are written positionally. -/
  plainBelow : Int
  /-- Positional integers keep a point and a zero. -/
  pointZero : Bool
  /-- The least number of digits of an exponent. -/
  exponentWidth : Nat

def Layout.exponent (l : Layout) (e : Int) : String :=
  let digits := toString e.natAbs
  let sign := if e < 0 then "-" else "+"
  "e" ++ sign ++ String.ofList (List.replicate (l.exponentWidth - digits.length) '0') ++ digits

/-- The decimal in this layout; the digits do not end in zero. -/
def Layout.render (l : Layout) (d : Dec) : String :=
  let digits := toString d.digits
  let n : Int := digits.length
  let e := d.exp + n - 1
  let zeros (k : Int) : String := String.ofList (List.replicate k.toNat '0')
  if l.plainFrom ≤ e ∧ e < l.plainBelow then
    if e < 0 then "0." ++ zeros (-e - 1) ++ digits
    else if e + 1 < n then
      String.ofList (digits.toList.take (e + 1).toNat) ++ "." ++
        String.ofList (digits.toList.drop (e + 1).toNat)
    else digits ++ zeros (e + 1 - n) ++ (if l.pointZero then ".0" else "")
  else
    match digits.toList with
    | [] => ""
    | [c] => String.singleton c ++ l.exponent e
    | c :: rest => String.singleton c ++ "." ++ String.ofList rest ++ l.exponent e

/-- Numbers in results and messages. -/
def resultLayout : Layout where
  plainFrom := -4
  plainBelow := 16
  pointZero := true
  exponentWidth := 2

end EnergyGraph.Decimal

namespace EnergyGraph

open Decimal in
/-- The text of a number: the shortest that reads back, `inf`, `-inf` or `nan`. -/
def numberText (x : Float) : String :=
  if x.isNaN then "nan"
  else
    let sign := if isNegativeBits x.toBits then "-" else ""
    if x.isInf then sign ++ "inf"
    else
      let value := Binary.ofBits x.toBits
      if value.m = 0 then sign ++ "0.0" else sign ++ resultLayout.render value.shortest

end EnergyGraph
