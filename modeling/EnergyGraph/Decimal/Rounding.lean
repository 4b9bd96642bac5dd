-- The double nearest to a fraction of natural numbers, ties to the even one. The
-- fraction is scaled to 53 binary digits and rounded once.
namespace EnergyGraph.Decimal

/-- The quotient rounded to the nearest integer, ties to the even one. -/
def roundedQuotient (n d : Nat) : Nat :=
  let q := n / d
  match compare (2 * (n % d)) d with
  | .lt => q
  | .gt => q + 1
  | .eq => if q % 2 = 0 then q else q + 1

/-- The exponent with which n / d has 53 binary digits, or as many as the smallest
exponent leaves it. -/
def binaryExponent (n d : Nat) : Int :=
  let guess : Int := (Nat.log2 n : Int) - Nat.log2 d
  let isLess := n * Nat.pow 2 (-guess).toNat < d * Nat.pow 2 guess.toNat
  max (if isLess then guess - 53 else guess - 52) (-1074)

/-- The bits of m · 2^e, where m has at most 53 digits, and fewer only under the
smallest exponent. A carry out of the digits raises the exponent. -/
def bitsOf (m : Nat) (e : Int) : Nat :=
  if m < Nat.pow 2 52 then m else (e + 1075).toNat * Nat.pow 2 52 + (m - Nat.pow 2 52)

def infinityBits : Nat := 0x7FF * Nat.pow 2 52

/-- The double nearest to n / d, infinite beyond the largest one. -/
def nearestRatio (n d : Nat) : Float :=
  if n = 0 ∨ d = 0 then 0.0
  else
    let e := binaryExponent n d
    let m := roundedQuotient (n * Nat.pow 2 (-e).toNat) (d * Nat.pow 2 e.toNat)
    Float.ofBits (min (bitsOf m e) infinityBits).toUInt64

end EnergyGraph.Decimal
