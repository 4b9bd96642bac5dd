-- The exact value of a binary floating-point number, as a natural number times
-- a power of two, and what can be decided from it without rounding: whether it
-- is an integer, which one, and how it compares with a decimal.

namespace EnergyGraph.Decimal

/-- A finite value without its sign, m · 2^q. -/
structure Binary where
  m : Nat
  q : Int
  /-- The gap to the value below is half the gap to the value above. -/
  narrowBelow : Bool

/-- The bits of a finite value, the sign left aside. -/
def Binary.ofBits (bits : UInt64) : Binary :=
  let e := ((bits >>> 52) &&& 0x7FF).toNat
  let f := (bits &&& 0xFFFFFFFFFFFFF).toNat
  if e == 0 then ⟨f, -1074, false⟩ else ⟨Nat.pow 2 52 + f, (e : Int) - 1075, f == 0 && e > 1⟩

def isNegativeBits (bits : UInt64) : Bool := bits >>> 63 == 1

/-- The largest integer below or at m · 2^q. -/
def Binary.floor (x : Binary) : Nat :=
  if 0 ≤ x.q then x.m * Nat.pow 2 x.q.toNat else x.m / Nat.pow 2 (-x.q).toNat

def Binary.isIntegral (x : Binary) : Bool :=
  0 ≤ x.q || x.m % Nat.pow 2 (-x.q).toNat == 0

/-- A decimal, digits · 10^exp. -/
structure Dec where
  digits : Nat
  exp : Int
deriving Repr, DecidableEq

/-- Compares a · 10^i with n · 2^j exactly. -/
def cmpScaled (a : Nat) (i : Int) (n : Nat) (j : Int) : Ordering :=
  compare (a * Nat.pow 10 i.toNat * Nat.pow 2 (-j).toNat)
    (n * Nat.pow 2 j.toNat * Nat.pow 10 (-i).toNat)

/-- The decimal lies among the reals that round to the value, to nearest and ties to even. -/
def Binary.readsBack (x : Binary) (d : Dec) : Bool :=
  let low := if x.narrowBelow then 4 * x.m - 1 else 4 * x.m - 2
  let high := 4 * x.m + 2
  let ends := x.m % 2 == 0
  let atLow := cmpScaled d.digits d.exp low (x.q - 2)
  let atHigh := cmpScaled d.digits d.exp high (x.q - 2)
  (atLow == .gt || (ends && atLow == .eq)) && (atHigh == .lt || (ends && atHigh == .eq))

end EnergyGraph.Decimal

namespace EnergyGraph

/-- A finite number with no fractional part. -/
def isIntegral (x : Float) : Bool :=
  x.isFinite && (Decimal.Binary.ofBits x.toBits).isIntegral

/-- The integer part of a finite number, toward zero. -/
def truncated (x : Float) : Int :=
  let n : Int := (Decimal.Binary.ofBits x.toBits).floor
  if Decimal.isNegativeBits x.toBits then -n else n

/-- The largest integer that is not above a finite number. -/
def floored (x : Float) : Int :=
  let n := truncated x
  if Decimal.isNegativeBits x.toBits && !isIntegral x then n - 1 else n

end EnergyGraph
