-- Aggregators: how the values of a term over a domain become one number. Each
-- value is pushed into an accumulator, and the result can be read at any time.
import EnergyGraph.Scalar
import EnergyGraph.Diagnostic
import EnergyGraph.Sorting.Basic

namespace EnergyGraph

namespace Aggregator

inductive Kind where
  | identity
  | sum
  | prod
  | max
  | min
  | mean
  | logsumexp
  | logprod
  | cvar
deriving DecidableEq, Repr, Inhabited

namespace Kind

def all : List Kind := [.identity, .sum, .prod, .max, .min, .mean, .logsumexp, .logprod, .cvar]

def name : Kind → String
  | .identity => "identity"
  | .sum => "sum"
  | .prod => "prod"
  | .max => "max"
  | .min => "min"
  | .mean => "mean"
  | .logsumexp => "logsumexp"
  | .logprod => "logprod"
  | .cvar => "cvar"

def names : List String := all.map name

def ofName? (s : String) : Option Kind := all.find? fun k => k.name == s

end Kind

end Aggregator

/-- A kind of aggregation, the inverse temperature `beta` of a log-sum-exp, and
the level `alpha` of a conditional value at risk. -/
structure Aggregator (α : Type) where
  kind : Aggregator.Kind
  beta : α
  alpha : α
deriving Inhabited

namespace Aggregator

variable {α : Type}

def map {β : Type} (f : α → β) (a : Aggregator α) : Aggregator β := ⟨a.kind, f a.beta, f a.alpha⟩

/-- An aggregator of this kind with the usual parameters. -/
def ofKind (kind : Kind) : Aggregator Float := ⟨kind, 1.0, 0.95⟩

/-- Why a kind and its parameters make no aggregator. -/
inductive SpecFault where
  | unknownKind (name : String)
  | badBeta
  | badAlpha
deriving DecidableEq, Inhabited

def SpecFault.message : SpecFault → String
  | .unknownKind name =>
    s!"Unknown aggregator '{name}'. Expected one of: " ++ ", ".intercalate Kind.names ++ "."
  | .badBeta => "logsumexp beta must be finite and non-zero."
  | .badAlpha => "cvar alpha must be in [0, 1)."

variable [Scalar α]

/-- The parameters fit the kind. -/
def check (a : Aggregator α) : Except SpecFault (Aggregator α) :=
  if a.kind = .logsumexp ∧ (Scalar.eq a.beta Scalar.zero ∨ !Scalar.isFinite a.beta) then
    .error .badBeta
  else if a.kind = .cvar ∧ !(Scalar.le Scalar.zero a.alpha && Scalar.lt a.alpha Scalar.one) then
    .error .badAlpha
  else .ok a

def ofName (kind : String) (beta alpha : α) : Except SpecFault (Aggregator α) :=
  match Kind.ofName? kind with
  | none => .error (.unknownKind kind)
  | some k => check ⟨k, beta, alpha⟩

/-- Why the values over a domain have no aggregate. -/
inductive Fault where
  | emptyDomain (kind : Kind)
  | notSingle (count : Nat)
  | notSingleReplayed (count : Nat)
deriving DecidableEq, Inhabited

namespace Fault

def code : Fault → String
  | .emptyDomain _ => "EmptyDomain"
  | .notSingle _ | .notSingleReplayed _ => "ArityMismatch"

def message : Fault → String
  | .emptyDomain kind => s!"Aggregator '{kind.name}' is undefined over an empty domain."
  | .notSingle count =>
    s!"Aggregator 'identity' requires exactly one term instance, got {count}."
  | .notSingleReplayed count => s!"identity replay expects one value, got {count}."

def context : Fault → Object
  | .emptyDomain kind => [("aggregator", .text kind.name)]
  | .notSingle count =>
    [("aggregator", .text "identity"), ("expected", .int 1), ("actual", .int count)]
  | .notSingleReplayed _ => []

def diagnostic (f : Fault) : Diagnostic := evalError f.code f.message [] f.context

end Fault

def fail {β : Type} (f : Fault) : Except Failure β := .error (.diagnostic f.diagnostic)

/-! ## Conditional value at risk -/

/-- The items before a position; a negative position counts from the end. -/
def before (items : List α) (position : Int) : List α :=
  if 0 ≤ position then items.take position.toNat
  else items.take (items.length - position.natAbs)

/-- The item at a position; a negative position counts from the end. -/
def item? (items : List α) (position : Int) : Option α :=
  if 0 ≤ position then items[position.toNat]?
  else if position.natAbs ≤ items.length then items[items.length - position.natAbs]? else none

/-- The mean of the largest values, as many of them as make up the fraction
`1 - alpha` of all; the last of them counts in part. -/
def cvar (values : List α) (alpha : α) : Except Failure α := do
  let ordered := Sorting.descending Scalar.lt Scalar.isDefined values
  let n := ordered.length
  if n = 0 then fail (.emptyDomain .cvar)
  else
    let tail : α := (Scalar.one - alpha) * Scalar.ofNat n
    match Scalar.floor? tail with
    | none => Failure.refuse (if Scalar.isInfinite tail then .tooLarge else .badValue)
    | some full =>
      let whole := (before ordered full).foldl (· + ·) Scalar.zero
      let part := tail - (Scalar.ofInt? full).getD Scalar.zero
      let total ←
        if Scalar.lt Scalar.zero part && full < n then
          match item? ordered full with
          | some x => Except.ok (whole + part * x)
          | none => Failure.refuse .badPosition
        else Except.ok whole
      if Scalar.eq tail Scalar.zero then Failure.refuse .divisionByZero else .ok (total / tail)

/-! ## Accumulators -/

/-- Values pushed so far, as far as the aggregate needs them. -/
inductive Accumulator (α : Type) where
  | identity (count : Nat) (last : α)
  | sum (count : Nat) (total : α)
  | prod (count : Nat) (total : α) (hasZero : Bool)
  /-- The largest or the smallest value. -/
  | extremum (largest : Bool) (count : Nat) (best : α)
  | mean (count : Nat) (total : α)
  /-- The sum of the exponentials of all products with `beta` is `scaled · exp shift`. -/
  | logsumexp (beta : α) (count : Nat) (shift scaled : α)
  | logprod (count : Nat) (total : α)
  /-- The values themselves, the latest first. -/
  | cvar (alpha : α) (count : Nat) (latest : List α)

/-- Values below it count as this much before their logarithm is taken. -/
def logFloor : α := Scalar.ofFloat 1e-12

def negativeInfinity : α := Scalar.ofFloat (-(1.0 / 0.0))

def start (a : Aggregator α) : Accumulator α :=
  match a.kind with
  | .identity => .identity 0 Scalar.zero
  | .sum => .sum 0 Scalar.zero
  | .prod => .prod 0 Scalar.one false
  | .max => .extremum true 0 Scalar.zero
  | .min => .extremum false 0 Scalar.zero
  | .mean => .mean 0 Scalar.zero
  | .logsumexp => .logsumexp a.beta 0 negativeInfinity Scalar.zero
  | .logprod => .logprod 0 Scalar.zero
  | .cvar => .cvar a.alpha 0 []

namespace Accumulator

omit [Scalar α] in
def count : Accumulator α → Nat
  | .identity n _ | .sum n _ | .prod n _ _ | .extremum _ n _ | .mean n _ | .logsumexp _ n _ _
  | .logprod n _ | .cvar _ n _ => n

/-- One more exponent `y` in a sum of exponentials; only differences from the
largest exponent so far are exponentiated. -/
def pushExponent (y shift scaled : α) : α × α :=
  if Scalar.lt shift y then (y, scaled * Scalar.exp (shift - y) + Scalar.one)
  else if Scalar.eq y shift then (shift, scaled + Scalar.one)
  else if Scalar.eq y negativeInfinity then (shift, scaled)
  else (shift, scaled + Scalar.exp (y - shift))

def push (acc : Accumulator α) (x : α) : Accumulator α :=
  match acc with
  | .identity n _ => .identity (n + 1) x
  | .sum n total => .sum (n + 1) (total + x)
  | .prod n total hasZero => .prod (n + 1) (total * x) (hasZero || Scalar.eq x Scalar.zero)
  | .extremum largest n best =>
    let pick := if largest then Scalar.larger else Scalar.smaller
    .extremum largest (n + 1) (if n = 0 then x else pick best x)
  | .mean n total => .mean (n + 1) (total + x)
  | .logsumexp beta n shift scaled =>
    let (shift, scaled) := pushExponent (beta * x) shift scaled
    .logsumexp beta (n + 1) shift scaled
  | .logprod n total => .logprod (n + 1) (total + Scalar.log (Scalar.larger x logFloor))
  | .cvar alpha n latest => .cvar alpha (n + 1) (x :: latest)

/-- The aggregate of the values so far. A product with a zero factor is zero. -/
def result (acc : Accumulator α) : Except Failure α :=
  match acc with
  | .identity n last => if n = 1 then .ok last else fail (.notSingle n)
  | .sum _ total => .ok total
  | .prod _ total hasZero => .ok (if hasZero then Scalar.zero else total)
  | .extremum largest n best =>
    if n = 0 then fail (.emptyDomain (if largest then .max else .min)) else .ok best
  | .mean n total => if n = 0 then fail (.emptyDomain .mean) else .ok (total / Scalar.ofNat n)
  | .logsumexp beta n shift scaled =>
    if n = 0 then fail (.emptyDomain .logsumexp)
    else if Scalar.eq shift negativeInfinity then .ok (negativeInfinity / beta)
    else .ok ((shift + Scalar.log scaled) / beta)
  | .logprod _ total => .ok total
  | .cvar alpha _ latest => Aggregator.cvar latest.reverse alpha

end Accumulator

/-- All values pushed in order, and the result. -/
def aggregate (a : Aggregator α) (values : List α) : Except Failure α :=
  (values.foldl Accumulator.push a.start).result

end Aggregator

end EnergyGraph
