-- Aggregates recomputed from all values at once, by the formula of each kind and
-- not by pushing. They serve to check recorded aggregates.
import EnergyGraph.Aggregator.Basic
import EnergyGraph.Summation

namespace EnergyGraph.Aggregator

open Summation (total)

variable {α : Type} [Scalar α]

/-- The extreme value of a non-empty list; an undefined value makes the extreme undefined. -/
def extreme (pick : α → α → α) (first : α) (rest : List α) : α :=
  rest.foldl (fun a b => if !Scalar.isDefined a then a else if !Scalar.isDefined b then b else pick a b) first

/-- The logarithm of the sum of the exponentials, taken relative to the largest. -/
def logSumExp (first : α) (rest : List α) : α :=
  let top := extreme Scalar.larger first rest
  let shift := if Scalar.isFinite top then top else Scalar.zero
  Scalar.log (total ((first :: rest).map fun y => Scalar.exp (y - shift))) + shift

/-- The larger of a value and the floor of logarithms; an undefined value stays undefined. -/
def floored (x : α) : α := if Scalar.isDefined x then Scalar.larger x logFloor else x

def replay (a : Aggregator α) (values : List α) : Except Failure α :=
  match a.kind with
  | .identity =>
    match values with
    | [x] => .ok x
    | _ => fail (.notSingleReplayed values.length)
  | .sum => .ok (total values)
  | .prod =>
    if values.any fun x => Scalar.eq x Scalar.zero then .ok Scalar.zero
    else .ok (values.foldl (· * ·) Scalar.one)
  | .logprod => .ok (total (values.map fun x => Scalar.log (floored x)))
  | kind =>
    match values with
    | [] => fail (.emptyDomain kind)
    | first :: rest =>
      match kind with
      | .max => .ok (extreme Scalar.larger first rest)
      | .min => .ok (extreme Scalar.smaller first rest)
      | .mean => .ok (total values / Scalar.ofNat values.length)
      | .logsumexp =>
        .ok (logSumExp (a.beta * first) (rest.map fun x => a.beta * x) / a.beta)
      | _ => cvar values a.alpha

end EnergyGraph.Aggregator
