-- What an evaluation records: the total, the weighted values that it is the sum of,
-- and the values that each of those was aggregated from.
import EnergyGraph.Aggregator.Basic
import EnergyGraph.Document.Basic

namespace EnergyGraph.Audit

variable {α : Type}

/-- One value of a term. -/
structure Instance (α : Type) where
  /-- The index tuple; of a group its members, of a matrix the row. -/
  index : List Int
  value : α
  /-- The place of a group. -/
  group : Option Nat
deriving Inhabited

structure Component (α : Type) where
  id : String
  value : α
  aggregator : Aggregator α
  term : String
  interaction : String
  /-- How many instances there were. -/
  count : Nat
  /-- The first of them. -/
  instances : List (Instance α)
  /-- Some instances were left out. -/
  isTruncated : Bool
deriving Inhabited

/-- A value with the weight that it has in a sum. -/
structure Contribution (α : Type) where
  id : String
  weight : α
  value : α
deriving Inhabited

structure Hamiltonian (α : Type) where
  id : String
  type : HamiltonianType
  value : α
  components : List (Contribution α)
  couples : List String
deriving Inhabited

/-- The values of an energy, level by level. -/
structure Tree (α : Type) where
  total : α
  ensemble : List (Contribution α)
  hamiltonians : List (Hamiltonian α)
  components : List (Component α)
deriving Inhabited

def Contribution.weighted [Scalar α] (c : Contribution α) : α := c.weight * c.value

/-! ## As values -/

def Instance.toValue [Scalar α] (i : Instance α) : Value :=
  .object ([("index", .ints i.index), ("value", Scalar.value i.value)] ++
    match i.group with
    | some k => [("group", .int k)]
    | none => [])

/-- The kind of an aggregator with the parameter that it has. -/
def aggregatorValue [Scalar α] (a : Aggregator α) : Value :=
  .object (("kind", .text a.kind.name) ::
    match a.kind with
    | .logsumexp => [("beta", Scalar.value a.beta)]
    | .cvar => [("alpha", Scalar.value a.alpha)]
    | _ => [])

def Component.toValue [Scalar α] (c : Component α) : Value :=
  .object [("id", .text c.id), ("value", Scalar.value c.value),
    ("aggregator", aggregatorValue c.aggregator), ("term", .text c.term),
    ("interaction", .text c.interaction), ("count", .int c.count),
    ("truncated", .bool c.isTruncated), ("instances", .list (c.instances.map Instance.toValue))]

/-- A contribution, its weight under a name. -/
def Contribution.toValue [Scalar α] (weightName : String) (c : Contribution α) : Value :=
  .object [("use", .text c.id), (weightName, Scalar.value c.weight), ("value", Scalar.value c.value)]

def Hamiltonian.toValue [Scalar α] (h : Hamiltonian α) : Value :=
  .object [("id", .text h.id), ("type", .text h.type.name), ("value", Scalar.value h.value),
    ("couples", .texts h.couples),
    ("components", .list (h.components.map (Contribution.toValue "alpha")))]

def Tree.toValue [Scalar α] (t : Tree α) : Value :=
  .object [("total", Scalar.value t.total),
    ("ensemble", .list (t.ensemble.map (Contribution.toValue "weight"))),
    ("hamiltonians", .object (t.hamiltonians.map fun h => (h.id, h.toValue))),
    ("components", .object (t.components.map fun c => (c.id, c.toValue)))]

end EnergyGraph.Audit
