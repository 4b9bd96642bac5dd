-- Whether the values of an audit fit together: a component with its instances, a
-- hamiltonian with its components, and the total with the hamiltonians.
import EnergyGraph.Aggregator.Replay
import EnergyGraph.Audit.Tree

namespace EnergyGraph.Audit

inductive Level where
  | component
  | hamiltonian
  | ensemble
deriving DecidableEq, Repr, Inhabited

def Level.name : Level → String
  | .component => "component"
  | .hamiltonian => "hamiltonian"
  | .ensemble => "ensemble"

/-- A recorded value that is not close to what it should be. -/
structure Mismatch (α : Type) where
  level : Level
  id : String
  recorded : α
  recomputed : α
deriving Inhabited

def Mismatch.toValue {α : Type} [Scalar α] (m : Mismatch α) : Value :=
  .object [("level", .text m.level.name), ("id", .text m.id),
    ("recorded", Scalar.value m.recorded), ("recomputed", Scalar.value m.recomputed)]

/-- How far two values may be apart: relative to the larger of them, and absolutely. -/
structure Tolerance (α : Type) where
  relative : α
  absolute : α

/-- The tolerances that count where none are given. -/
def Tolerance.usual : Tolerance Float := ⟨1e-9, 1e-12⟩

variable {α : Type} [Scalar α]

/-- Finite values that differ by no more than a tolerance. Tolerances below zero make no sense. -/
def isNear (t : Tolerance α) (a b : α) : Except Failure Bool :=
  if Scalar.lt t.relative Scalar.zero || Scalar.lt t.absolute Scalar.zero then
    Failure.refuse .badValue
  else
    let apart := Scalar.abs (b - a)
    .ok (Scalar.eq a b
      || Scalar.le apart (Scalar.abs (t.relative * b))
      || Scalar.le apart (Scalar.abs (t.relative * a))
      || Scalar.le apart t.absolute)

/-- Infinite values are close only if they are equal. -/
def isClose (t : Tolerance α) (a b : α) : Except Failure Bool :=
  if Scalar.isInfinite a || Scalar.isInfinite b then .ok (Scalar.eq a b) else isNear t a b

/-- The mismatch of a recorded value with a recomputed one, if they are not close. -/
def compareValues (t : Tolerance α) (level : Level) (id : String) (recorded recomputed : α) :
    Except Failure (List (Mismatch α)) := do
  if ← isClose t recorded recomputed then .ok [] else .ok [⟨level, id, recorded, recomputed⟩]

/-- A component is checked if all its instances are there. -/
def checkComponent (t : Tolerance α) (c : Component α) : Except Failure (List (Mismatch α)) :=
  if c.isTruncated || c.count ≠ c.instances.length then .ok []
  else do
    let recomputed ← c.aggregator.replay (c.instances.map (·.value))
    compareValues t .component c.id c.value recomputed

/-- The sum of weighted values, rounded only once. -/
def weightedSum (cs : List (Contribution α)) : Except Failure α :=
  (Scalar.exactSum (cs.map Contribution.weighted)).mapError fun k => .refusal (.plain k)

def checkSum (t : Tolerance α) (level : Level) (id : String) (recorded : α)
    (cs : List (Contribution α)) : Except Failure (List (Mismatch α)) := do
  compareValues t level id recorded (← weightedSum cs)

/-- Every mismatch of an audit: of components, of hamiltonians, and of the total. -/
def verify (t : Tolerance α) (tree : Tree α) : Except Failure (List (Mismatch α)) := do
  let components ← tree.components.mapM (checkComponent t)
  let hamiltonians ← tree.hamiltonians.mapM fun h =>
    checkSum t .hamiltonian h.id h.value h.components
  let total ← checkSum t .ensemble "total" tree.total tree.ensemble
  .ok (components.flatten ++ hamiltonians.flatten ++ total)

end EnergyGraph.Audit
