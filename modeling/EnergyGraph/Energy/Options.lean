-- How an energy is evaluated: how many instances the audit keeps, whether bounds
-- are checked, and how many evaluations may run at a time.
import EnergyGraph.Diagnostic

namespace EnergyGraph.Energy

structure Options where
  /-- How many instances of a component the audit keeps. -/
  instanceCap : Nat
  checkBounds : Bool
deriving DecidableEq, Inhabited

def Options.usual : Options := ⟨10000, false⟩

/-- Options as they are given. -/
structure OptionsDecl where
  instanceCap : Int
  checkBounds : Bool
  /-- At most so many evaluations run at a time; nothing at all sets no limit. -/
  workers : Value

def OptionsDecl.usual : OptionsDecl := ⟨10000, false, .null⟩

/-- Whether a limit leaves no worker at all. -/
def leavesNone : Value → Except Failure Bool
  | .null => .ok false
  | .int n => .ok (n ≤ 0)
  | .float x => .ok (x ≤ 0.0)
  | .bool b => .ok !b
  | _ => Failure.refuse .badType

/-- Options that make sense. The number of workers changes no result. -/
def Options.ofDecl (d : OptionsDecl) : Except Failure Options := do
  if d.instanceCap < 0 then
    Failure.refuseWith .badValue "audit_instance_cap must be non-negative."
  if ← leavesNone d.workers then
    Failure.refuseWith .badValue "max_workers must be positive when provided."
  .ok ⟨d.instanceCap.toNat, d.checkBounds⟩

end EnergyGraph.Energy
