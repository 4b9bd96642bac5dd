-- Values for the declared parameters: overrides first, defaults second, each one
-- checked against the parameter's type and bounds.
import EnergyGraph.Decimal.Compare
import EnergyGraph.Document.Basic
import EnergyGraph.Findings

namespace EnergyGraph

namespace Parameter

inductive Fault where
  | undeclared (name : String) (declared : List String)
  | noValue (name : String)
  | wrongType (name : String) (type : ParameterType) (given : Value)
  | outOfBounds (name : String) (value lower upper : Value)
deriving Inhabited

namespace Fault

def parameter : Fault → String
  | .undeclared name _ | .noValue name | .wrongType name .. | .outOfBounds name .. => name

def code : Fault → String
  | .undeclared .. => "UnknownParameter"
  | .noValue _ => "MissingRequiredParameter"
  | .wrongType .. => "TypeMismatch"
  | .outOfBounds .. => "BoundsViolation"

def message : Fault → String
  | .undeclared name _ => s!"Override names undeclared parameter '{name}'."
  | .noValue name => s!"Parameter '{name}' has no override and no default."
  | .wrongType name type given =>
    s!"Parameter '{name}' expects {type.name}, got {given.typeName} {given.shown}."
  | .outOfBounds name value lower upper =>
    s!"Parameter '{name}' = {value.shown} is outside [{lower.plain}, {upper.plain}]."

def details : Fault → Object
  | .undeclared _ declared => [("declared", .texts declared)]
  | .noValue _ => []
  | .wrongType _ type given => [("expected", .text type.name), ("actual", .text given.typeName)]
  | .outOfBounds _ value lower upper => [("value", value), ("bounds", .list [lower, upper])]

def diagnostic (f : Fault) : Diagnostic :=
  resolveError f.code f.message ["parameters", f.parameter]
    (("parameter", .text f.parameter) :: f.details)

end Fault

def fail {α : Type} (f : Fault) : Except Failure α := .error (.diagnostic f.diagnostic)

/-- The value as the parameter's type holds it. An integral double is an integer,
an integer is a double, and a truth value is neither. -/
def coerce (p : Parameter) (v : Value) : Except Failure Value :=
  match p.type, v with
  | .bool, .bool b => .ok (.bool b)
  | .text, .text s => .ok (.text s)
  | .int, .int n => .ok (.int n)
  | .int, .float x => if isIntegral x then .ok (.int (truncated x)) else fail (.wrongType p.name p.type v)
  | .float, .float x => .ok (.float x)
  | .float, .int n =>
    match Decimal.ofInt? n with
    | some x => .ok (.float x)
    | none => Failure.refuse .tooLarge
  | _, _ => fail (.wrongType p.name p.type v)

/-- A bound as a number; nothing at all is no bound. -/
def bound? : Value → Except Failure (Option Number)
  | .null => .ok none
  | .int n => .ok (some (.int n))
  | .float x => .ok (some (.float x))
  | .bool b => .ok (some (.int (if b then 1 else 0)))
  | _ => Failure.refuse .badType

/-- Whether a number lies outside of the bounds; the second bound is looked at only
if the first one holds. -/
def isOutside (n : Number) (lower upper : Value) : Except Failure Bool := do
  let low ← bound? lower
  if (low.map fun b => n.lt b).getD false then .ok true
  else
    let high ← bound? upper
    .ok ((high.map fun b => b.lt n).getD false)

/-- Bounds count for numbers only. -/
def checkBounds (p : Parameter) (v : Value) : Except Failure Unit := do
  match p.bounds, v.number? with
  | some (lower, upper), some n =>
    if p.type = .int ∨ p.type = .float then
      if ← isOutside n lower upper then fail (.outOfBounds p.name v lower upper)
  | _, _ => .ok ()

/-- The value that a parameter takes on. -/
def accept (p : Parameter) (v : Value) : Except Failure Value := do
  let value ← p.coerce v
  p.checkBounds value
  .ok value

end Parameter

/-! ## Resolution -/

/-- Where the value of a parameter comes from. -/
inductive Origin where
  | override
  | default
deriving DecidableEq, Repr, Inhabited

def Origin.name : Origin → String
  | .override => "override"
  | .default => "default"

structure ResolvedParameter where
  name : String
  value : Value
  origin : Origin
deriving Inhabited

/-- Parameters with their values, in the order of their declarations. -/
abbrev ResolvedParameters := List ResolvedParameter

namespace ResolvedParameters

def values (ps : ResolvedParameters) : Object := ps.map fun p => (p.name, p.value)

def get? (ps : ResolvedParameters) (name : String) : Option Value := (values ps).lookup name

/-- The numbers among some values; truth values are not among them. -/
def numbersOf (o : Object) : Numbers := o.filterMap fun (name, v) => v.number?.map fun n => (name, n)

/-- The values that expressions can use. -/
def numeric (ps : ResolvedParameters) : Numbers := numbersOf (values ps)

end ResolvedParameters

namespace Parameter

/-- Parameters by name: of several with one name the last counts, at the place of the first. -/
def byName (ps : List Parameter) : List Parameter :=
  (Expr.firsts (ps.map (·.name))).filterMap fun name => ps.reverse.find? fun p => p.name == name

section

variable {m : Type → Type} [Monad m] [Reports m]

/-- The value of one parameter, if it has an admissible one. -/
def resolveOne (overrides : Object) (p : Parameter) : m (Option ResolvedParameter) :=
  let given? : Option (Value × Origin) :=
    match overrides.lookup p.name with
    | some v => some (v, .override)
    | none => if p.required then none else some (p.default, .default)
  match given? with
  | none => do
    Reports.report (Fault.noValue p.name).diagnostic
    pure none
  | some (v, origin) => do
    let value? ← Findings.attempt (p.accept v)
    pure (value?.map fun value => ⟨p.name, value, origin⟩)

def checkAll (parameters : List Parameter) (overrides : Object) : m ResolvedParameters := do
  let declared := byName parameters
  let names := (declared.map (·.name)).mergeSort fun a b => a ≤ b
  for (name, _) in overrides do
    if !names.contains name then Reports.report (Fault.undeclared name names).diagnostic
  declared.filterMapM (resolveOne overrides)

end

/-- The values of all parameters: it fails with the first mistake, or with all of them. -/
def resolve (parameters : List Parameter) (overrides : Object) (collect : Bool) :
    Except Failure ResolvedParameters :=
  Findings.settle collect fun _ => checkAll parameters overrides

end Parameter

end EnergyGraph
