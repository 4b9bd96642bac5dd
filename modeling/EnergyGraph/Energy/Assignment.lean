-- Values for the variables of a graph: arrays of the declared shapes and, where that
-- is asked for, within the declared bounds and of the declared kind.
import EnergyGraph.Data.Store
import EnergyGraph.Energy.Fault
import EnergyGraph.Graph.Basic

namespace EnergyGraph

/-- Arrays by name; nothing for a name that has no value. -/
abbrev Assignment (α : Type) := String → Option (Except Failure (Tensor α))

namespace Assignment

/-- The assignment that an object's members make. -/
def ofObject (o : Object) : Assignment Float := fun name =>
  match o.get? name with
  | none | some .null => none
  | some v => some (Payload.floatsOfValue v)

/-- The assignment of what a store of data answers. -/
def ofLookup (data : Lookup) : Assignment Float := fun name =>
  match data name with
  | .ok p => some p.floats
  | .error e => if e.isUnknownName then none else some (.error e)

end Assignment

namespace Energy

variable {α : Type}

/-! ## Shapes -/

/-- A single cell without axes, if that is what is wanted. -/
def reshaped (t : Tensor α) (shape : Shape) : Tensor α :=
  if h : shape = [] ∧ t.cells.size = 1 then ⟨[], t.cells, h.2⟩ else t

/-- Values that stand for no number. -/
def isNotNumeric (r : Refusal) : Bool := r.kind = .badType || r.kind = .badValue

/-- The array of a variable, in its declared shape. -/
def valueOf (a : Assignment α) (v : Graph.VariableSpec) : Except Failure (Tensor α) :=
  match a v.name with
  | none => fail (.noValue v.name)
  | some (.error (.refusal r)) =>
    if isNotNumeric r then fail (.notNumeric v.name r.text) else .error (.refusal r)
  | some (.error e) => .error e
  | some (.ok t) =>
    let t := reshaped t v.shape
    if t.shape = v.shape then .ok t else fail (.wrongShape v.name v.shape t.shape)

/-- The arrays of all variables of a graph. -/
def normalize (g : Graph) (a : Assignment α) : Except Failure (Arrays α) :=
  g.vars.mapM fun v => do .ok (v.name, ← valueOf a v)

/-! ## Bounds and kinds -/

variable [Scalar α]

def boundArray : Graph.Bound → Tensor α
  | .number x => .scalar (Scalar.ofFloat x)
  | .array t => t.map Scalar.ofFloat

/-- The bound of the cell at a place: a bound without axes counts for every cell. -/
def boundAt (bound : Tensor α) (place : Nat) : Option α :=
  bound.cells[if bound.shape = [] then 0 else place]?

def isBelow (bound : Option α) (x : α) : Bool := (bound.map fun b => Scalar.lt x b).getD false

def isAbove (bound : Option α) (x : α) : Bool := (bound.map fun b => Scalar.lt b x).getD false

def isOutOfBounds (lower upper : Tensor α) (place : Nat) (x : α) : Bool :=
  isBelow (boundAt lower place) x || isAbove (boundAt upper place) x

/-- The value is none that a variable of this type can take. -/
def isNotOfType (type : VariableType) (x : α) : Bool :=
  match type with
  | .continuous => false
  | .binary => !Scalar.eq x Scalar.zero && !Scalar.eq x Scalar.one
  | .integer => !Scalar.isIntegral x && !Scalar.isInfinite x

omit [Scalar α] in
/-- The first cell that is bad, with its position. An array without axes has no
positions, and is never found bad. -/
def firstBad (t : Tensor α) (isBad : Nat → α → Bool) : Option (List Nat × α) :=
  if t.shape = [] then none
  else
    (t.cells.toList.zipIdx.find? fun (x, place) => isBad place x).map fun (x, place) =>
      (t.shape.position place, x)

/-- The values of a variable are within its bounds and of its type. -/
def checkFeasible (name : String) (type : VariableType) (lower upper values : Tensor α) :
    Except Failure Unit :=
  match firstBad values (isOutOfBounds lower upper) with
  | some (position, x) => fail (.outOfBounds name position (Scalar.value x))
  | none =>
    match firstBad values fun _ x => isNotOfType type x with
    | some (position, x) => fail (.notOfType name type position (Scalar.value x))
    | none => .ok ()

/-- All variables of a graph take values that they may take. -/
def checkVariables (g : Graph) (arrays : Arrays α) : Except Failure Unit :=
  g.vars.forM fun v =>
    match arrays.lookup v.name with
    | some values => checkFeasible v.name v.type (boundArray v.lower) (boundArray v.upper) values
    | none => .ok ()

end Energy

end EnergyGraph
