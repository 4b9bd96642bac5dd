-- Whether the indices of a component stay within the arrays. Only the smallest and
-- the largest value of a symbol are looked at.
import EnergyGraph.Interaction.Basic

namespace EnergyGraph.Bounds

inductive Fault where
  | wrongRank (array : String) (rank count : Nat)
  | outside (interaction array : String) (k : Int) (axis dimension : Nat) (base : Int)
deriving DecidableEq, Inhabited

def Fault.diagnostic (f : Fault) (component : String) : Diagnostic :=
  let path := ["components", component]
  let own : String × Value := ("component", .text component)
  match f with
  | .wrongRank array rank count =>
    validationError "ShapeMismatch"
      s!"Component '{component}': '{array}' has {rank} dimension(s) but is indexed with {count}." path
      [own, ("array", .text array), ("expected", .int rank), ("actual", .int count)]
  | .outside interaction array k axis dimension base =>
    resolveError "IndexOutOfBounds"
      s!"Component '{component}': index {k} on axis {axis} of '{array}' is outside {base}..{base + dimension - 1} (interaction '{interaction}')."
      path
      [own, ("interaction", .text interaction), ("array", .text array), ("index", .int k),
       ("axis", .int axis), ("dimension", .int dimension)]

/-- The values of an index that have to be looked at. -/
def candidates (extents : List (String × Int × Int)) : Index → List Int
  | .literal n _ => [n]
  | .symbol name _ =>
    match extents.lookup name with
    | some (low, high) => [low, high]
    | none => []

/-- An index value points at a cell of an axis. -/
def isInside (base : Int) (dimension : Nat) (k : Int) : Bool :=
  base ≤ k && k ≤ base + dimension - 1

/-- The first index value of a reference that is outside of its axis, with the axis. -/
def outside? (extents : List (String × Int × Int)) (base : Int) (indices : List Index)
    (shape : Shape) : Option (Int × Nat × Nat) :=
  (indices.zip shape).zipIdx.findSome? fun ((i, d), axis) =>
    ((candidates extents i).find? fun k => !isInside base d k).map fun k => (k, axis, d)

def checkReference (interaction : String) (extents : List (String × Int × Int))
    (shapes : List (String × Shape)) (base : Int) : Expr.Part → Except Fault Unit
  | .expr (.ref name (first :: rest) _) =>
    let indices := first :: rest
    match shapes.lookup name with
    | none => .ok ()
    | some shape =>
      if indices.length ≠ shape.length then
        .error (.wrongRank name shape.length indices.length)
      else
        match outside? extents base indices shape with
        | some (k, axis, d) => .error (.outside interaction name k axis d base)
        | none => .ok ()
  | _ => .ok ()

/-- Every index of some expressions is within its array; arrays of unknown shape are left out. -/
def check (exprs : List Expr) (i : Interaction) (shapes : List (String × Shape)) (base : Int) :
    Except Fault Unit :=
  let extents := i.extents
  (exprs.flatMap Expr.walk).forM (checkReference i.id extents shapes base)

end EnergyGraph.Bounds
