-- Energy graphs: the ensemble weighs hamiltonians, a hamiltonian weighs components,
-- and a component aggregates a term over an interaction. Nodes refer to those below
-- them by their places.
import EnergyGraph.Interaction.Basic

namespace EnergyGraph

namespace Graph

/-- A bound of a variable: one number for all entries, or an array. -/
inductive Bound where
  | number (x : Float)
  | array (a : Tensor Float)
deriving Inhabited

structure VariableSpec where
  name : String
  type : VariableType
  shape : Shape
  lower : Bound
  upper : Bound
deriving Inhabited

structure TermNode where
  id : String
  kind : TermKind
  expr : Option Formula
  function : Option String
  args : List Formula
  compat : List String
deriving Inhabited

/-- The formulas that a term is made of. -/
def TermNode.formulas (t : TermNode) : List Formula := t.expr.toList ++ t.args

structure ComponentNode where
  id : String
  term : Nat
  interaction : Nat
  aggregator : Aggregator Float
  free : List String
  reductions : List String
deriving Inhabited

/-- A node with a weight. -/
structure WeightedRef where
  index : Nat
  weight : Formula
deriving Inhabited

structure HamiltonianNode where
  id : String
  type : HamiltonianType
  components : List WeightedRef
  couples : List String
deriving Inhabited

end Graph

structure Graph where
  name : String
  version : String
  base : Int
  parameters : Object
  vars : List Graph.VariableSpec
  dataNames : List String
  terms : List Graph.TermNode
  interactions : List Interaction
  components : List Graph.ComponentNode
  hamiltonians : List Graph.HamiltonianNode
  ensemble : List Graph.WeightedRef
deriving Inhabited

namespace Graph

def unknown {α : Type} (what name : String) : Except Failure α :=
  Failure.refuseWith .unknownName s!"Unknown {what} '{name}'."

def specOf? (g : Graph) (name : String) : Option VariableSpec :=
  g.vars.find? fun v => v.name == name

/-- The variable of that name. -/
def findVariable (g : Graph) (name : String) : Except Failure VariableSpec :=
  match g.specOf? name with
  | some v => .ok v
  | none => unknown "variable" name

/-- The place of the component of that id. -/
def findComponent (g : Graph) (id : String) : Except Failure Nat :=
  match g.components.findIdx? fun c => c.id == id with
  | some k => .ok k
  | none => unknown "component" id

/-- The place of the hamiltonian of that id. -/
def findHamiltonian (g : Graph) (id : String) : Except Failure Nat :=
  match g.hamiltonians.findIdx? fun h => h.id == id with
  | some k => .ok k
  | none => unknown "hamiltonian" id

/-- The weights of components in hamiltonians, and of hamiltonians in the ensemble. -/
def weights (g : Graph) : List Formula :=
  g.hamiltonians.flatMap (fun h => h.components.map (·.weight)) ++ g.ensemble.map (·.weight)

/-- Every formula of the graph: those of terms, and the weights. -/
def formulas (g : Graph) : List Formula := g.terms.flatMap TermNode.formulas ++ g.weights

/-- The names outside of index lists, each once. -/
def referencedArrays (g : Graph) : List String :=
  Expr.firsts (g.formulas.flatMap fun f => f.body.names)

end Graph

end EnergyGraph
