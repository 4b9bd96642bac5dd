-- Interactions and graphs as plain values.
import EnergyGraph.Document.Outline
import EnergyGraph.Graph.Basic

namespace EnergyGraph

/-- An array with the kind of its cells and its shape. -/
def DataArray.outline (a : DataArray) : Value :=
  .object [("array", a.value), ("dtype", .text a.cells.kindName), ("shape", a.shape.value)]

def Payload.outline : Payload → Value
  | .array a => a.outline
  | .listed items => .list items

def Tensor.outline (t : Tensor Float) : Value := 
  DataArray.outline ⟨t.shape, .floats t.cells, t.size_eq⟩

/-! ## Interactions -/

namespace Interaction

def tuplesOutline (items : List (List Int)) : Value := .list (items.map .ints)

/-- What only some domains have. -/
def Domain.bounds : Domain → List Range
  | .ranges bounds => bounds
  | _ => []

def Domain.groups? : Domain → Option (List (List Int))
  | .groups members => some members
  | _ => none

def Domain.grid? : Domain → Option (Shape × Grid.Connectivity)
  | .grid shape c => some (shape, c)
  | _ => none

def Domain.factor? : Domain → Option (Tensor Float)
  | .factor matrix => some matrix
  | _ => none

/-- An interaction with its first tuples, at most `limit` of them. -/
def outlineMembers (i : Interaction) (limit : Nat) : Object :=
  let size : Value := match i.size i.symbols with
    | .ok n => .int n
    | .error _ => .null
  let connectivity := (i.domain.grid?.map (·.2)).getD .axis
  [("id", .text i.id), ("kind", .text i.kind.name), ("symbols", .texts i.symbols),
   ("ranges", tuplesOutline (i.domain.bounds.map fun r => [r.low, r.high])),
   ("groups", .ofOption tuplesOutline i.domain.groups?),
   ("grid_dims", .ofOption (fun g => Shape.value g.1) i.domain.grid?),
   ("connectivity", .text connectivity.name), ("index_base", .int i.base),
   ("factor", .ofOption Tensor.outline i.domain.factor?), ("size", size),
   ("tuples", .ofOption tuplesOutline (i.firstTuples limit i.symbols).toOption)]

end Interaction

/-! ## Graphs -/

namespace Graph

def Bound.outline : Bound → Value
  | .number x => .float x
  | .array a => a.outline

def VariableSpec.outline (v : VariableSpec) : Value :=
  .object [("name", .text v.name), ("type", .text v.type.name), ("shape", v.shape.value),
    ("lower", v.lower.outline), ("upper", v.upper.outline)]

def TermNode.outline (t : TermNode) : Value :=
  .object [("id", .text t.id), ("kind", .text t.kind.name),
    ("expr", .ofOption (fun f => .text f.body.text) t.expr),
    ("function", .ofOption .text t.function), ("args", .texts (t.args.map (·.body.text))),
    ("compat", .texts t.compat)]

def ComponentNode.outline (c : ComponentNode) : Value :=
  .object [("id", .text c.id), ("term", .int c.term), ("interaction", .int c.interaction),
    ("aggregator", c.aggregator.outline), ("free", .texts c.free),
    ("reductions", .texts c.reductions)]

def WeightedRef.outline (w : WeightedRef) : Value :=
  .object [("index", .int w.index), ("weight", .text w.weight.body.text)]

def HamiltonianNode.outline (h : HamiltonianNode) : Value :=
  .object [("id", .text h.id), ("type", .text h.type.name),
    ("components", .list (h.components.map WeightedRef.outline)), ("couples", .texts h.couples)]

/-- A graph, its interactions with their first tuples. -/
def outlineMembers (g : Graph) (limit : Nat) : Object :=
  [("name", .text g.name), ("version", .text g.version), ("index_base", .int g.base),
   ("parameters", .list (g.parameters.map fun (n, v) => .list [.text n, v.typed])),
   ("variables", .list (g.vars.map VariableSpec.outline)),
   ("data_names", .texts g.dataNames),
   ("terms", .list (g.terms.map TermNode.outline)),
   ("interactions", .list (g.interactions.map fun i => .object (i.outlineMembers limit))),
   ("components", .list (g.components.map ComponentNode.outline)),
   ("hamiltonians", .list (g.hamiltonians.map HamiltonianNode.outline)),
   ("ensemble", .list (g.ensemble.map WeightedRef.outline)),
   ("referenced_arrays", .texts (g.referencedArrays.mergeSort fun a b => a ≤ b))]

end Graph

end EnergyGraph
