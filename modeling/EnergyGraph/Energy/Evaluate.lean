-- The energy of an assignment. The total is the weighted sum of the hamiltonians in
-- the ensemble, each the weighted sum of its components, each the aggregate of a term
-- over the instances of an interaction. A component is evaluated the first time it is
-- used, and its audit is kept.
import EnergyGraph.Audit.Tree
import EnergyGraph.Energy.Assignment
import EnergyGraph.Energy.Options

namespace EnergyGraph

/-- Functions by name that expressions cannot see into. -/
abbrev Registry (α : Type) := String → List α → Except Refusal α

namespace Energy

variable {α : Type} [Scalar α]

/-- What one evaluation works with. -/
structure Evaluation (α : Type) where
  graph : Graph
  arrays : Arrays α
  registry : Option (Registry α)
  cap : Nat

/-! ## Terms -/

/-- The words for the failure of a function: a failed look-up is named as such. -/
def causeText (r : Refusal) : String :=
  match r.kind, r.message with
  | .unknownName, some m => s!"KeyError({Text.quoted m})"
  | _, _ => r.text

/-- The result of a function at some arguments. -/
def callFunction (registry : Option (Registry α)) (s : Site) (function : String) (args : List α)
    (symbols : Symbols) : Except Failure α :=
  match registry with
  | none => fail (.noRegistry s function)
  | some call =>
    (call function args).mapError fun r =>
      .diagnostic (Fault.functionFailed s function symbols (causeText r)).diagnostic

/-- The values of some expressions at an instance, and the symbols afterwards. -/
def evalArgs (s : Site) (c : EvalContext α) (symbols : Symbols) (exprs : List Expr) :
    Except Failure (List α × Symbols) :=
  match (Expr.evalAll c exprs).run.run symbols with
  | (.ok values, after) => .ok (values, after)
  | (.error e, after) => .error (failureOf (Fault.badInstance s after) e)

/-- The value of an expression at an instance. -/
def evalExpr (s : Site) (c : EvalContext α) (symbols : Symbols) (e : Expr) : Except Failure α :=
  match e.evaluate c symbols with
  | (.ok x, _) => .ok x
  | (.error f, after) => .error (failureOf (Fault.badInstance s after) f)

/-- The value of a term at an instance. -/
def termValue (e : Evaluation α) (s : Site) (t : Graph.TermNode) (c : EvalContext α)
    (symbols : Symbols) : Except Failure α :=
  if t.kind = .functional then do
    let (args, after) ← evalArgs s c symbols (t.args.map (·.body))
    callFunction e.registry s (t.function.getD "") args after
  else
    match t.expr with
    | some f => evalExpr s c symbols f.body
    | none => Failure.refuse .unknownAttribute

/-! ## Instances -/

/-- Where a term is evaluated: the symbols that have a value, and the values that the
symbols of reductions run over. -/
structure Point where
  index : List Int
  group : Option Nat
  symbols : Symbols
  domains : List (String × List Int)

/-- The values that the symbols of reductions run over. -/
def reductionDomains (i : Interaction) (reductions : List String) :
    Except Failure (List (String × List Int)) :=
  reductions.mapM fun s => do .ok (s, (← i.rangeOf s).values)

/-- The symbols that a tuple has values for: of ranges only the free ones are listed. -/
def tupleSymbols (i : Interaction) (free : List String) : List String :=
  match i.domain with
  | .ranges _ => free
  | _ => i.symbols

/-- The points of an interaction that is not given by a matrix, in order. -/
def points (i : Interaction) (free reductions : List String) : Except Failure (List Point) :=
  match i.domain with
  | .groups members =>
    .ok (members.zipIdx.map fun (ks, g) =>
      ⟨ks, some g, [], (i.symbols.take 1).map fun s => (s, ks)⟩)
  | _ => do
    let domains ← reductionDomains i reductions
    let symbols := tupleSymbols i free
    let tuples ← i.tuples symbols
    .ok (tuples.map fun ks => ⟨ks, none, symbols.zip ks, domains⟩)

/-- The points for the columns of a matrix. -/
def columnPoints (base : Int) (symbol : String) (count : Nat) : List Point :=
  (List.range count).map fun (k : Nat) => ⟨[base + k], none, [(symbol, base + k)], []⟩

/-- All points at which the term of a component is evaluated, in order. -/
def allPoints (base : Int) (i : Interaction) (free reductions : List String) :
    Except Failure (List Point) :=
  match i.domain with
  | .factor matrix =>
    .ok (columnPoints base (i.symbols.headD "") (Interaction.columnCount matrix))
  | _ => points i free reductions

def contextAt (e : Evaluation α) (domains : List (String × List Int)) : EvalContext α :=
  ⟨e.arrays, e.graph.base, domains⟩

/-- The value of a term at a point. -/
def valueAt (e : Evaluation α) (s : Site) (t : Graph.TermNode) (p : Point) : Except Failure α :=
  termValue e s t (contextAt e p.domains) p.symbols

/-- The value of a term at each point. -/
def pointInstances (e : Evaluation α) (s : Site) (t : Graph.TermNode) (ps : List Point) :
    Except Failure (List (Audit.Instance α)) :=
  ps.mapM fun p => do .ok ⟨p.index, ← valueAt e s t p, p.group⟩

/-- The sum of the products of a row's entries with some values. -/
def rowProduct (matrix : Tensor α) (row : Nat) (values : List α) : α :=
  values.zipIdx.foldl (fun acc (v, k) =>
    acc + (matrix.at? [row, k]).getD Scalar.zero * v) Scalar.zero

/-- For each row of a matrix the square of its product with the column values. -/
def rowInstances (e : Evaluation α) (s : Site) (t : Graph.TermNode) (i : Interaction)
    (matrix : Tensor Float) (columns : List Point) : Except Failure (List (Audit.Instance α)) :=
  if InteractionKind.lowRank.name ∉ t.compat then fail (.notDeclaredCompatible s i.id)
  else do
    let values ← columns.mapM (valueAt e s t)
    let m : Tensor α := matrix.map Scalar.ofFloat
    .ok ((List.range (matrix.shape.headD 0)).map fun (row : Nat) =>
      let y := rowProduct m row values
      ⟨[e.graph.base + row], y * y, none⟩)

/-- All instances of a component, in order. -/
def instances (e : Evaluation α) (c : Graph.ComponentNode) (t : Graph.TermNode) (i : Interaction) :
    Except Failure (List (Audit.Instance α)) :=
  let s : Site := ⟨c.id, t.id⟩
  let found := allPoints e.graph.base i c.free c.reductions
  match i.domain with
  | .factor matrix => do rowInstances e s t i matrix (← found)
  | _ => do pointInstances e s t (← found)

/-! ## Components -/

/-- The aggregate of the values of a component. -/
def aggregateOf (s : Site) (i : Interaction) (a : Aggregator α) (values : List α) :
    Except Failure α :=
  (a.aggregate values).mapError fun
    | .diagnostic d => .diagnostic (Fault.noAggregate s i.id d).diagnostic
    | e => e

/-- The audit of a component: its value, and the first of its instances. -/
def evalComponent (e : Evaluation α) (c : Graph.ComponentNode) (t : Graph.TermNode)
    (i : Interaction) : Except Failure (Audit.Component α) := do
  let found ← instances e c t i
  let aggregator := c.aggregator.map Scalar.ofFloat
  let value ← aggregateOf ⟨c.id, t.id⟩ i aggregator (found.map (·.value))
  .ok {
    id := c.id
    value
    aggregator
    term := t.id
    interaction := i.id
    count := found.length
    instances := found.take e.cap
    isTruncated := e.cap < found.length }

/-- The audit of the component at a place. -/
def componentAt (e : Evaluation α) (place : Nat) : Except Failure (Audit.Component α) :=
  let found := do
    let c ← e.graph.components[place]?
    let t ← e.graph.terms[c.term]?
    let i ← e.graph.interactions[c.interaction]?
    some (c, t, i)
  match found with
  | some (c, t, i) => evalComponent e c t i
  | none => Failure.refuse .badPosition

/-- Audits of the components used so far, by place. -/
abbrev Kept (α : Type) := List (Nat × Audit.Component α)

/-- An evaluation that keeps the audits of components. -/
abbrev Keeping (α β : Type) := StateT (Kept α) (Except Failure) β

/-- The audit of a component, evaluated unless it has been before. -/
def component (e : Evaluation α) (place : Nat) : Keeping α (Audit.Component α) := do
  match (← get).lookup place with
  | some audit => pure audit
  | none =>
    let audit ← componentAt e place
    modify (· ++ [(place, audit)])
    pure audit

/-! ## Sums -/

/-- The value of a weight. -/
def weightValue (e : Evaluation α) (w : Formula) (path : List String) : Except Failure α :=
  (w.body.evaluateScalar e.arrays e.graph.base).mapError
    (failureOf (Fault.badWeight path w.source))

/-- The components of a hamiltonian with their weights. -/
def contributions (e : Evaluation α) (h : Graph.HamiltonianNode) :
    Keeping α (List (Audit.Contribution α)) :=
  h.components.zipIdx.mapM fun (use, k) => do
    let weight ← weightValue e use.weight ["hamiltonians", h.id, "components", toString k]
    let audit ← component e use.index
    pure ⟨audit.id, weight, audit.value⟩

/-- The sum of weighted values, from left to right. -/
def sumOf (cs : List (Audit.Contribution α)) : α :=
  cs.foldl (fun acc c => acc + c.weighted) Scalar.zero

def evalHamiltonian (e : Evaluation α) (h : Graph.HamiltonianNode) :
    Keeping α (Audit.Hamiltonian α) := do
  let cs ← contributions e h
  pure ⟨h.id, h.type, sumOf cs, cs, h.couples⟩

/-- A hamiltonian of the ensemble, evaluated unless it has been before. -/
def evalUse (e : Evaluation α) (before : List (Audit.Hamiltonian α)) (use : Graph.WeightedRef)
    (place : Nat) : Keeping α (List (Audit.Hamiltonian α) × Audit.Contribution α) := do
  match e.graph.hamiltonians[use.index]? with
  | none => throw (.refusal (.plain .badPosition))
  | some h =>
    let (audit, all) ← match before.find? fun x => x.id == h.id with
      | some audit => pure (audit, before)
      | none => do
        let audit ← evalHamiltonian e h
        pure (audit, before ++ [audit])
    let weight ← weightValue e use.weight ["ensemble", toString place]
    pure (all, ⟨h.id, weight, audit.value⟩)

/-- All uses of the ensemble, in order. -/
def evalEnsemble (e : Evaluation α) :
    Keeping α (List (Audit.Hamiltonian α) × List (Audit.Contribution α)) :=
  e.graph.ensemble.zipIdx.foldlM (fun (hs, cs) (use, k) => do
    let (hs, c) ← evalUse e hs use k
    pure (hs, cs ++ [c])) ([], [])

/-- The audit of the whole graph; components stand in the order of the graph. -/
def run (e : Evaluation α) : Except Failure (Audit.Tree α) := do
  let ((hamiltonians, ensemble), kept) ← (evalEnsemble e).run []
  let ordered := kept.mergeSort fun a b => a.1 ≤ b.1
  .ok ⟨sumOf ensemble, ensemble, hamiltonians, ordered.map (·.2)⟩

/-! ## Evaluation -/

/-- Arrays of data by name. -/
abbrev DataFeed (α : Type) := String → Except Failure (Tensor α)

/-- What a store of data answers, as arrays of doubles. -/
def feedOf (data : Lookup) : DataFeed Float := fun name => do (← data name).floats

/-- The arrays of the data that the graph refers to. -/
def loadData (g : Graph) (data : DataFeed α) : Except Failure (Arrays α) :=
  let needed := g.referencedArrays
  (g.dataNames.filter (needed.contains ·)).mapM fun name =>
    match data name with
    | .ok t => .ok (name, t)
    | .error e => if e.isUnknownName then fail (.unavailable name) else .error e

/-- The audit of an assignment. -/
def evaluate (g : Graph) (a : Assignment α) (data : DataFeed α) (registry : Option (Registry α))
    (o : Options) : Except Failure (Audit.Tree α) := do
  let vars ← normalize g a
  if o.checkBounds then checkVariables g vars
  let arrays ← loadData g data
  run ⟨g, vars ++ arrays, registry, o.instanceCap⟩

/-- The audits of several assignments; the first failure counts. -/
def evaluateBatch (g : Graph) (as : List (Assignment α)) (data : DataFeed α)
    (registry : Option (Registry α)) (o : Options) : Except Failure (List (Audit.Tree α)) :=
  as.mapM fun a => evaluate g a data registry o

end Energy

end EnergyGraph
