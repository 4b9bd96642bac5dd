-- The energy as it is meant: a weighted sum of weighted sums of aggregates, each of them
-- taken afresh wherever it is used. Values go into an accumulator one by one as the symbols
-- run through their ranges, one range nested in the other; nothing is listed and nothing is
-- kept. The audit of a component has the value of this recursion, or its failure.
import EnergyGraph.Energy.Evaluate
import EnergyGraph.Proofs.CleanRuns

namespace EnergyGraph.Energy

variable {α : Type} [Scalar α]

/-! ## The recursion -/

/-- Runs through the values of some symbols, the last one fastest. -/
def nested {σ : Type} (body : σ → Symbols → Except Failure σ) :
    List (String × Range) → Symbols → σ → Except Failure σ
  | [], bound, s => body s bound
  | (name, r) :: rest, bound, s =>
    r.values.foldlM (fun s k => nested body rest (bound ++ [(name, k)]) s) s

/-- One more value of a term. -/
def pushTerm (e : Evaluation α) (s : Site) (t : Graph.TermNode) (domains : List (String × List Int))
    (acc : Aggregator.Accumulator α) (symbols : Symbols) :
    Except Failure (Aggregator.Accumulator α) := do
  .ok (acc.push (← termValue e s t (contextAt e domains) symbols))

/-- The values of a term over the columns of a matrix, and the squares of the products of its
rows with them. -/
def pushRows (e : Evaluation α) (s : Site) (t : Graph.TermNode) (i : Interaction)
    (matrix : Tensor Float) (acc : Aggregator.Accumulator α) :
    Except Failure (Aggregator.Accumulator α) :=
  if InteractionKind.lowRank.name ∉ t.compat then fail (.notDeclaredCompatible s i.id)
  else do
    let column := i.symbols.headD ""
    let v ← (List.range (Interaction.columnCount matrix)).mapM fun (k : Nat) =>
      termValue e s t (contextAt e []) [(column, e.graph.base + k)]
    let product (row : Nat) : α := rowProduct (matrix.map Scalar.ofFloat) row v
    .ok ((List.range (matrix.shape.headD 0)).foldl
      (fun acc row => acc.push (product row * product row)) acc)

/-- All values of a term over an interaction, in order. -/
def pushAll (e : Evaluation α) (c : Graph.ComponentNode) (t : Graph.TermNode) (i : Interaction)
    (acc : Aggregator.Accumulator α) : Except Failure (Aggregator.Accumulator α) :=
  let s : Site := ⟨c.id, t.id⟩
  match i.domain with
  | .groups members =>
    members.foldlM (fun acc ks =>
      pushTerm e s t ((i.symbols.take 1).map fun symbol => (symbol, ks)) acc []) acc
  | .factor matrix => pushRows e s t i matrix acc
  | .ranges _ => do
    let domains ← reductionDomains i c.reductions
    let ranges ← i.rangesOf c.free
    nested (pushTerm e s t domains) (c.free.zip ranges) [] acc
  | .single => do
    let domains ← reductionDomains i c.reductions
    pushTerm e s t domains acc []
  | .tuples items => do
    let domains ← reductionDomains i c.reductions
    items.foldlM (fun acc ks => pushTerm e s t domains acc (i.symbols.zip ks)) acc
  | .grid shape connectivity => do
    let domains ← reductionDomains i c.reductions
    (Grid.pairs connectivity shape i.base).foldlM
      (fun acc ks => pushTerm e s t domains acc (i.symbols.zip ks)) acc

/-- The aggregate of the values so far; why there is none is told of the component. -/
def resultOf (s : Site) (i : Interaction) (acc : Aggregator.Accumulator α) : Except Failure α :=
  acc.result.mapError fun
    | .diagnostic d => .diagnostic (Fault.noAggregate s i.id d).diagnostic
    | e => e

/-- A component with its term and its interaction. -/
def nodesAt (g : Graph) (place : Nat) :
    Option (Graph.ComponentNode × Graph.TermNode × Interaction) := do
  let c ← g.components[place]?
  let t ← g.terms[c.term]?
  let i ← g.interactions[c.interaction]?
  some (c, t, i)

theorem componentAt_eq (e : Evaluation α) (place : Nat) : componentAt e place =
    (nodesAt e.graph place).elim (Failure.refuse .badPosition)
      fun nodes => evalComponent e nodes.1 nodes.2.1 nodes.2.2 := by
  cases hnodes : nodesAt e.graph place <;> unfold nodesAt at hnodes <;> unfold componentAt <;>
    simp only [hnodes] <;> rfl

/-- An audit tells of the instances of the component at its place. -/
theorem componentAt_eq_ok {e : Evaluation α} {place : Nat} {audit : Audit.Component α}
    (h : componentAt e place = .ok audit) :
    ∃ c t i found value, nodesAt e.graph place = some (c, t, i) ∧ instances e c t i = .ok found ∧
      (c.aggregator.map Scalar.ofFloat).aggregate (found.map (·.value)) = .ok value ∧
      audit = {
        id := c.id
        value
        aggregator := c.aggregator.map Scalar.ofFloat
        term := t.id
        interaction := i.id
        count := found.length
        instances := found.take e.cap
        isTruncated := e.cap < found.length } := by
  rw [componentAt_eq] at h
  rcases hnodes : nodesAt e.graph place with _ | ⟨c, t, i⟩
  · rw [hnodes] at h
    cases h
  · rw [hnodes, Option.elim_some] at h
    unfold evalComponent at h
    obtain ⟨found, hfound, h⟩ := bind_eq_ok.mp h
    obtain ⟨value, hvalue, h⟩ := bind_eq_ok.mp h
    cases h
    exact ⟨c, t, i, found, value, rfl, hfound, mapError_eq_ok.mp hvalue, rfl⟩

def componentEnergy (e : Evaluation α) (place : Nat) : Except Failure α :=
  match nodesAt e.graph place with
  | some (c, t, i) => do
    let acc ← pushAll e c t i (c.aggregator.map Scalar.ofFloat).start
    resultOf ⟨c.id, t.id⟩ i acc
  | none => Failure.refuse .badPosition

/-- One more product of a weight and the energy of a component. -/
def addComponent (e : Evaluation α) (id : String) (acc : α) (use : Graph.WeightedRef × Nat) :
    Except Failure α := do
  let weight ← weightValue e use.1.weight ["hamiltonians", id, "components", toString use.2]
  let energy ← componentEnergy e use.1.index
  .ok (acc + weight * energy)

def hamiltonianEnergy (e : Evaluation α) (h : Graph.HamiltonianNode) : Except Failure α :=
  h.components.zipIdx.foldlM (addComponent e h.id) Scalar.zero

/-- One more product of the energy of a hamiltonian and a weight. -/
def addHamiltonian (e : Evaluation α) (acc : α) (use : Graph.WeightedRef × Nat) :
    Except Failure α :=
  match e.graph.hamiltonians[use.1.index]? with
  | some h => do
    let energy ← hamiltonianEnergy e h
    let weight ← weightValue e use.1.weight ["ensemble", toString use.2]
    .ok (acc + weight * energy)
  | none => Failure.refuse .badPosition

/-- The energy of the whole graph. -/
def energy (e : Evaluation α) : Except Failure α :=
  e.graph.ensemble.zipIdx.foldlM (addHamiltonian e) Scalar.zero

/-! ## Lists of values and values one by one -/

section

variable {β γ σ ι ε : Type}

theorem foldlM_flatMap {f : σ → γ → Except ε σ} (g : ι → List γ) (xs : List ι) (acc : σ) :
    (xs.flatMap g).foldlM f acc = xs.foldlM (fun acc x => (g x).foldlM f acc) acc := by
  induction xs generalizing acc with
  | nil => rfl
  | cons x xs ih =>
    rw [List.flatMap_cons, List.foldlM_append, List.foldlM_cons]
    exact bind_congr fun acc => ih acc

end

/-- The tuples of some ranges are what their symbols run through. -/
theorem foldlM_tuples {σ : Type} {body : σ → Symbols → Except Failure σ} {names : List String}
    {rs : List Range} (hlength : names.length = rs.length) (bound : Symbols) (s : σ) :
    (Range.tuples rs).foldlM (fun s ks => body s (bound ++ names.zip ks)) s =
      nested body (names.zip rs) bound s := by
  induction rs generalizing names bound s with
  | nil =>
    cases names with
    | cons _ _ => cases hlength
    | nil =>
      change body s (bound ++ []) >>= pure = body s bound
      rw [List.append_nil, bind_pure]
  | cons r rs ih =>
    cases names with
    | nil => cases hlength
    | cons name names =>
      have hrest : names.length = rs.length := Nat.succ.inj hlength
      rw [Range.tuples, foldlM_flatMap, List.zip_cons_cons, nested]
      congr 1
      funext s k
      rw [List.foldlM_map, ← ih hrest]
      congr 1
      funext s ks
      rw [List.zip_cons_cons, List.append_assoc, List.singleton_append]

/-! ## The audit of a component -/

section

variable {e : Evaluation α} {c : Graph.ComponentNode} {t : Graph.TermNode} {i : Interaction}
  {s : Site}

/-- The values of some instances, taken in after each other. -/
def takeIn (acc : Aggregator.Accumulator α) (found : List (Audit.Instance α)) :
    Aggregator.Accumulator α :=
  (found.map (·.value)).foldl Aggregator.Accumulator.push acc

theorem takeIn_pointInstances (ps : List Point) (acc : Aggregator.Accumulator α) :
    (pointInstances e s t ps).map (takeIn acc) =
      ps.foldlM (fun acc p => pushTerm e s t p.domains acc p.symbols) acc := by
  have hstep (acc : Aggregator.Accumulator α) (p : Point) :
      (do .ok (acc.push (← (do .ok ⟨p.index, ← valueAt e s t p, p.group⟩ :
        Except Failure (Audit.Instance α))).value) : Except Failure _) =
        pushTerm e s t p.domains acc p.symbols := by
    unfold pushTerm valueAt
    cases termValue e s t (contextAt e p.domains) p.symbols <;> rfl
  unfold pointInstances takeIn
  simp only [List.foldl_map]
  rw [foldl_mapM]
  simp only [hstep]

theorem takeIn_groups (members : List (List Int)) (acc : Aggregator.Accumulator α) :
    (pointInstances e s t (members.zipIdx.map fun (ks, g) =>
        ⟨ks, some g, [], (i.symbols.take 1).map fun symbol => (symbol, ks)⟩)).map (takeIn acc) =
      members.foldlM (fun acc ks =>
        pushTerm e s t ((i.symbols.take 1).map fun symbol => (symbol, ks)) acc []) acc := by
  rw [takeIn_pointInstances, List.foldlM_map]
  conv_rhs => rw [← List.zipIdx_map_fst 0 members, List.foldlM_map]

/-- Instances at the points of some tuples, each with the domains of the reductions. -/
theorem takeIn_tuples (symbols : List String) (domains : List (String × List Int))
    (tuples : List (List Int)) (acc : Aggregator.Accumulator α) :
    (pointInstances e s t (tuples.map fun ks => ⟨ks, none, symbols.zip ks, domains⟩)).map
        (takeIn acc) =
      tuples.foldlM (fun acc ks => pushTerm e s t domains acc (symbols.zip ks)) acc := by
  rw [takeIn_pointInstances, List.foldlM_map]

theorem takeIn_rowInstances (matrix : Tensor Float) (acc : Aggregator.Accumulator α) :
    (rowInstances e s t i matrix (columnPoints e.graph.base (i.symbols.headD "")
        (Interaction.columnCount matrix))).map (takeIn acc) =
      pushRows e s t i matrix acc := by
  unfold rowInstances pushRows
  split
  · rfl
  · have hcolumns : (columnPoints e.graph.base (i.symbols.headD "")
        (Interaction.columnCount matrix)).mapM (valueAt e s t) =
        (List.range (Interaction.columnCount matrix)).mapM fun (k : Nat) =>
          termValue e s t (contextAt e []) [(i.symbols.headD "", e.graph.base + k)] := by
      unfold columnPoints
      rw [List.mapM_map]
      rfl
    dsimp only
    rw [hcolumns]
    rcases (List.range (Interaction.columnCount matrix)).mapM _ with err | v
    · rfl
    · change Except.ok (takeIn acc _) = Except.ok _
      unfold takeIn
      rw [List.map_map, List.foldl_map]
      rfl

/-- The instances of a component, taken in after each other, are what the recursion pushes. -/
theorem takeIn_instances (acc : Aggregator.Accumulator α) :
    (instances e c t i).map (takeIn acc) = pushAll e c t i acc := by
  unfold instances pushAll allPoints
  cases hdomain : i.domain with
  | single =>
    simp only [points, hdomain, tupleSymbols, Interaction.tuples]
    cases reductionDomains i c.reductions with
    | error err => rfl
    | ok domains =>
      refine (takeIn_tuples i.symbols domains [[]] acc).trans ?_
      rw [List.foldlM_cons, List.zip_nil_right]
      exact bind_pure _
  | ranges bounds =>
    simp only [points, hdomain, tupleSymbols, Interaction.tuples]
    cases reductionDomains i c.reductions with
    | error err => rfl
    | ok domains =>
      cases hranges : i.rangesOf c.free with
      | error err => rfl
      | ok rs =>
        have hlength : c.free.length = rs.length := (mapM_eq_ok.mp hranges).length_eq
        exact (takeIn_tuples c.free domains (Range.tuples rs) acc).trans
          (foldlM_tuples hlength [] acc)
  | tuples items =>
    simp only [points, hdomain, tupleSymbols, Interaction.tuples]
    cases reductionDomains i c.reductions with
    | error err => rfl
    | ok domains => exact takeIn_tuples i.symbols domains items acc
  | grid shape connectivity =>
    simp only [points, hdomain, tupleSymbols, Interaction.tuples]
    cases reductionDomains i c.reductions with
    | error err => rfl
    | ok domains => exact takeIn_tuples i.symbols domains _ acc
  | groups members =>
    simp only [points, hdomain]
    exact takeIn_groups members acc
  | factor matrix => exact takeIn_rowInstances matrix acc

theorem evalComponent_value :
    (evalComponent e c t i).map (·.value) =
      pushAll e c t i (c.aggregator.map Scalar.ofFloat).start >>= resultOf ⟨c.id, t.id⟩ i := by
  rw [← takeIn_instances]
  unfold evalComponent
  cases instances e c t i with
  | error err => rfl
  | ok found =>
    change Except.map _ (aggregateOf _ _ _ _ >>= _) = resultOf _ _ (takeIn _ found)
    change _ = aggregateOf ⟨c.id, t.id⟩ i (c.aggregator.map Scalar.ofFloat) (found.map (·.value))
    cases aggregateOf ⟨c.id, t.id⟩ i (c.aggregator.map Scalar.ofFloat)
      (found.map fun x => x.value) <;> rfl

theorem componentAt_value (e : Evaluation α) (place : Nat) :
    (componentAt e place).map (·.value) = componentEnergy e place := by
  unfold componentEnergy
  rw [componentAt_eq]
  rcases nodesAt e.graph place with _ | ⟨c, t, i⟩
  · rfl
  · exact evalComponent_value

end

end EnergyGraph.Energy
