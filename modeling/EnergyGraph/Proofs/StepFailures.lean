-- The steps of building fail one diagnostic at a time: an interaction, a variable, the
-- shape of data, a component, a weight. Where a step asks for data, it fails no worse than
-- what delivers them.
import EnergyGraph.Graph.Build
import EnergyGraph.Proofs.SingleFailures

namespace EnergyGraph

variable {α : Type} {s : Surroundings}

/-! ## Interactions -/

namespace Interaction

theorem Fault.category_diagnostic (f : Fault) (id : String) (place : List String) :
    (f.diagnostic id place).category ≠ .group := by
  cases f <;> exact nofun

theorem singly_fail (f : Fault) (id : String) : Singly (fail f id : Except Failure α) :=
  singly_error (f.category_diagnostic id [])

theorem singly_range (id : String) (raw : Value) (place : List String) :
    Singly (range s id raw place) := by
  unfold range
  split
  · exact singly_bind (Constant.singly_integer _ _ _ _) fun _ =>
      singly_bind (Constant.singly_integer _ _ _ _) fun _ => singly_ok _
  · exact singly_error (Fault.category_diagnostic _ _ _)

theorem singly_checkWidth (id : String) (symbols : List String) (width : Nat) :
    Singly (checkWidth id symbols width) := by
  unfold checkWidth
  split
  · exact singly_ok _
  · exact singly_fail _ _

theorem singly_namedRanges (d : InteractionDecl) (members : Object) :
    Singly (namedRanges s d members) := by
  unfold namedRanges
  dsimp only
  split
  · exact singly_bind (singly_mapM _ fun _ => singly_range _ _ _) fun _ => singly_ok _
  · exact singly_fail _ _

theorem singly_listedRanges (d : InteractionDecl) (items : List Value) :
    Singly (listedRanges s d items) :=
  singly_bind (singly_checkWidth _ _ _) fun _ =>
    singly_bind (singly_mapM _ fun _ => singly_range _ _ _) fun _ => singly_ok _

theorem singly_resolveRanges (d : InteractionDecl) : Singly (resolveRanges s d) := by
  unfold resolveRanges
  split
  · exact singly_bind (singly_namedRanges _ _) fun _ => singly_ok _
  · exact singly_bind (singly_listedRanges _ _) fun _ => singly_ok _
  · exact singly_fail _ _
  · split
    · exact singly_bind (singly_range _ _ _) fun _ => singly_ok _
    · exact singly_fail _ _

theorem singly_axisValues (d : InteractionDecl) : Singly (axisValues d) := by
  unfold axisValues
  split
  · exact singly_fail _ _
  · exact singly_ok _
  · exact singly_ok _

theorem singly_resolveGrid (d : InteractionDecl) : Singly (resolveGrid s d) := by
  unfold resolveGrid
  refine singly_bind (singly_axisValues d) fun items => ?_
  refine singly_bind (singly_mapM _ fun _ => Constant.singly_integer _ _ _ _) fun dims => ?_
  split
  · exact singly_fail _ _
  · dsimp only
    split
    · exact singly_fail _ _
    · exact singly_bind (singly_checkWidth _ _ _) fun _ => singly_ok _

theorem singly_resolveNone (d : InteractionDecl) : Singly (resolveNone d) := by
  unfold resolveNone
  split
  · exact singly_ok _
  · exact singly_fail _ _

/-! ### Rows -/

theorem singly_rows (id : String) (x : Delivery) : Singly (rows id x) := by
  unfold rows
  split
  · exact singly_ok _
  · exact singly_fail _ _
  · split
    · exact singly_ok _
    · exact singly_ok _
    · exact singly_refuse _

theorem singly_index (id : String) (v : Value) : Singly (index id v) := by
  unfold index
  split
  · exact singly_ok _
  · split
    · exact singly_ok _
    · exact singly_fail _ _
  · exact singly_fail _ _

theorem singly_tuple (id : String) (v : Value) : Singly (tuple id v) := by
  unfold tuple
  split
  · exact singly_mapM _ (singly_index id)
  · exact singly_bind (singly_index id _) fun _ => singly_ok _

theorem singly_tupleSymbols (d : InteractionDecl) (width : Nat) :
    Singly (tupleSymbols d width) := by
  unfold tupleSymbols
  split
  · exact singly_ok _
  · exact singly_ok _
  · exact singly_ok _
  · exact singly_fail _ _

theorem singly_commonWidth (d : InteractionDecl) (items : List (List Int)) :
    Singly (commonWidth d items) := by
  unfold commonWidth
  split
  · exact singly_ok _
  · exact singly_ok _
  · exact singly_fail _ _

theorem singly_group (id : String) (x : Value × Nat) : Singly (group id x) := by
  unfold group
  split
  · refine singly_bind (singly_mapM _ (singly_index id)) fun ks => ?_
    dsimp only
    split
    · exact singly_fail _ _
    · exact singly_ok _
  · exact singly_fail _ _

/-! ### Data -/

variable (hdata : ∀ name, Singly (s.data name))

include hdata

theorem singly_lookUp (name id : String) (unknown : Fault) :
    Singly (lookUp s name id unknown) := by
  unfold lookUp
  split
  · exact singly_ok _
  · rename_i e he
    split
    · exact singly_fail _ _
    · exact singly_error (hdata name e he)

omit hdata in
theorem singly_readFile (source id : String) : Singly (readFile s source id) := by
  unfold readFile
  split
  · exact singly_ok _
  · split
    · exact singly_fail _ _
    · exact singly_error trivial
  · rename_i e _ he
    exact singly_error (Readers.standard_failSingly.read s.files source none s.baseDir e he)

theorem singly_payloadOf (source id : String) : Singly (payloadOf s source id) := by
  unfold payloadOf
  split
  · exact singly_lookUp hdata _ _ _
  · split
    · exact singly_ok _
    · rename_i e he
      split
      · exact singly_readFile _ _
      · exact singly_error (hdata source e he)

theorem singly_delivery (d : InteractionDecl) (fields : List String) :
    Singly (delivery s d fields) := by
  unfold delivery
  split
  · exact singly_ok _
  · split
    · exact singly_fail _ _
    · exact singly_bind (singly_payloadOf hdata _ _) fun _ => singly_ok _

theorem singly_resolveTuples (d : InteractionDecl) : Singly (resolveTuples s d) :=
  singly_bind (singly_delivery hdata d _) fun _ =>
    singly_bind (singly_rows _ _) fun _ =>
      singly_bind (singly_mapM _ (singly_tuple _)) fun _ =>
        singly_bind (singly_commonWidth _ _) fun _ =>
          singly_bind (singly_tupleSymbols _ _) fun _ =>
            singly_bind (singly_checkWidth _ _ _) fun _ => singly_ok _

theorem singly_resolveGroups (d : InteractionDecl) : Singly (resolveGroups s d) :=
  singly_bind (singly_delivery hdata d _) fun _ =>
    singly_bind (singly_rows _ _) fun _ =>
      singly_bind (singly_mapM _ (singly_group _)) fun _ =>
        singly_bind (singly_checkWidth _ _ _) fun _ => singly_ok _

theorem singly_matrix (d : InteractionDecl) : Singly (matrix s d) := by
  unfold matrix
  split
  · exact singly_bind (singly_lookUp hdata _ _ _) fun p => p.refuses_floats.singly
  · refine singly_bind (singly_delivery hdata d _) fun x => ?_
    split
    · exact (Payload.refuses_floatsOfValue _).singly
    · exact (Payload.refuses_floats _).singly
  · exact (Payload.refuses_floatsOfValue _).singly

theorem singly_resolveFactor (d : InteractionDecl) : Singly (resolveFactor s d) := by
  unfold resolveFactor
  dsimp only
  split
  · exact singly_fail _ _
  · refine singly_bind (singly_matrix hdata d) fun u => ?_
    split
    · exact singly_fail _ _
    · exact singly_bind (singly_checkWidth _ _ _) fun _ => singly_ok _

theorem singly_resolveDomain (d : InteractionDecl) : Singly (resolveDomain s d) := by
  unfold resolveDomain
  split
  · exact singly_resolveNone d
  · exact singly_resolveRanges d
  · exact singly_resolveTuples hdata d
  · exact singly_resolveGroups hdata d
  · exact singly_resolveGrid d
  · exact singly_resolveFactor hdata d

omit hdata in
theorem isSingle_locatedFailure {f : Failure} (h : f.IsSingle) (id : String) :
    (locatedFailure id f).IsSingle := by
  cases f with
  | diagnostic d =>
    change (located id d).category ≠ .group
    unfold located
    split
    · exact h
    · exact h
  | collected ds => exact h.elim
  | refusal r => exact h

theorem singly_resolve (d : InteractionDecl) : Singly (resolve s d) := by
  refine singly_bind (singly_mapError fun f hf => ?_) fun _ => singly_ok _
  exact isSingle_locatedFailure (singly_resolveDomain hdata d f hf) d.id

end Interaction

/-! ## Variables and data -/

namespace Graph

theorem Fault.category_diagnostic (f : Fault) : f.diagnostic.category ≠ .group := by
  cases f <;> exact nofun

theorem singly_fail (f : Fault) : Singly (fail f : Except Failure α) :=
  singly_error f.category_diagnostic

theorem singly_dimensions (dims : List Dim) (path : List String) :
    Singly (dimensions s dims path) :=
  singly_mapM _ fun _ => Constant.singly_integer _ _ _ _

theorem singly_checkDataShape (d : DataDecl) (shape : Shape) :
    Singly (checkDataShape s d shape) := by
  unfold checkDataShape
  split
  · exact singly_ok _
  · refine singly_bind (singly_dimensions _ _) fun declared => ?_
    split
    · exact singly_ok _
    · exact singly_fail _

section

variable (hdata : ∀ name, Singly (s.data name))

include hdata

theorem singly_dataBound (owner data : String) (shape : Shape) :
    Singly (dataBound s owner data shape) := by
  unfold dataBound
  split
  · rename_i e he
    split
    · exact singly_fail _
    · exact singly_error (hdata data e he)
  · refine singly_bind (Payload.refuses_floats _).singly fun a => ?_
    split
    · exact singly_fail _
    · exact singly_ok _

theorem singly_bound (owner : String) (raw : Value) (unbounded : Float) (shape : Shape) :
    Singly (bound s owner raw unbounded shape) := by
  have hnumber : Singly (do
      .ok (.number (← Constant.double raw s.parameters ["variables", owner] "bound")) :
      Except Failure Bound) :=
    singly_bind (Constant.singly_double _ _ _ _) fun _ => singly_ok _
  unfold bound
  split
  · exact singly_ok _
  · split
    · exact singly_dataBound hdata _ _ _
    · exact hnumber
  · exact hnumber

theorem singly_resolveVariable (v : Variable) : Singly (resolveVariable s v) := by
  unfold resolveVariable
  refine singly_bind (singly_dimensions _ _) fun dims => ?_
  split
  · exact singly_fail _
  · exact singly_bind (singly_bound hdata _ _ _ _) fun _ =>
      singly_bind (singly_bound hdata _ _ _ _) fun _ => singly_ok _

theorem singly_dataShape (d : DataDecl) : Singly (dataShape s d) := by
  unfold dataShape
  split
  · rename_i e he
    split
    · exact singly_fail _
    · exact singly_error (hdata d.name e he)
  · exact singly_bind (singly_checkDataShape _ _) fun _ => singly_ok _

end

/-! ## Components and weights -/

variable (scope : Scope)

theorem singly_checkNames (component : String) (u : Usage) :
    Singly (checkNames scope component u) := by
  refine singly_bind (singly_forM _ fun name => ?_) fun _ => singly_forM _ fun name => ?_
  · unfold checkScalar
    split
    · exact singly_ok _
    · split
      · exact singly_fail _
      · exact singly_fail _
  · unfold checkArray
    split
    · exact singly_ok _
    · exact singly_fail _

theorem singly_bind_diagnostic (x : Except Binding.Fault Binding) (site : Binding.Site) :
    Singly (x.mapError fun f => Failure.diagnostic (f.diagnostic site)) :=
  singly_mapError fun _ _ => nofun

theorem singly_checkTerm (base : Int) (component : String) (t : TermDecl) (node : TermNode)
    (i : Interaction) : Singly (checkTerm scope base component t node i) := by
  refine singly_bind (singly_checkNames scope _ _) fun _ => singly_mapError fun f _ => ?_
  cases f <;> exact nofun

theorem singly_resolveWeight (w : Formula) (path : List String) :
    Singly (resolveWeight scope w path) := by
  unfold resolveWeight
  dsimp only
  split
  · exact singly_fail _
  · split
    · exact singly_fail _
    · exact singly_ok _

theorem singly_resolveUse (place? : String → Option Nat) (u : WeightedUse) (path : List String) :
    Singly (resolveUse scope place? u path) :=
  singly_bind (singly_resolveWeight scope _ _) fun _ => singly_ok _

theorem singly_checkType (h : HamiltonianDecl) : Singly (checkType h) := by
  unfold checkType
  split
  · split
    · exact singly_ok _
    · exact singly_fail _
  · exact singly_ok _

theorem singly_resolveHamiltonian (components : List ComponentNode) (h : HamiltonianDecl) :
    Singly (resolveHamiltonian scope components h) :=
  singly_bind (singly_checkType h) fun _ =>
    singly_bind (singly_mapM _ fun _ => singly_resolveUse scope _ _ _) fun _ => singly_ok _

end Graph

end EnergyGraph
