-- Building in both ways, part by part. A part that ends at its first mistake and one that
-- goes on agree, because the parts of it do and because each of them is given the same.
import EnergyGraph.Proofs.Couplings
import EnergyGraph.Proofs.StepFailures

namespace EnergyGraph.Graph

open Findings

variable {strict : Prop} {d : Document} {s : Surroundings} {scope : Scope}

theorem agrees_report (f : Fault) : Agrees strict (report f) (report f) :=
  Findings.agrees_report fun _ => f.category_diagnostic

theorem agrees_reportIf (p : Prop) [Decidable p] (f : Fault) :
    Agrees strict (if p then report f else pure ()) (if p then report f else pure ()) := by
  split
  · exact agrees_report f
  · exact agrees_pure ()

/-! ## References -/

theorem agrees_checkFunction (t : TermDecl) (path : List String) :
    Agrees strict (checkFunction d t path) (checkFunction d t path) := by
  unfold checkFunction
  split
  · exact agrees_reportIf _ _
  · exact agrees_pure ()

theorem agrees_checkComponentReferences (c : ComponentDecl) :
    Agrees strict (checkComponentReferences d c) (checkComponentReferences d c) := by
  refine agrees_bind ?_ fun _ => agrees_reportIf _ _
  unfold checkTermReference
  split
  · exact agrees_checkFunction _ _
  · exact agrees_reportIf _ _

theorem agrees_checkUse (ids path : List String) (kind : String) (u : WeightedUse) :
    Agrees strict (checkUse ids path kind u) (checkUse ids path kind u) :=
  agrees_reportIf _ _

theorem agrees_checkHamiltonianUses (h : HamiltonianDecl) :
    Agrees strict (checkHamiltonianUses d h) (checkHamiltonianUses d h) :=
  (modes strict).forM _ (agrees_checkUse _ _ _)

theorem agrees_checkReferences : Agrees strict (checkReferences d) (checkReferences d) := by
  refine agrees_bind ((modes strict).forM _ fun t => agrees_checkFunction t _) fun _ => ?_
  refine agrees_bind ((modes strict).forM _ agrees_checkComponentReferences) fun _ => ?_
  refine agrees_bind ((modes strict).forM _ agrees_checkHamiltonianUses) fun _ => ?_
  exact (modes strict).forM _ (agrees_checkUse _ _ _)

/-! ## Components -/

theorem agrees_placeInteraction (hdata : strict → ∀ name, Singly (s.data name)) (a : Assembly)
    (i : InteractionDecl) :
    Agrees strict (placeInteraction s a i) (placeInteraction s a i) := by
  unfold placeInteraction
  split
  · exact agrees_pure _
  · refine agrees_bind (agrees_attempt fun h => Interaction.singly_resolve (hdata h) i) fun o => ?_
    cases o with
    | none => exact agrees_pure _
    | some resolved => exact agrees_pure _

theorem agrees_placeFor (hdata : strict → ∀ name, Singly (s.data name)) (a : Assembly)
    (c : ComponentDecl) : Agrees strict (placeFor d s a c) (placeFor d s a c) := by
  unfold placeFor
  split
  · exact agrees_pure _
  · exact agrees_placeInteraction hdata a _

theorem agrees_bindComponent (base : Int) (a : Assembly) (c : ComponentDecl) (t : TermDecl)
    (place : Nat) (i : Interaction) :
    Agrees strict (bindComponent scope base a c t place i)
      (bindComponent scope base a c t place i) := by
  unfold bindComponent
  refine agrees_bind (agrees_attempt fun _ => singly_bind_diagnostic _ _) fun o => ?_
  cases o with
  | none => exact agrees_pure _
  | some binding =>
    refine agrees_bind (agrees_attempt fun _ => singly_checkTerm scope _ _ _ _ _) fun o => ?_
    cases o with
    | none => exact agrees_pure _
    | some _ => exact agrees_pure _

theorem agrees_addComponent (hdata : strict → ∀ name, Singly (s.data name)) (a : Assembly)
    (c : ComponentDecl) :
    Agrees strict (addComponent d s scope a c) (addComponent d s scope a c) := by
  refine agrees_bind (agrees_placeFor hdata a c) fun ⟨placed, a⟩ => ?_
  dsimp only
  split
  · exact agrees_bindComponent _ _ _ _ _ _
  · exact agrees_pure _

/-! ## The graph -/

theorem agrees_buildEnsemble (hamiltonians : List HamiltonianNode) (uses : List WeightedUse) :
    Agrees strict (buildEnsemble scope hamiltonians uses)
      (buildEnsemble scope hamiltonians uses) := by
  refine agrees_bind (agrees_reportIf _ _) fun _ => ?_
  refine agrees_bind ((modes strict).mapM _ fun _ => agrees_attempt fun _ => ?_)
    fun _ => agrees_pure _
  exact singly_resolveUse scope _ _ _

theorem agrees_linkUses (components : List ComponentNode) :
    Agrees strict (linkUses d scope components) (linkUses d scope components) := by
  refine agrees_bind ((modes strict).filterMapM _ fun h => agrees_attempt fun _ => ?_) fun _ => ?_
  · exact singly_resolveHamiltonian scope components h
  · exact agrees_bind (agrees_buildEnsemble _ _) fun _ =>
      agrees_bind agrees_checkReferences fun _ => agrees_pure _

/-- Both runs put the same graph together, and no group is met if the data bring none. -/
theorem agrees_putTogether (hdata : strict → ∀ name, Singly (s.data name))
    (parameters : ResolvedParameters) :
    Agrees strict (putTogether d parameters s) (putTogether d parameters s) := by
  refine agrees_bind ((modes strict).filterMapM _ fun v => agrees_attempt fun h => ?_)
    fun vars => ?_
  · exact singly_resolveVariable (hdata h) v
  refine agrees_bind ((modes strict).filterMapM _ fun x => agrees_attempt fun h => ?_)
    fun shapes => ?_
  · exact singly_dataShape (hdata h) x
  refine agrees_bind ((modes strict).foldlM _ _ (agrees_addComponent hdata)) fun a => ?_
  exact agrees_bind (agrees_linkUses _) fun ⟨_, _⟩ => agrees_pure _

end EnergyGraph.Graph
