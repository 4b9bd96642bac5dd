-- Nothing is lost between a document and its graph. Building goes on after a mistake and
-- leaves out what it cannot resolve, so the assembly may end with a graph that lacks
-- something; but then it has found a mistake, and no graph is handed out.
import EnergyGraph.Proofs.Building

namespace EnergyGraph.Graph

open Findings

/-! ## What a graph has to have -/

/-- A reference points at what the document uses, and has the weight that stands there. -/
structure PointsAt (numbers : Numbers) (ids : List String) (u : WeightedUse) (r : WeightedRef) :
    Prop where
  target : ids[r.index]? = some u.use
  weight : r.weight = u.weight.substitute numbers []

/-- Every place that a graph stores is the place of a node. -/
structure InRange (g : Graph) : Prop where
  terms : ∀ c ∈ g.components, c.term < g.terms.length
  interactions : ∀ c ∈ g.components, c.interaction < g.interactions.length
  components : ∀ h ∈ g.hamiltonians, ∀ r ∈ h.components, r.index < g.components.length
  hamiltonians : ∀ r ∈ g.ensemble, r.index < g.hamiltonians.length

/-- Everything that is declared has its node, in the same order, and every use its reference. -/
structure Complete (d : Document) (numbers : Numbers) (g : Graph) : Prop where
  vars : List.Forall₂ (fun v x => x.name = v.name ∧ x.type = v.type) d.vars g.vars
  components : g.components.map (·.id) = d.components.map (·.id)
  hamiltonians : List.Forall₂ (fun h n => n.id = h.id ∧ n.type = h.derivedType ∧
    n.couples = h.couples ∧
    List.Forall₂ (PointsAt numbers (d.components.map (·.id))) h.components n.components)
    d.hamiltonians g.hamiltonians
  ensemble : List.Forall₂ (PointsAt numbers (d.hamiltonians.map (·.id))) d.ensemble g.ensemble
  ensemble_ne : g.ensemble ≠ []
  inRange : InRange g

/-! ## The parts of an assembled graph -/

variable {d : Document} {s : Surroundings} {scope : Scope} {dataShapes : List (String × Shape)}
  {a : Assembly} {g : Graph}

theorem name_type_of_resolve {v : Variable} {x : VariableSpec}
    (h : resolveVariable s v = .ok x) : x.name = v.name ∧ x.type = v.type := by
  unfold resolveVariable at h
  obtain ⟨dims, -, h⟩ := bind_eq_ok.mp h
  split at h
  · cases h
  · obtain ⟨lower, -, h⟩ := bind_eq_ok.mp h
    obtain ⟨upper, -, h⟩ := bind_eq_ok.mp h
    cases h
    exact ⟨rfl, rfl⟩

theorem Refers.pointsAt {ids : List String} {u : WeightedUse} {r : WeightedRef}
    (h : Refers scope ids u r) : PointsAt scope.numbers ids u r :=
  ⟨h.target, h.weight⟩

theorem Refers.index_lt {ids : List String} {u : WeightedUse} {r : WeightedRef}
    (h : Refers scope ids u r) : r.index < ids.length :=
  (List.getElem?_eq_some_iff.mp h.target).1

theorem Assembled.inRange (h : Assembled d s dataShapes a g) : InRange g := by
  refine ⟨?_, ?_, ?_, ?_⟩
  · intro n hn
    obtain ⟨c, -, t, i, x, node, hstands⟩ := h.stands hn
    rw [h.terms_eq]
    exact (List.getElem?_eq_some_iff.mp hstands.term_node).1
  · intro n hn
    obtain ⟨c, -, t, i, x, node, hstands⟩ := h.stands hn
    rw [h.interactions_eq]
    exact (List.getElem?_eq_some_iff.mp hstands.interaction_node).1
  · intro n hn r hr
    obtain ⟨_, -, hstores⟩ := exists_of_mem_right h.hamiltonians hn
    obtain ⟨_, -, hrefers⟩ := exists_of_mem_right hstores.refs hr
    simpa using hrefers.index_lt
  · intro r hr
    obtain ⟨_, -, hrefers⟩ := exists_of_mem_right h.ensemble hr
    simpa using hrefers.index_lt

theorem Assembled.complete (h : Assembled d s dataShapes a g) : Complete d s.parameters g := by
  have hcomponents : g.components.map (·.id) = d.components.map (·.id) := by
    rw [h.components_eq]
    exact h.sound.map_id
  have hhamiltonians : g.hamiltonians.map (·.id) = d.hamiltonians.map (·.id) :=
    map_eq_of_forall₂ (h.hamiltonians.imp fun _ _ hn => hn.id_eq)
  refine ⟨h.vars.imp fun _ _ hx => name_type_of_resolve hx, hcomponents, ?_, ?_, ?_, h.inRange⟩
  · refine h.hamiltonians.imp fun u n hn => ⟨hn.id_eq, hn.type_eq, hn.couples_eq, ?_⟩
    rw [← hcomponents]
    exact hn.refs.imp fun _ _ hr => hr.pointsAt
  · rw [← hhamiltonians]
    exact h.ensemble.imp fun _ _ hr => hr.pointsAt
  · intro hempty
    have hlength := h.ensemble.length_eq
    rw [hempty] at hlength
    exact h.ensemble_ne (List.length_eq_zero_iff.mp hlength)

/-! ## Nothing is lost -/

/-- A graph that is built is complete, whether the first mistake counts or all of them. An
assembly that lacks anything, wherever it was left out, has found a mistake by its end. -/
theorem nothing_dropped (d : Document) :
    (∀ (o : BuildOptions) (g : Graph), build d o = .ok g →
      ∃ parameters, o.parametersFor d = .ok parameters ∧ Complete d parameters.numeric g) ∧
    ∀ (parameters : ResolvedParameters) (s : Surroundings) (g : Graph) (found : List Diagnostic),
      (assemble d parameters s).run.run [] = (.ok g, found) → ¬ Complete d s.parameters g →
        found ≠ [] := by
  refine ⟨?_, ?_⟩
  · intro o g h
    obtain ⟨parameters, data, hparameters, -, hclean⟩ := build_eq_ok.mp h
    obtain ⟨dataShapes, a, hassembled⟩ := assembled_of_clean hclean
    exact ⟨parameters, hparameters, hassembled.complete⟩
  · rintro parameters s g found hrun hlacks rfl
    obtain ⟨dataShapes, a, hassembled⟩ := assembled_of_clean hrun
    exact hlacks hassembled.complete

/-! ## A document and its graph -/

/-- The sum of `x[i]` over three places, as the only component of the only hamiltonian. -/
def sample : Document where
  version := "1.0.0"
  name := "sample"
  indexBase := 0
  exprLang := exprLanguage
  parameters := []
  vars := [⟨"x", .continuous, [.size 3], .null, .null⟩]
  data := []
  functions := []
  interactions := [⟨"all", .allIndices, none, [("range", .list [.int 0, .int 2])], false⟩]
  terms := [⟨"cell", .analytic, .unspecified,
    some ⟨"x[i]", .ref "x" [.symbol "i" ⟨2, 3⟩] ⟨0, 4⟩, .unspecified⟩, none, [], [], false⟩]
  components := [⟨"total", .named "cell", .named "all", some (Aggregator.ofKind .sum)⟩]
  hamiltonians := [⟨"H", [⟨"total", .ofNumber (.int 1) .unspecified⟩], [], none⟩]
  ensemble := [⟨"H", .ofNumber (.int 1) .unspecified⟩]

/-- Nothing but the document counts. -/
def alone : BuildOptions := ⟨none, none, ⟨[], []⟩, none, false⟩

/-- The sample with a component that means a term which is not there. -/
def dangling : Document :=
  { sample with
    components := [⟨"total", .named "gone", .named "all", some (Aggregator.ofKind .sum)⟩] }

/-- The sample has a complete graph; that of the dangling one is short of a component, and is
found out. -/
theorem nothing_dropped_sample :
    (∃ g parameters, build sample alone = .ok g ∧ Complete sample parameters g) ∧
    ∃ s g found, (assemble dangling [] s).run.run [] = (.ok g, found) ∧
      ¬ Complete dangling s.parameters g ∧ found ≠ [] := by
  refine ⟨?_, alone.surroundings dangling [] .nothing, ?_⟩
  · obtain ⟨g, hg⟩ := exists_eq_ok (show (build sample alone).isOk = true by decide +kernel)
    obtain ⟨parameters, -, hcomplete⟩ := (nothing_dropped sample).1 alone g hg
    exact ⟨g, _, hg, hcomplete⟩
  · have hshort : (((assemble dangling [] (alone.surroundings dangling [] .nothing)).run.run []).1
        |>.toOption.map (·.components.isEmpty)) = some true := by decide +kernel
    rcases hrun : (assemble dangling [] (alone.surroundings dangling [] .nothing)).run.run [] with
      ⟨_ | g, found⟩
    · rw [hrun] at hshort
      cases hshort
    · rw [hrun] at hshort
      have hlacks : ¬ Complete dangling [] g := by
        intro h
        have hids := h.components
        rw [List.isEmpty_iff.mp (Option.some.inj hshort)] at hids
        cases hids
      exact ⟨g, found, rfl, hlacks, (nothing_dropped dangling).2 [] _ g found hrun hlacks⟩

end EnergyGraph.Graph
