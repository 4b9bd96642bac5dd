-- What a graph that was built without a mistake is made of: every part of the document
-- was resolved, every component stands in the arenas, and every reference is closed.
import EnergyGraph.Proofs.Assembly

namespace EnergyGraph.Graph

open Findings

variable {d : Document} {s : Surroundings} {scope : Scope}

/-! ## References -/

/-- Everything that is referred to is declared. -/
structure Closed (d : Document) : Prop where
  terms : ∀ c ∈ d.components, ∃ t, termOf? d c = some t
  interactions : ∀ c ∈ d.components, ∃ i, interactionOf? d c = some i
  components : ∀ h ∈ d.hamiltonians, ∀ u ∈ h.components, ∃ c ∈ d.components, c.id = u.use
  hamiltonians : ∀ u ∈ d.ensemble, ∃ h ∈ d.hamiltonians, h.id = u.use

theorem grows_reportIf (p : Bool) (f : Fault) : Grows (if p then report f else pure ()) :=
  (agrees_reportIf _ f : Agrees False _ _).grows

theorem clean_reportIf {p : Bool} {f : Fault} :
    Clean (if p then report f else pure ()) () ↔ p = false := by
  cases p with
  | false => simp [clean_pure]
  | true =>
    simp only [if_true, reduceCtorEq, iff_false]
    exact not_clean_report f.diagnostic ()

theorem clean_checkTermReference {c : ComponentDecl} (h : Clean (checkTermReference d c) ()) :
    ∃ t, termOf? d c = some t := by
  unfold checkTermReference at h
  unfold termOf?
  split at h
  · exact ⟨_, rfl⟩
  · rename_i id hid
    rw [clean_reportIf] at h
    cases hterm : d.term? id with
    | none => simp [hterm] at h
    | some t => exact ⟨t, rfl⟩

theorem grows_checkComponentReferences (c : ComponentDecl) :
    Grows (checkComponentReferences d c) :=
  (agrees_checkComponentReferences c : Agrees False _ _).grows

theorem clean_checkComponentReferences {c : ComponentDecl}
    (h : Clean (checkComponentReferences d c) ()) :
    (∃ t, termOf? d c = some t) ∧ ∃ i, interactionOf? d c = some i := by
  obtain ⟨u, ht, hi⟩ := (clean_bind fun _ => grows_reportIf _ _).mp h
  refine ⟨clean_checkTermReference ht, ?_⟩
  rw [clean_reportIf] at hi
  cases hinter : interactionOf? d c with
  | none => simp [hinter] at hi
  | some i => exact ⟨i, rfl⟩

theorem grows_checkUse (ids path : List String) (kind : String) (u : WeightedUse) :
    Grows (checkUse ids path kind u) := grows_reportIf _ _

theorem clean_checkUse {ids path : List String} {kind : String} {u : WeightedUse} :
    Clean (checkUse ids path kind u) () ↔ u.use ∈ ids := by
  unfold checkUse
  rw [clean_reportIf]
  simp

theorem grows_checkHamiltonianUses (h : HamiltonianDecl) : Grows (checkHamiltonianUses d h) :=
  (agrees_checkHamiltonianUses h : Agrees False _ _).grows

theorem closed_of_clean (h : Clean (checkReferences d) ()) : Closed d := by
  unfold checkReferences at h
  have hensemble := grows_forM _ d.ensemble
    (grows_checkUse (d.hamiltonians.map (·.id)) ["ensemble"] "hamiltonian")
  have hhamiltonians := grows_forM _ d.hamiltonians (grows_checkHamiltonianUses (d := d))
  have hcomponents := grows_forM _ d.components (grows_checkComponentReferences (d := d))
  obtain ⟨_, -, h⟩ := (clean_bind fun _ => grows_bind hcomponents fun _ =>
    grows_bind hhamiltonians fun _ => hensemble).mp h
  obtain ⟨_, hc, h⟩ := (clean_bind fun _ => grows_bind hhamiltonians fun _ => hensemble).mp h
  obtain ⟨_, hh, he⟩ := (clean_bind fun _ => hensemble).mp h
  rw [clean_forM grows_checkComponentReferences] at hc
  rw [clean_forM grows_checkHamiltonianUses] at hh
  rw [clean_forM (grows_checkUse _ _ _)] at he
  refine ⟨fun c hmem => (clean_checkComponentReferences (hc c hmem)).1,
    fun c hmem => (clean_checkComponentReferences (hc c hmem)).2, ?_, ?_⟩
  · intro h hmem u hu
    have huses := (clean_forM (grows_checkUse _ _ _)).mp (hh h hmem) u hu
    exact List.mem_map.mp (clean_checkUse.mp huses)
  · intro u hu
    exact List.mem_map.mp (clean_checkUse.mp (he u hu))

theorem grows_checkReferences : Grows (checkReferences d) :=
  (agrees_checkReferences : Agrees False _ _).grows

/-! ## Weights and uses -/

/-- A weight that was accepted has no symbols, and no names but those of single numbers. -/
structure WeightOk (scope : Scope) (w : Formula) : Prop where
  indexSymbols : w.body.indexSymbols = []
  reductionSymbols : w.body.reductionSymbols = []
  names : ∀ name ∈ w.body.names, scope.isScalar name = true

theorem weightOk_of_resolve {w r : Formula} {path : List String}
    (h : resolveWeight scope w path = .ok r) :
    r = w.substitute scope.numbers [] ∧ WeightOk scope r := by
  unfold resolveWeight at h
  simp only at h
  split at h
  · cases h
  · rename_i hsymbols
    split at h
    · cases h
    · rename_i hnames
      cases h
      obtain ⟨hindex, hreduction⟩ := List.append_eq_nil_iff.mp (not_not.mp hsymbols)
      refine ⟨rfl, hindex, hreduction, ?_⟩
      intro name hname
      simpa using List.find?_eq_none.mp hnames name hname

/-- A reference of the graph stands for a use of the document. -/
structure Refers (scope : Scope) (ids : List String) (u : WeightedUse) (r : WeightedRef) :
    Prop where
  /-- The first of that id. -/
  first : ids.findIdx? (· == u.use) = some r.index
  weight : r.weight = u.weight.substitute scope.numbers []
  weight_ok : WeightOk scope r.weight

theorem target_of_findIdx? {ids : List String} {id : String} {k : Nat}
    (h : ids.findIdx? (· == id) = some k) : ids[k]? = some id := by
  obtain ⟨hk, hid, -⟩ := List.findIdx?_eq_some_iff_getElem.mp h
  rw [List.getElem?_eq_getElem hk, beq_iff_eq.mp hid]

theorem Refers.target {ids : List String} {u : WeightedUse} {r : WeightedRef}
    (h : Refers scope ids u r) : ids[r.index]? = some u.use :=
  target_of_findIdx? h.first

/-- No use is left out where each of them finds its place. -/
theorem forall₂_refers (path : Nat → List String) {place? : String → Option Nat}
    {ids : List String} {uses : List (WeightedUse × Nat)} {refs : List (Option WeightedRef)}
    (hplace : ∀ id, place? id = ids.findIdx? (· == id))
    (hclosed : ∀ u ∈ uses, u.1.use ∈ ids)
    (h : List.Forall₂ (fun u r => resolveUse scope place? u.1 (path u.2) = .ok r) uses refs) :
    List.Forall₂ (Refers scope ids) (uses.map (·.1)) (refs.filterMap id) := by
  induction h with
  | nil => exact .nil
  | @cons u r uses refs hr _ ih =>
    unfold resolveUse at hr
    obtain ⟨w, hw, hr⟩ := bind_eq_ok.mp hr
    cases hr
    obtain ⟨k, hk⟩ : ∃ k, place? u.1.use = some k := by
      rw [hplace]
      exact Option.isSome_iff_exists.mp (List.findIdx?_isSome.trans (by
        simpa using hclosed u List.mem_cons_self))
    obtain ⟨hsubst, hok⟩ := weightOk_of_resolve hw
    simp only [hk, Option.map_some, List.map_cons, List.filterMap_cons, id]
    refine .cons ⟨by rw [← hplace, hk], hsubst, hok⟩ ?_
    exact ih fun u hu => hclosed u (List.mem_cons_of_mem _ hu)

/-! ## Parts of the graph -/

/-- All components stand in the arenas when all were added without a mistake. -/
theorem sound_components {a : Assembly} (hd : Closed d)
    (h : Clean (d.components.foldlM (addComponent d s scope) .empty) a) :
    Sound d s scope d.components a := by
  refine clean_foldlM (fun b c => grows_addComponent b c) sound_empty ?_ h
  intro done c b b' hc hb hadded
  obtain ⟨t, ht⟩ := hd.terms c hc
  obtain ⟨i, hi⟩ := hd.interactions c hc
  exact sound_addComponent ht hi hb hadded

/-- A node stands for a hamiltonian of the document. -/
structure Stores (scope : Scope) (components : List ComponentNode) (h : HamiltonianDecl)
    (n : HamiltonianNode) : Prop where
  id_eq : n.id = h.id
  type_eq : n.type = h.derivedType
  couples_eq : n.couples = h.couples
  refs : List.Forall₂ (Refers scope (components.map (·.id))) h.components n.components

/-- A place by the id of a node is a place in the list of ids. -/
theorem findIdx?_ids {ν : Type} (ids : ν → String) (nodes : List ν) (id : String) :
    (nodes.findIdx? fun n => ids n == id) = (nodes.map ids).findIdx? (· == id) := by
  rw [List.findIdx?_map]
  rfl

theorem stores_of_resolve {components : List ComponentNode} {h : HamiltonianDecl}
    {n : HamiltonianNode} (hclosed : ∀ u ∈ h.components, u.use ∈ components.map (·.id))
    (hn : resolveHamiltonian scope components h = .ok n) : Stores scope components h n := by
  unfold resolveHamiltonian at hn
  obtain ⟨_, -, hn⟩ := bind_eq_ok.mp hn
  obtain ⟨refs, hrefs, hn⟩ := bind_eq_ok.mp hn
  cases hn
  refine ⟨rfl, rfl, rfl, ?_⟩
  have huses := forall₂_refers (fun k => ["hamiltonians", h.id, "components", toString k])
    (findIdx?_ids (·.id) components)
    (fun u hu => hclosed u.1 (List.fst_mem_of_mem_zipIdx hu)) (mapM_eq_ok.mp hrefs)
  rwa [List.zipIdx_map_fst] at huses

theorem refers_of_buildEnsemble {hamiltonians : List HamiltonianNode} {uses : List WeightedUse}
    {refs : List WeightedRef} (hclosed : ∀ u ∈ uses, u.use ∈ hamiltonians.map (·.id))
    (h : Clean (buildEnsemble scope hamiltonians uses) refs) :
    uses ≠ [] ∧ List.Forall₂ (Refers scope (hamiltonians.map (·.id))) uses refs := by
  unfold buildEnsemble at h
  obtain ⟨_, hempty, h⟩ := (clean_bind fun _ =>
    grows_bind (grows_mapM _ _ fun _ => grows_attempt _) fun _ => grows_pure _).mp h
  obtain ⟨found, hfound, h⟩ := (clean_bind fun _ => grows_pure _).mp h
  cases clean_pure.mp h
  have hne : uses.isEmpty = false := clean_reportIf.mp hempty
  refine ⟨by simpa using hne, ?_⟩
  obtain ⟨ys, rfl, hys⟩ := clean_mapM_attempt.mp hfound
  have huses := forall₂_refers (fun k => ["ensemble", toString k])
    (findIdx?_ids (·.id) hamiltonians)
    (fun u hu => hclosed u.1 (List.fst_mem_of_mem_zipIdx hu)) hys
  rw [List.zipIdx_map_fst] at huses
  rwa [List.filterMap_map]

/-- The ids of the components, in the order of the document. -/
theorem Sound.map_id {done : List ComponentDecl} {a : Assembly} (h : Sound d s scope done a) :
    a.components.map (·.id) = done.map (·.id) := by
  refine map_eq_of_forall₂ (h.components.imp ?_)
  rintro c n ⟨t, i, x, node, hstands⟩
  exact hstands.id_eq

theorem grows_buildEnsemble (hamiltonians : List HamiltonianNode) (uses : List WeightedUse) :
    Grows (buildEnsemble scope hamiltonians uses) :=
  (agrees_buildEnsemble hamiltonians uses : Agrees False _ _).grows

theorem grows_linkUses (components : List ComponentNode) :
    Grows (linkUses d scope components) :=
  (agrees_linkUses components : Agrees False _ _).grows

/-- The references are closed, and nothing that is used is missing. -/
theorem clean_linkUses {components : List ComponentNode} {hamiltonians : List HamiltonianNode}
    {ensemble : List WeightedRef}
    (hids : Closed d → components.map (·.id) = d.components.map (·.id))
    (h : Clean (linkUses d scope components) (hamiltonians, ensemble)) :
    Closed d ∧ List.Forall₂ (Stores scope components) d.hamiltonians hamiltonians ∧
      d.ensemble ≠ [] ∧
      List.Forall₂ (Refers scope (hamiltonians.map (·.id))) d.ensemble ensemble := by
  unfold linkUses at h
  obtain ⟨hs, hhamiltonians, h⟩ := (clean_bind fun _ =>
    grows_bind (grows_buildEnsemble _ _) fun _ =>
      grows_bind grows_checkReferences fun _ => grows_pure _).mp h
  obtain ⟨refs, hensemble, h⟩ := (clean_bind fun _ =>
    grows_bind grows_checkReferences fun _ => grows_pure _).mp h
  obtain ⟨_, hreferences, h⟩ := (clean_bind fun _ => grows_pure _).mp h
  cases clean_pure.mp h
  have hd := closed_of_clean hreferences
  have huses : ∀ h ∈ d.hamiltonians, ∀ u ∈ h.components, u.use ∈ components.map (·.id) := by
    intro h hmem u hu
    rw [hids hd]
    obtain ⟨c, hc, hid⟩ := hd.components h hmem u hu
    exact List.mem_map.mpr ⟨c, hc, hid⟩
  have hstores : List.Forall₂ (Stores scope components) d.hamiltonians hamiltonians := by
    refine ((List.forall₂_and_left _ _).mpr
      ⟨huses, clean_filterMapM_attempt.mp hhamiltonians⟩).imp ?_
    exact fun _ _ hn => stores_of_resolve hn.1 hn.2
  have hsame : hamiltonians.map (·.id) = d.hamiltonians.map (·.id) :=
    map_eq_of_forall₂ (hstores.imp fun _ _ hn => hn.id_eq)
  refine ⟨hd, hstores, refers_of_buildEnsemble (fun u hu => ?_) hensemble⟩
  rw [hsame]
  obtain ⟨h, hmem, hid⟩ := hd.hamiltonians u hu
  exact List.mem_map.mpr ⟨h, hmem, hid⟩

/-! ## The graph -/

/-- What the graph of a document holds when it was put together without a mistake. -/
structure Assembled (d : Document) (s : Surroundings) (dataShapes : List (String × Shape))
    (a : Assembly) (g : Graph) : Prop where
  vars : List.Forall₂ (fun v x => resolveVariable s v = .ok x) d.vars g.vars
  shapes : List.Forall₂ (fun x p => dataShape s x = .ok p)
    (d.data.filter fun x => (referencedNames d).contains x.name) dataShapes
  sound : Sound d s (scopeOf s g.vars dataShapes) d.components a
  terms_eq : g.terms = a.terms
  interactions_eq : g.interactions = a.interactions
  components_eq : g.components = a.components
  hamiltonians : List.Forall₂ (Stores (scopeOf s g.vars dataShapes) g.components)
    d.hamiltonians g.hamiltonians
  ensemble_ne : d.ensemble ≠ []
  ensemble : List.Forall₂ (Refers (scopeOf s g.vars dataShapes) (g.hamiltonians.map (·.id)))
    d.ensemble g.ensemble
  base_eq : g.base = d.indexBase
  dataNames_eq : g.dataNames = d.data.map (·.name)

/-- Each node of an assembled graph stands there for a component of the document. -/
theorem Assembled.stands {dataShapes : List (String × Shape)} {a : Assembly} {g : Graph}
    (h : Assembled d s dataShapes a g) {n : ComponentNode} (hn : n ∈ g.components) :
    ∃ c ∈ d.components, ∃ t i x node,
      Stands d (scopeOf s g.vars dataShapes) s.base a c t i x node n := by
  rw [h.components_eq] at hn
  exact exists_of_mem_right h.sound.components hn

/-- Every part of a run of the whole assembly that finds nothing is clean. -/
theorem parts_of_clean {parameters : ResolvedParameters} {g : Graph}
    (h : Clean (assemble d parameters s) g) :
    ∃ vars dataShapes a hamiltonians ensemble,
      Clean (d.vars.filterMapM fun v => attempt (resolveVariable s v)) vars ∧
      Clean ((d.data.filter fun x => (referencedNames d).contains x.name).filterMapM fun x =>
        attempt (dataShape s x)) dataShapes ∧
      Clean (d.components.foldlM (addComponent d s (scopeOf s vars dataShapes)) .empty) a ∧
      Clean (linkUses d (scopeOf s vars dataShapes) a.components) (hamiltonians, ensemble) ∧
      g = ⟨d.name, d.version, d.indexBase, parameters.values, vars, d.data.map (·.name), a.terms,
        a.interactions, a.components, hamiltonians, ensemble⟩ := by
  unfold assemble at h
  -- What comes after each part can only add to what was found.
  obtain ⟨vars, hvars, h⟩ := (clean_bind fun _ =>
    grows_bind (grows_filterMapM _ _ fun _ => grows_attempt _) fun _ =>
      grows_bind (grows_foldlM _ _ _ grows_addComponent) fun _ =>
        grows_bind (grows_linkUses _) fun _ => grows_pure _).mp h
  obtain ⟨dataShapes, hshapes, h⟩ := (clean_bind fun _ =>
    grows_bind (grows_foldlM _ _ _ grows_addComponent) fun _ =>
      grows_bind (grows_linkUses _) fun _ => grows_pure _).mp h
  obtain ⟨a, ha, h⟩ := (clean_bind fun _ =>
    grows_bind (grows_linkUses _) fun _ => grows_pure _).mp h
  obtain ⟨⟨hamiltonians, ensemble⟩, hlinked, h⟩ := (clean_bind fun _ => grows_pure _).mp h
  exact ⟨vars, dataShapes, a, hamiltonians, ensemble, hvars, hshapes, ha, hlinked,
    (clean_pure.mp h).symm⟩

/-- A run of the whole assembly that finds nothing ends with a graph that lacks nothing. -/
theorem assembled_of_clean {parameters : ResolvedParameters} {g : Graph}
    (h : Clean (assemble d parameters s) g) :
    ∃ dataShapes a, Assembled d s dataShapes a g := by
  obtain ⟨vars, dataShapes, a, hamiltonians, ensemble, hvars, hshapes, ha, hlinked, rfl⟩ :=
    parts_of_clean h
  obtain ⟨hd, hhamiltonians, hne, hensemble⟩ :=
    clean_linkUses (fun hd => (sound_components hd ha).map_id) hlinked
  exact ⟨dataShapes, a, clean_filterMapM_attempt.mp hvars, clean_filterMapM_attempt.mp hshapes,
    sound_components hd ha, rfl, rfl, rfl, hhamiltonians, hne, hensemble, rfl, rfl⟩

/-- A graph is built where there are parameters and data for it, and the assembly finds nothing. -/
theorem build_eq_ok {o : BuildOptions} {g : Graph} :
    build d o = .ok g ↔ ∃ parameters data, o.parametersFor d = .ok parameters ∧
      o.dataFor d = .ok data ∧
      Clean (assemble d parameters (o.surroundings d parameters data)) g := by
  have hsettle : ∀ parameters data,
      settle o.collect (fun _ => putTogether d parameters (o.surroundings d parameters data)) =
        .ok g ↔ Clean (assemble d parameters (o.surroundings d parameters data)) g :=
    fun parameters _ => settle_eq_ok (agrees_putTogether False.elim parameters)
  unfold build
  constructor
  · intro h
    obtain ⟨parameters, hparameters, h⟩ := bind_eq_ok.mp h
    obtain ⟨data, hdata, h⟩ := bind_eq_ok.mp h
    exact ⟨parameters, data, hparameters, hdata, (hsettle parameters data).mp h⟩
  · rintro ⟨parameters, data, hparameters, hdata, h⟩
    refine bind_eq_ok.mpr ⟨parameters, hparameters, ?_⟩
    exact bind_eq_ok.mpr ⟨data, hdata, (hsettle parameters data).mpr h⟩

end EnergyGraph.Graph
