-- Whether a component means what its declaration says. Components share nodes by the
-- ids of what they use, and ids may coincide: declared ones with one another, and with
-- those that are made up for what stands inside of a component. A component denotes its
-- own declaration as long as whatever shares an id also shares its meaning.
import EnergyGraph.Proofs.Building
import EnergyGraph.Proofs.Walking
import Mathlib.Data.List.Nodup

namespace EnergyGraph

/-! ## Symbols that stay -/

theorem Formula.substitute_congr {values : Numbers} {bound bound' : List String} (f : Formula)
    (h : ∀ name, name ∈ bound ↔ name ∈ bound') :
    f.substitute values bound = f.substitute values bound' := by
  unfold Formula.substitute
  rw [Expr.replace_congr]
  intro name
  rw [List.mem_append, List.mem_append, h name]

namespace Graph

theorem mem_symbolSet {symbols : List String} {name : String} :
    name ∈ symbolSet symbols ↔ name ∈ symbols := by
  unfold symbolSet
  rw [List.mem_eraseDups, (List.mergeSort_perm symbols _).mem_iff]

/-- Terms are the same where the same symbols are bound. -/
theorem termNode_congr {numbers : Numbers} {t : TermDecl} {bound bound' : List String}
    (h : symbolSet bound = symbolSet bound') :
    termNode numbers t bound = termNode numbers t bound' := by
  have hmem : ∀ name, name ∈ bound ↔ name ∈ bound' := by
    intro name
    rw [← mem_symbolSet, h, mem_symbolSet]
  unfold termNode
  simp only [Formula.substitute_congr _ hmem]

/-! ## Distinct ids -/

/-- The terms of a document, those inside of components among them. -/
def declaredTerms (d : Document) : List TermDecl :=
  d.terms ++ d.components.filterMap fun c =>
    match c.term with
    | .inline t => some t
    | .named _ => none

/-- The interactions of a document, those inside of components and the one that is always there
among them. -/
def declaredInteractions (d : Document) : List InteractionDecl :=
  d.interactions ++ d.components.filterMap fun c =>
    match c.interaction with
    | .inline i => some i
    | .named _ => none

def DistinctTerms (d : Document) : Prop := ((declaredTerms d).map (·.id)).Nodup

instance (d : Document) : Decidable (DistinctTerms d) :=
  inferInstanceAs (Decidable (List.Nodup _))

/-- No two interactions have one id, and only a declared one may take that of no interaction. -/
structure DistinctInteractions (d : Document) : Prop where
  nodup : ((declaredInteractions d).map (·.id)).Nodup
  inline_ne : ∀ c ∈ d.components, ∀ i, c.interaction = .inline i → i.id ≠ noInteraction.id

variable {d : Document} {s : Surroundings} {scope : Scope} {dataShapes : List (String × Shape)}
  {a : Assembly} {g : Graph}

theorem mem_declaredTerms {c : ComponentDecl} {t : TermDecl} (hc : c ∈ d.components)
    (ht : termOf? d c = some t) : t ∈ declaredTerms d := by
  unfold declaredTerms
  rw [List.mem_append]
  unfold termOf? at ht
  split at ht
  · cases ht
    exact Or.inr (List.mem_filterMap.mpr ⟨c, hc, by simp [*]⟩)
  · exact Or.inl (List.mem_of_find?_eq_some ht)

/-- The declaration of a term is known by its id. -/
theorem DistinctTerms.unique (h : DistinctTerms d) {c c' : ComponentDecl} {t t' : TermDecl}
    (hc : c ∈ d.components) (hc' : c' ∈ d.components) (ht : termOf? d c = some t)
    (ht' : termOf? d c' = some t') (hid : t.id = t'.id) : t = t' :=
  List.inj_on_of_nodup_map h (mem_declaredTerms hc ht) (mem_declaredTerms hc' ht') hid

theorem interactionOf?_cases {c : ComponentDecl} {i : InteractionDecl}
    (h : interactionOf? d c = some i) :
    c.interaction = .inline i ∨ i ∈ d.interactions ∨
      i = noInteraction ∧ ∀ j ∈ d.interactions, j.id ≠ noInteraction.id := by
  unfold interactionOf? at h
  split at h
  · cases h
    exact Or.inl ‹_›
  · split at h
    · cases h
      rename_i hfound
      exact Or.inr (Or.inl (List.mem_of_find?_eq_some hfound))
    · rename_i hnone
      split at h
      · cases h
        rename_i hid
        refine Or.inr (Or.inr ⟨rfl, fun j hj => ?_⟩)
        rw [← beq_iff_eq.mp hid]
        simpa using List.find?_eq_none.mp hnone j hj
      · cases h

/-- The declaration of an interaction is known by its id. -/
theorem DistinctInteractions.unique (h : DistinctInteractions d) {c c' : ComponentDecl}
    {i i' : InteractionDecl} (hc : c ∈ d.components) (hc' : c' ∈ d.components)
    (hi : interactionOf? d c = some i) (hi' : interactionOf? d c' = some i')
    (hid : i.id = i'.id) : i = i' := by
  have hmem : ∀ c ∈ d.components, ∀ i, interactionOf? d c = some i →
      i ∈ declaredInteractions d ∨
        i = noInteraction ∧ ∀ j ∈ declaredInteractions d, j.id ≠ noInteraction.id := by
    intro c hc i hi
    unfold declaredInteractions
    rcases interactionOf?_cases hi with hinline | hdeclared | ⟨rfl, hnone⟩
    · exact Or.inl (List.mem_append_right _ (List.mem_filterMap.mpr ⟨c, hc, by simp [hinline]⟩))
    · exact Or.inl (List.mem_append_left _ hdeclared)
    · refine Or.inr ⟨rfl, fun j hj => ?_⟩
      rcases List.mem_append.mp hj with hj | hj
      · exact hnone j hj
      · obtain ⟨c', hc', hj⟩ := List.mem_filterMap.mp hj
        split at hj
        · cases hj
          exact h.inline_ne c' hc' _ ‹_›
        · cases hj
  rcases hmem c hc i hi with hmem₁ | ⟨rfl, hnone⟩
  · rcases hmem c' hc' i' hi' with hmem₂ | ⟨rfl, hnone⟩
    · exact List.inj_on_of_nodup_map h.nodup hmem₁ hmem₂ hid
    · exact absurd hid (hnone i hmem₁)
  · rcases hmem c' hc' i' hi' with hmem₂ | ⟨rfl, -⟩
    · exact absurd hid.symm (hnone i' hmem₂)
    · rfl

/-- With distinct ids of terms, the node of a component is made from its own term. -/
theorem Sound.node_eq (hd : DistinctTerms d) (h : Sound d s scope d.components a)
    {c : ComponentDecl} {t : TermDecl} {i : InteractionDecl} {x : Interaction} {node : TermNode}
    {n : ComponentNode} (hc : c ∈ d.components)
    (hn : Stands d scope s.base a c t i x node n) :
    node = termNode scope.numbers t (boundOf t x) := by
  obtain ⟨c', hc', t', i', j, x', ht', -, -, -, hslot, hnode⟩ := h.terms _ _ hn.term_place
  rw [hn.term_node] at hnode
  obtain ⟨hid, hset⟩ := Prod.mk.inj hslot
  obtain rfl := hd.unique hc' hc ht' hn.term hid
  rw [Option.some.inj hnode]
  exact termNode_congr hset

/-! ## Own declarations -/

/-- A component has the term and the interaction that its own declaration means. -/
structure Denotes (d : Document) (s : Surroundings) (g : Graph) (c : ComponentDecl)
    (n : ComponentNode) : Prop where
  id_eq : n.id = c.id
  own : ∃ t i x, termOf? d c = some t ∧ interactionOf? d c = some i ∧
    Interaction.resolve s i = .ok x ∧ g.interactions[n.interaction]? = some x ∧
    g.terms[n.term]? = some (termNode s.parameters t (boundOf t x))

/-- The term and the interaction that a component declares or names. -/
structure Means (d : Document) (s : Surroundings) (c : ComponentDecl) (t : TermDecl)
    (i : InteractionDecl) (x : Interaction) : Prop where
  mem : c ∈ d.components
  term : termOf? d c = some t
  interaction : interactionOf? d c = some i
  resolved : Interaction.resolve s i = .ok x

/-- Whatever shares an id shares its meaning. -/
structure NoClash (d : Document) (s : Surroundings) : Prop where
  interactions : ∀ c ∈ d.components, ∀ c' ∈ d.components, ∀ i i', interactionOf? d c = some i →
    interactionOf? d c' = some i' → i.id = i'.id →
      Interaction.resolve s i = Interaction.resolve s i'
  terms : ∀ c c' t t' i i' x x', Means d s c t i x → Means d s c' t' i' x' →
    slotOf t x = slotOf t' x' →
      termNode s.parameters t (boundOf t x) = termNode s.parameters t' (boundOf t' x')

theorem noClash_of_distinct (ht : DistinctTerms d) (hi : DistinctInteractions d) :
    NoClash d s := by
  refine ⟨?_, ?_⟩
  · intro c hc c' hc' i i' h h' hid
    rw [hi.unique hc hc' h h' hid]
  · intro c c' t t' i i' x x' h h' hslot
    obtain ⟨hid, hset⟩ := Prod.mk.inj hslot
    obtain rfl := ht.unique h.mem h'.mem h.term h'.term hid
    exact termNode_congr hset

/-- Without clashes, what stands at the place of an interaction is resolved from any declaration
with its id. -/
theorem NoClash.resolve_eq (hd : NoClash d s) (h : Sound d s scope d.components a)
    {c : ComponentDecl} {i : InteractionDecl} {j : Nat} {x : Interaction} (hc : c ∈ d.components)
    (hi : interactionOf? d c = some i) (hj : a.interactionPlaces.lookup i.id = some (some j))
    (hx : a.interactions[j]? = some x) : Interaction.resolve s i = .ok x := by
  obtain ⟨k, y, hk, hy, c', hc', i', hi', hid, hresolved⟩ := h.interactions _ _ hj
  cases hk
  rw [hx] at hy
  cases hy
  rw [hd.interactions c hc c' hc' i i' hi hi' hid.symm, hresolved]

theorem Assembled.denotes (h : Assembled d s dataShapes a g) (hd : NoClash d s)
    {c : ComponentDecl} {t : TermDecl} {i : InteractionDecl} {x : Interaction} {node : TermNode}
    {n : ComponentNode} (hc : c ∈ d.components)
    (hn : Stands d (scopeOf s g.vars dataShapes) s.base a c t i x node n) : Denotes d s g c n := by
  have hx : Interaction.resolve s i = .ok x :=
    hd.resolve_eq h.sound hc hn.interaction hn.interaction_place hn.interaction_node
  obtain ⟨c', hc', t', i', j, x', ht', hi', hj, hx', hslot, hnode⟩ :=
    h.sound.terms _ _ hn.term_place
  have hresolved : Interaction.resolve s i' = .ok x' := hd.resolve_eq h.sound hc' hi' hj hx'
  refine ⟨hn.id_eq, t, i, x, hn.term, hn.interaction, hx, ?_, ?_⟩
  · rw [h.interactions_eq]
    exact hn.interaction_node
  · rw [h.terms_eq, hnode]
    exact congrArg some (hd.terms c' c t' t i' i x' x ⟨hc', ht', hi', hresolved⟩
      ⟨hc, hn.term, hn.interaction, hx⟩ hslot)

/-- A declaration that is denoted stands at the places that its ids lead to. -/
theorem Assembled.places_of_denotes (h : Assembled d s dataShapes a g)
    (hg : List.Forall₂ (Denotes d s g) d.components g.components) {c : ComponentDecl}
    (hc : c ∈ d.components) {i : InteractionDecl} (hi : interactionOf? d c = some i) :
    ∃ j x, a.interactionPlaces.lookup i.id = some (some j) ∧ a.interactions[j]? = some x ∧
      Interaction.resolve s i = .ok x ∧ ∀ t, termOf? d c = some t →
        ∃ k, a.termPlaces.lookup (slotOf t x) = some k ∧
          a.terms[k]? = some (termNode s.parameters t (boundOf t x)) := by
  rw [h.components_eq] at hg
  obtain ⟨n, -, hdenotes, t, i', x, node, hn⟩ := exists_of_mem_left
    (List.Forall₂.mp (fun _ _ => And.intro) hg h.sound.components) hc
  obtain ⟨t', i'', x', ht', hi'', hresolved, hx', hnode⟩ := hdenotes.own
  rw [h.interactions_eq, hn.interaction_node] at hx'
  rw [h.terms_eq] at hnode
  have hsame := hn.interaction
  rw [hi] at hi'' hsame
  cases hi''
  cases hsame
  cases hx'
  refine ⟨n.interaction, x, hn.interaction_place, hn.interaction_node, hresolved, ?_⟩
  intro u hu
  have hown := hn.term
  rw [hu] at ht' hown
  cases ht'
  cases hown
  exact ⟨n.term, hn.term_place, hnode⟩

theorem Assembled.noClash (h : Assembled d s dataShapes a g)
    (hg : List.Forall₂ (Denotes d s g) d.components g.components) : NoClash d s := by
  refine ⟨?_, ?_⟩
  · intro c hc c' hc' i i' hi hi' hid
    obtain ⟨j, x, hj, hx, hresolved, -⟩ := h.places_of_denotes hg hc hi
    obtain ⟨j', x', hj', hx', hresolved', -⟩ := h.places_of_denotes hg hc' hi'
    rw [hid, hj'] at hj
    cases hj
    rw [hx'] at hx
    cases hx
    rw [hresolved, hresolved']
  · intro c c' t t' i i' x x' hm hm' hslot
    obtain ⟨_, y, -, -, hy, hterm⟩ := h.places_of_denotes hg hm.mem hm.interaction
    obtain ⟨_, y', -, -, hy', hterm'⟩ := h.places_of_denotes hg hm'.mem hm'.interaction
    rw [hm.resolved] at hy
    rw [hm'.resolved] at hy'
    cases hy
    cases hy'
    obtain ⟨k, hk, hnode⟩ := hterm t hm.term
    obtain ⟨k', hk', hnode'⟩ := hterm' t' hm'.term
    rw [hslot, hk'] at hk
    cases hk
    rw [hnode'] at hnode
    exact (Option.some.inj hnode).symm

/-- In a graph that is built, all components denote their own declarations exactly if no two
declarations that share an id, or the slot of a term, differ in meaning. Distinct ids are enough. -/
theorem denotes_iff_noClash {o : BuildOptions} {parameters : ResolvedParameters} {data : Lookup}
    (h : build d o = .ok g) (hparameters : o.parametersFor d = .ok parameters)
    (hdata : o.dataFor d = .ok data) :
    (List.Forall₂ (Denotes d (o.surroundings d parameters data) g) d.components g.components ↔
      NoClash d (o.surroundings d parameters data)) ∧
    (DistinctTerms d → DistinctInteractions d →
      List.Forall₂ (Denotes d (o.surroundings d parameters data) g) d.components g.components) := by
  obtain ⟨parameters', data', hp, hd, hclean⟩ := build_eq_ok.mp h
  rw [hparameters] at hp
  rw [hdata] at hd
  cases hp
  cases hd
  obtain ⟨dataShapes, a, hassembled⟩ := assembled_of_clean hclean
  have hdenotes : NoClash d (o.surroundings d parameters data) →
      List.Forall₂ (Denotes d (o.surroundings d parameters data) g) d.components g.components := by
    intro hnone
    rw [hassembled.components_eq]
    refine ((List.forall₂_and_left _ _).mpr
      ⟨fun c hc => hc, hassembled.sound.components⟩).imp ?_
    rintro c n ⟨hc, t, i, x, node, hn⟩
    exact hassembled.denotes hnone hc hn
  exact ⟨⟨hassembled.noClash, hdenotes⟩, fun ht hi => hdenotes (noClash_of_distinct ht hi)⟩

/-- Without any data. -/
def withoutData : BuildOptions := ⟨some [], some .nothing, ⟨[], []⟩, none, false⟩

/-- The term `x[i]` or, where it is squared, `x[i]^2`. -/
def cellTerm (id : String) (isSquared : Bool) : TermDecl :=
  let cell : Expr := .ref "x" [.symbol "i" ⟨2, 3⟩] ⟨0, 4⟩
  let f : Formula := if isSquared
    then ⟨"x[i]^2", .binary .pow cell (.literal (.int 2) ⟨5, 6⟩) ⟨0, 6⟩, .unspecified⟩
    else ⟨"x[i]", cell, .unspecified⟩
  ⟨id, .analytic, .unspecified, some f, none, [], [], false⟩

/-- A term `b.term` is declared, and the term inside of the component `b` gets that id too. -/
def clash : Document where
  version := "1.0.0"
  name := "clash"
  indexBase := 0
  exprLang := exprLanguage
  parameters := []
  vars := [⟨"x", .continuous, [.size 3], .null, .null⟩]
  data := []
  functions := []
  interactions := [⟨"all", .allIndices, none, [("range", .list [.int 0, .int 2])], false⟩]
  terms := [cellTerm "b.term" false]
  components := [
    ⟨"a", .named "b.term", .named "all", some (Aggregator.ofKind .sum)⟩,
    ⟨"b", .inline (cellTerm "b.term" true), .named "all", some (Aggregator.ofKind .sum)⟩]
  hamiltonians := [⟨"H", [⟨"a", .ofNumber (.int 1) .unspecified⟩], [], none⟩]
  ensemble := [⟨"H", .ofNumber (.int 1) .unspecified⟩]

/-- It has a graph, and one of the components does not have its own term there. -/
theorem denotes_iff_noClash_clash : ∃ g : Graph, build clash withoutData = .ok g ∧
    ¬ List.Forall₂ (Denotes clash (withoutData.surroundings clash [] .nothing) g)
      clash.components g.components := by
  obtain ⟨g, hg⟩ := exists_eq_ok (show (build clash withoutData).isOk = true by decide +kernel)
  refine ⟨g, hg, ?_⟩
  rw [(denotes_iff_noClash hg rfl rfl).1]
  intro hnone
  let x : Interaction := ⟨"all", ["i"], .ranges [⟨0, 2⟩], 0⟩
  have ha : Means clash (withoutData.surroundings clash [] .nothing)
      ⟨"a", .named "b.term", .named "all", some (Aggregator.ofKind .sum)⟩
      (cellTerm "b.term" false)
      ⟨"all", .allIndices, none, [("range", .list [.int 0, .int 2])], false⟩ x :=
    ⟨.head _, rfl, rfl, rfl⟩
  have hb : Means clash (withoutData.surroundings clash [] .nothing)
      ⟨"b", .inline (cellTerm "b.term" true), .named "all", some (Aggregator.ofKind .sum)⟩
      (cellTerm "b.term" true)
      ⟨"all", .allIndices, none, [("range", .list [.int 0, .int 2])], false⟩ x :=
    ⟨.tail _ (.head _), rfl, rfl, rfl⟩
  have hslot : slotOf (cellTerm "b.term" false) x = slotOf (cellTerm "b.term" true) x := by
    decide +kernel
  have hsource := congrArg (fun node => node.expr.map (·.source))
    (hnone.terms _ _ _ _ _ _ _ _ ha hb hslot)
  exact absurd hsource (by decide +kernel)

end Graph

end EnergyGraph
