-- The nodes of a graph while they are put together. Terms and interactions stand in
-- arenas that only grow, and two tables tell under which id a node can be found again.
-- The invariant `Sound` says what the tables point at, and holds after each component.
import EnergyGraph.Proofs.BuildModes

namespace EnergyGraph

namespace Graph

open Findings

/-! ## What a component needs of its term -/

/-- The symbols that reductions in a term run over, under an interaction. -/
def reductionsOf (t : TermDecl) (x : Interaction) : List String :=
  (Usage.ofExprs (bodies t.formulas) x.symbols).reductions

/-- The symbols that stay symbols when the parameters of a term are replaced. -/
def boundOf (t : TermDecl) (x : Interaction) : List String := x.symbols ++ reductionsOf t x

/-- Where the node of a term is kept: under its id, and the set of its bound symbols. -/
def slotOf (t : TermDecl) (x : Interaction) : String × List String :=
  (t.id, symbolSet (boundOf t x))

theorem reductions_of_bind {t : TermDecl} {x : Interaction} {g : Option (Aggregator Float)}
    {b : Binding} (h : Binding.bind (bodies t.formulas) t.arity t.compat x g = .ok b) :
    b.reductions = reductionsOf t x := by
  unfold Binding.bind at h
  simp only [bind_eq_ok] at h
  obtain ⟨_, _, _, _, _, _, _, _, _, _, _, _, _, _, h⟩ := h
  cases h
  rfl

/-! ## Growth -/

/-- Nodes stay where they are, and what a table points at does not change. -/
structure Extends (a b : Assembly) : Prop where
  terms : ∀ (k : Nat) (node : TermNode), a.terms[k]? = some node → b.terms[k]? = some node
  interactions : ∀ (k : Nat) (x : Interaction),
    a.interactions[k]? = some x → b.interactions[k]? = some x
  termPlaces : ∀ slot k, a.termPlaces.lookup slot = some k → b.termPlaces.lookup slot = some k
  interactionPlaces : ∀ id p,
    a.interactionPlaces.lookup id = some p → b.interactionPlaces.lookup id = some p

theorem Extends.refl (a : Assembly) : Extends a a :=
  ⟨fun _ _ h => h, fun _ _ h => h, fun _ _ h => h, fun _ _ h => h⟩

theorem Extends.trans {a b c : Assembly} (h : Extends a b) (h' : Extends b c) : Extends a c :=
  ⟨fun k x hk => h'.terms k x (h.terms k x hk),
    fun k x hk => h'.interactions k x (h.interactions k x hk),
    fun slot k hk => h'.termPlaces slot k (h.termPlaces slot k hk),
    fun id p hp => h'.interactionPlaces id p (h.interactionPlaces id p hp)⟩

theorem extends_components (a : Assembly) (ns : List ComponentNode) :
    Extends a { a with components := ns } :=
  ⟨fun _ _ h => h, fun _ _ h => h, fun _ _ h => h, fun _ _ h => h⟩

theorem getElem?_append_of_some {α : Type} {xs : List α} {k : Nat} {x : α} (ys : List α)
    (h : xs[k]? = some x) : (xs ++ ys)[k]? = some x := by
  rw [List.getElem?_append_left (List.getElem?_eq_some_iff.mp h).1, h]

section

variable {α β : Type} [BEq α] {l : List (α × β)} {key other : α} {v w : β}

theorem lookup_append_of_some (m : List (α × β)) (h : l.lookup key = some v) :
    (l ++ m).lookup key = some v := by
  rw [List.lookup_append, h, Option.some_or]

variable [LawfulBEq α]

theorem lookup_snoc_self (h : l.lookup key = none) : (l ++ [(key, v)]).lookup key = some v := by
  rw [List.lookup_append, h]
  simp

/-- What an enlarged table tells is old, or it is the new entry. -/
theorem lookup_snoc (h : (l ++ [(key, v)]).lookup other = some w) :
    l.lookup other = some w ∨ other = key ∧ v = w := by
  rw [List.lookup_append] at h
  rcases hold : l.lookup other with _ | u
  · rw [hold, Option.none_or, List.lookup_cons] at h
    split at h
    · exact Or.inr ⟨beq_iff_eq.mp ‹_›, Option.some.inj h⟩
    · cases h
  · rw [hold, Option.some_or] at h
    exact Or.inl h

end

/-! ## What stands in an assembly -/

variable {d : Document} {s : Surroundings} {scope : Scope}

/-- A component stands in an assembly: the nodes for its term and its interaction are those
that the tables tell, and all checks of the component passed. -/
structure Stands (d : Document) (scope : Scope) (base : Int) (a : Assembly) (c : ComponentDecl)
    (t : TermDecl) (i : InteractionDecl) (x : Interaction) (node : TermNode) (n : ComponentNode) :
    Prop where
  id_eq : n.id = c.id
  term : termOf? d c = some t
  interaction : interactionOf? d c = some i
  interaction_place : a.interactionPlaces.lookup i.id = some (some n.interaction)
  interaction_node : a.interactions[n.interaction]? = some x
  term_place : a.termPlaces.lookup (slotOf t x) = some n.term
  term_node : a.terms[n.term]? = some node
  bound : Binding.bind (bodies t.formulas) t.arity t.compat x c.aggregator =
    .ok ⟨n.free, n.reductions, n.aggregator⟩
  checked : checkTerm scope base c.id t node x = .ok ()

theorem Stands.mono {base : Int} {a b : Assembly} {c : ComponentDecl} {t : TermDecl}
    {i : InteractionDecl} {x : Interaction} {node : TermNode} {n : ComponentNode}
    (h : Stands d scope base a c t i x node n) (hab : Extends a b) :
    Stands d scope base b c t i x node n :=
  ⟨h.id_eq, h.term, h.interaction, hab.interactionPlaces _ _ h.interaction_place,
    hab.interactions _ _ h.interaction_node, hab.termPlaces _ _ h.term_place,
    hab.terms _ _ h.term_node, h.bound, h.checked⟩

/-- What is kept under the id of an interaction was resolved for some component. -/
def InteractionKept (d : Document) (s : Surroundings) (done : List ComponentDecl) (a : Assembly) :
    Prop :=
  ∀ id place, a.interactionPlaces.lookup id = some place →
    ∃ k x, place = some k ∧ a.interactions[k]? = some x ∧
      ∃ c ∈ done, ∃ i, interactionOf? d c = some i ∧ i.id = id ∧ Interaction.resolve s i = .ok x

/-- A slot is filled by the node of a component's term, under its interaction. -/
structure Fills (d : Document) (numbers : Numbers) (a : Assembly) (slot : String × List String)
    (k : Nat) (c : ComponentDecl) (t : TermDecl) (i : InteractionDecl) (j : Nat) (x : Interaction) :
    Prop where
  term : termOf? d c = some t
  interaction : interactionOf? d c = some i
  interaction_place : a.interactionPlaces.lookup i.id = some (some j)
  interaction_node : a.interactions[j]? = some x
  slot_eq : slotOf t x = slot
  term_node : a.terms[k]? = some (termNode numbers t (boundOf t x))

theorem Fills.mono {numbers : Numbers} {a b : Assembly} {slot : String × List String} {k j : Nat}
    {c : ComponentDecl} {t : TermDecl} {i : InteractionDecl} {x : Interaction}
    (h : Fills d numbers a slot k c t i j x) (hab : Extends a b) :
    Fills d numbers b slot k c t i j x :=
  ⟨h.term, h.interaction, hab.interactionPlaces _ _ h.interaction_place,
    hab.interactions _ _ h.interaction_node, h.slot_eq, hab.terms _ _ h.term_node⟩

/-- What is kept in the slot of a term was made for some component. -/
def TermKept (d : Document) (numbers : Numbers) (done : List ComponentDecl) (a : Assembly) : Prop :=
  ∀ slot k, a.termPlaces.lookup slot = some k →
    ∃ c ∈ done, ∃ t i j x, Fills d numbers a slot k c t i j x

/-- Later nodes and more components take nothing away. -/
theorem TermKept.mono {numbers : Numbers} {done done' : List ComponentDecl} {a b : Assembly}
    (h : TermKept d numbers done a) (hab : Extends a b) (hplaces : b.termPlaces = a.termPlaces)
    (hdone : done ⊆ done') : TermKept d numbers done' b := by
  intro slot k hk
  rw [hplaces] at hk
  obtain ⟨c, hc, t, i, j, x, hfills⟩ := h slot k hk
  exact ⟨c, hdone hc, t, i, j, x, hfills.mono hab⟩

/-- The invariant, after some components. -/
structure Sound (d : Document) (s : Surroundings) (scope : Scope) (done : List ComponentDecl)
    (a : Assembly) : Prop where
  interactions : InteractionKept d s done a
  terms : TermKept d scope.numbers done a
  components : List.Forall₂ (fun c n => ∃ t i x node, Stands d scope s.base a c t i x node n)
    done a.components

theorem sound_empty : Sound d s scope [] Assembly.empty :=
  ⟨fun _ _ h => by simp [Assembly.empty] at h, fun _ _ h => by simp [Assembly.empty] at h, .nil⟩

/-! ## Placing an interaction -/

/-- An interaction that is asked for without a mistake has a place, and stands there. -/
theorem clean_placeInteraction {done : List ComponentDecl} {a b : Assembly} {c : ComponentDecl}
    {i : InteractionDecl} {placed : Option (Nat × Interaction)} (hi : interactionOf? d c = some i)
    (ha : InteractionKept d s done a) (h : Clean (placeInteraction s a i) (placed, b)) :
    ∃ k x, placed = some (k, x) ∧ Extends a b ∧ InteractionKept d s (done ++ [c]) b ∧
      b.interactionPlaces.lookup i.id = some (some k) ∧ b.interactions[k]? = some x ∧
      b.terms = a.terms ∧ b.termPlaces = a.termPlaces ∧ b.components = a.components := by
  unfold placeInteraction at h
  split at h
  · rename_i place hplace
    cases clean_pure.mp h
    obtain ⟨k, x, rfl, hx, -⟩ := ha _ _ hplace
    refine ⟨k, x, by simp [hx], .refl a, ?_, hplace, hx, rfl, rfl, rfl⟩
    intro id p hp
    obtain ⟨k, x, hk, hx, c', hc', rest⟩ := ha id p hp
    exact ⟨k, x, hk, hx, c', List.mem_append_left _ hc', rest⟩
  · rename_i hnone
    obtain ⟨o, ho, h⟩ := (clean_bind fun o => by cases o <;> exact grows_pure _).mp h
    obtain ⟨x, hx, rfl⟩ := clean_attempt.mp ho
    cases clean_pure.mp h
    have hlookup : (a.interactionPlaces ++ [(i.id, some a.interactions.length)]).lookup i.id =
        some (some a.interactions.length) := lookup_snoc_self hnone
    have hnode : (a.interactions ++ [x])[a.interactions.length]? = some x := by simp
    refine ⟨a.interactions.length, x, rfl, ?_, ?_, hlookup, hnode, rfl, rfl, rfl⟩
    · exact ⟨fun _ _ hk => hk, fun _ _ hk => getElem?_append_of_some _ hk, fun _ _ hk => hk,
        fun _ _ hp => lookup_append_of_some _ hp⟩
    · intro id p hp
      rcases lookup_snoc hp with hold | ⟨rfl, rfl⟩
      · obtain ⟨k, y, hk, hy, c', hc', rest⟩ := ha id p hold
        exact ⟨k, y, hk, getElem?_append_of_some _ hy, c', List.mem_append_left _ hc', rest⟩
      · exact ⟨_, x, rfl, hnode, c, by simp, i, hi, rfl, hx⟩

/-! ## Placing a term -/

/-- A term that is asked for stands in its slot, and whatever stood somewhere still does. -/
theorem placeTerm_spec {done : List ComponentDecl} {a : Assembly} {c : ComponentDecl}
    {t : TermDecl} {i : InteractionDecl} {j : Nat} {x : Interaction} {numbers : Numbers}
    (ht : termOf? d c = some t) (hi : interactionOf? d c = some i)
    (hj : a.interactionPlaces.lookup i.id = some (some j)) (hx : a.interactions[j]? = some x)
    (ha : TermKept d numbers done a) :
    ∃ k node b, placeTerm numbers a t (boundOf t x) = (k, node, b) ∧ Extends a b ∧
      TermKept d numbers (done ++ [c]) b ∧ b.termPlaces.lookup (slotOf t x) = some k ∧
      b.terms[k]? = some node ∧ b.interactions = a.interactions ∧
      b.interactionPlaces = a.interactionPlaces ∧ b.components = a.components := by
  rcases hold : a.termPlaces.lookup (slotOf t x) with _ | k
  · have hnode : (a.terms ++ [termNode numbers t (boundOf t x)])[a.terms.length]? =
        some (termNode numbers t (boundOf t x)) := by simp
    let b : Assembly := { a with
      terms := a.terms ++ [termNode numbers t (boundOf t x)]
      termPlaces := a.termPlaces ++ [(slotOf t x, a.terms.length)] }
    have hext : Extends a b :=
      ⟨fun _ _ hk => getElem?_append_of_some _ hk, fun _ _ hk => hk,
        fun _ _ hk => lookup_append_of_some _ hk, fun _ _ hp => hp⟩
    refine ⟨a.terms.length, termNode numbers t (boundOf t x), b, ?_, hext, ?_,
      lookup_snoc_self hold, hnode, rfl, rfl, rfl⟩
    · unfold slotOf at hold
      simp [placeTerm, hold, slotOf, b]
    · intro slot k hk
      rcases lookup_snoc hk with hk | ⟨rfl, rfl⟩
      · obtain ⟨c', hc', t, i, j, x, hfills⟩ := ha slot k hk
        exact ⟨c', List.mem_append_left _ hc', t, i, j, x, hfills.mono hext⟩
      · exact ⟨c, by simp, t, i, j, x, ht, hi, hj, hx, rfl, hnode⟩
  · obtain ⟨_, _, t', _, _, x', hfills⟩ := ha _ k hold
    have hkept := ha.mono (.refl a) rfl (List.subset_append_left done [c])
    refine ⟨k, _, a, ?_, .refl a, hkept, hold, hfills.term_node, rfl, rfl, rfl⟩
    unfold slotOf at hold
    simp [placeTerm, hold, hfills.term_node]

/-! ## Adding a component -/

theorem grows_bindComponent (base : Int) (a : Assembly) (c : ComponentDecl) (t : TermDecl)
    (place : Nat) (i : Interaction) : Grows (bindComponent scope base a c t place i) :=
  (agrees_bindComponent base a c t place i : Agrees False _ _).grows

theorem grows_addComponent (a : Assembly) (c : ComponentDecl) :
    Grows (addComponent d s scope a c) :=
  (agrees_addComponent False.elim a c).grows

/-- A term that is bound without a mistake is placed and checked, and becomes a component. -/
theorem clean_bindComponent {base : Int} {a b : Assembly} {c : ComponentDecl} {t : TermDecl}
    {j : Nat} {x : Interaction} (h : Clean (bindComponent scope base a c t j x) b) :
    ∃ binding k node a', Binding.bind (bodies t.formulas) t.arity t.compat x c.aggregator =
        .ok binding ∧ placeTerm scope.numbers a t (boundOf t x) = (k, node, a') ∧
      checkTerm scope base c.id t node x = .ok () ∧
      b = { a' with components := a'.components ++
        [⟨c.id, k, j, binding.aggregator, binding.free, binding.reductions⟩] } := by
  unfold bindComponent at h
  obtain ⟨o, ho, h⟩ := (clean_bind fun o => by
    cases o with
    | none => exact grows_pure _
    | some binding =>
      refine grows_bind (grows_attempt _) fun o => ?_
      cases o <;> exact grows_pure _).mp h
  obtain ⟨binding, hbind, rfl⟩ := clean_attempt.mp ho
  rw [mapError_eq_ok] at hbind
  have hbound : x.symbols ++ binding.reductions = boundOf t x := by
    rw [reductions_of_bind hbind]
    rfl
  rw [← hbound]
  obtain ⟨o, ho, h⟩ := (clean_bind fun o => by cases o <;> exact grows_pure _).mp h
  obtain ⟨u, hchecked, rfl⟩ := clean_attempt.mp ho
  exact ⟨binding, _, _, _, hbind, rfl, hchecked, (clean_pure.mp h).symm⟩

/-- One component that is added without a mistake keeps the invariant. -/
theorem sound_addComponent {done : List ComponentDecl} {a b : Assembly} {c : ComponentDecl}
    {t : TermDecl} {i : InteractionDecl} (ht : termOf? d c = some t)
    (hi : interactionOf? d c = some i) (ha : Sound d s scope done a)
    (h : Clean (addComponent d s scope a c) b) : Sound d s scope (done ++ [c]) b := by
  unfold addComponent at h
  rw [ht, placeFor, hi] at h
  obtain ⟨⟨placed, a₁⟩, h₁, h⟩ := (clean_bind fun p => by
    dsimp only
    split
    · exact grows_bindComponent _ _ _ _ _ _
    · exact grows_pure _).mp h
  obtain ⟨j, x, rfl, hext₁, hkept₁, hj, hx, -, hplaces, hcomponents⟩ :=
    clean_placeInteraction hi ha.interactions h₁
  obtain ⟨binding, k', node', a₂', hbind, hplaced, hchecked, rfl⟩ := clean_bindComponent h
  obtain ⟨k, node, a₂, hplace, hext₂, hterm₂, hk, hnode, hsame, hsamePlaces, hcomponents₂⟩ :=
    placeTerm_spec ht hi hj hx (ha.terms.mono hext₁ hplaces (List.Subset.refl done))
  obtain ⟨rfl, rfl, rfl⟩ : k = k' ∧ node = node' ∧ a₂ = a₂' := by
    simpa [hplace] using hplaced
  have hext₃ := extends_components a₂ (a₂.components ++
    [⟨c.id, k, j, binding.aggregator, binding.free, binding.reductions⟩])
  refine ⟨?_, hterm₂.mono hext₃ rfl (List.Subset.refl _), ?_⟩
  · intro id p hp
    rw [hsamePlaces] at hp
    obtain ⟨k, y, hk, hy, rest⟩ := hkept₁ id p hp
    exact ⟨k, y, hk, hext₂.interactions _ _ hy, rest⟩
  · dsimp only
    rw [hcomponents₂, hcomponents]
    refine List.rel_append ?_ (.cons ⟨t, i, x, node, ?_⟩ .nil)
    · apply ha.components.imp
      rintro c' n' ⟨t', i', x', node', hstands⟩
      rw [← hcomponents, ← hcomponents₂]
      exact ⟨t', i', x', node', hstands.mono ((hext₁.trans hext₂).trans hext₃)⟩
    · exact ⟨rfl, ht, hi, hext₂.interactionPlaces _ _ hj, hext₂.interactions _ _ hx, hk, hnode,
        hbind, hchecked⟩

end Graph

/-! ## Terms that have no place in a graph yet -/

/-- Binds the symbols of a term to those of an interaction. -/
def TermDecl.bindTo (t : TermDecl) (i : Interaction) (aggregator : Option (Aggregator Float)) :
    Except Binding.Fault Binding :=
  Binding.bind (Graph.bodies t.formulas) t.arity t.compat i aggregator

/-- The node of a term under an interaction. -/
def TermDecl.nodeOver (t : TermDecl) (numbers : Numbers) (i : Interaction) : Graph.TermNode :=
  Graph.termNode numbers t (Graph.boundOf t i)

/-- What a component keeps of the binding of its term. -/
def Graph.ComponentNode.binding (n : ComponentNode) : Binding :=
  ⟨n.free, n.reductions, n.aggregator⟩

end EnergyGraph
