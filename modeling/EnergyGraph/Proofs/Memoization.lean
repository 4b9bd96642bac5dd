-- Keeping what was evaluated changes nothing. A component or a hamiltonian that is used again
-- is looked up and not evaluated, in the middle of weights that may fail. Step by step the
-- evaluation and the plain recursion have the same value or the same failure, because all
-- that is kept is what the recursion would find again.
import EnergyGraph.Proofs.Completeness
import EnergyGraph.Proofs.PlainEnergy
import Mathlib.Data.List.Nodup

namespace EnergyGraph

/-! ## Two computations side by side -/

/-- Two computations fail alike, or have related results. -/
inductive Agree {ε β γ : Type} (R : β → γ → Prop) : Except ε β → Except ε γ → Prop
  | ok {b : β} {c : γ} (related : R b c) : Agree R (.ok b) (.ok c)
  | error (err : ε) : Agree R (.error err) (.error err)

namespace Agree

variable {ε β β' γ γ' σ ι : Type} {R : β → γ → Prop} {S : β' → γ' → Prop}

theorem bind {x : Except ε β} {y : Except ε γ} {f : β → Except ε β'} {g : γ → Except ε γ'}
    (h : Agree R x y) (hrest : ∀ b c, R b c → Agree S (f b) (g c)) :
    Agree S (x >>= f) (y >>= g) := by
  cases h with
  | ok related => exact hrest _ _ related
  | error err => exact .error err

/-- Related results are results. -/
theorem of_eq {x : Except ε β} {y : Except ε γ} (h : Agree R x y) :
    Agree (fun b c => R b c ∧ y = .ok c) x y := by
  cases h with
  | ok related => exact .ok ⟨related, rfl⟩
  | error err => exact .error err

/-- A loop that keeps a state, and one that does not. -/
theorem foldlM {f : β → ι → StateT σ (Except ε) β} {g : γ → ι → Except ε γ} {xs : List ι}
    (I : List ι → β × σ → γ → Prop)
    (hstep : ∀ done, ∀ x ∈ xs, ∀ b s c, I done (b, s) c →
      Agree (I (done ++ [x])) ((f b x).run s) (g c x))
    {done : List ι} {b : β} {s : σ} {c : γ} (h : I done (b, s) c) :
    Agree (I (done ++ xs)) ((xs.foldlM f b).run s) (xs.foldlM g c) := by
  induction xs generalizing done b s c with
  | nil =>
    rw [List.append_nil]
    exact .ok h
  | cons x xs ih =>
    rw [List.foldlM_cons, List.foldlM_cons, StateT.run_bind, List.append_cons]
    refine bind (hstep done x List.mem_cons_self b s c h) ?_
    rintro ⟨b, s⟩ c h
    exact ih (fun done x hx => hstep done x (List.mem_cons_of_mem _ hx)) h

/-- A loop that keeps a state and lists its results, and one that takes them in at once. -/
theorem mapM {f : ι → StateT σ (Except ε) β} {g : γ → ι → Except ε γ} {xs : List ι}
    (step : γ → β → γ) (I : List ι → σ → Prop)
    (hstep : ∀ done x s c, I done s →
      Agree (fun r c' => step c r.1 = c' ∧ I (done ++ [x]) r.2) ((f x).run s) (g c x))
    {done : List ι} {s : σ} {c : γ} (h : I done s) :
    Agree (fun r c' => r.1.foldl step c = c' ∧ I (done ++ xs) r.2) ((xs.mapM f).run s)
      (xs.foldlM g c) := by
  induction xs generalizing done s c with
  | nil =>
    rw [List.append_nil]
    exact .ok ⟨rfl, h⟩
  | cons x xs ih =>
    rw [List.mapM_cons, List.foldlM_cons, StateT.run_bind, List.append_cons]
    refine bind (hstep done x s c h) ?_
    rintro ⟨b, s⟩ _ ⟨rfl, h⟩
    dsimp only
    rw [StateT.run_bind, ← bind_pure (xs.foldlM g (step c b))]
    refine bind (ih h) ?_
    rintro ⟨bs, s⟩ _ ⟨rfl, h⟩
    exact .ok ⟨rfl, h⟩

end Agree

/-! ## Nodes and their ids -/

namespace Graph

/-- A component that some hamiltonian of the ensemble uses. -/
def Reaches (g : Graph) (place : Nat) : Prop :=
  ∃ r ∈ g.ensemble, ∃ h, g.hamiltonians[r.index]? = some h ∧
    ∃ s ∈ h.components, s.index = place

/-- Every reference is to the first node of its id. -/
structure Keyed (g : Graph) : Prop where
  hamiltonians : ∀ r ∈ g.ensemble, ∀ h, g.hamiltonians[r.index]? = some h →
    (g.hamiltonians.map (·.id)).findIdx? (· == h.id) = some r.index
  components : ∀ h ∈ g.hamiltonians, ∀ r ∈ h.components, ∀ c, g.components[r.index]? = some c →
    (g.components.map (·.id)).findIdx? (· == c.id) = some r.index

theorem Refers.first_id {scope : Scope} {ν : Type} {nodes : List ν} {ids : ν → String}
    {u : WeightedUse} {r : WeightedRef} {n : ν} (h : Refers scope (nodes.map ids) u r)
    (hn : nodes[r.index]? = some n) : (nodes.map ids).findIdx? (· == ids n) = some r.index := by
  have htarget := h.target
  rw [List.getElem?_map, hn] at htarget
  rw [Option.some.inj htarget]
  exact h.first

theorem Assembled.keyed {d : Document} {s : Surroundings} {dataShapes : List (String × Shape)}
    {a : Assembly} {g : Graph} (h : Assembled d s dataShapes a g) : Keyed g where
  hamiltonians := by
    intro r hr n hn
    obtain ⟨u, -, hrefers⟩ := exists_of_mem_right h.ensemble hr
    exact hrefers.first_id hn
  components := by
    intro n hn r hr c hc
    obtain ⟨_, -, hstores⟩ := exists_of_mem_right h.hamiltonians hn
    obtain ⟨u, -, hrefers⟩ := exists_of_mem_right hstores.refs hr
    exact hrefers.first_id hc

theorem keyed_of_build {d : Document} {o : BuildOptions} {g : Graph} (h : build d o = .ok g) :
    Keyed g := by
  obtain ⟨parameters, data, -, -, hclean⟩ := build_eq_ok.mp h
  obtain ⟨dataShapes, a, hassembled⟩ := assembled_of_clean hclean
  exact hassembled.keyed

/-- References of the ensemble to hamiltonians of one id are the same. -/
theorem Keyed.hamiltonian_eq {g : Graph} (hg : Keyed g) {r s : WeightedRef} {h k : HamiltonianNode}
    (hr : r ∈ g.ensemble) (hs : s ∈ g.ensemble) (hh : g.hamiltonians[r.index]? = some h)
    (hk : g.hamiltonians[s.index]? = some k) (hid : h.id = k.id) : r.index = s.index := by
  have hfirst := hg.hamiltonians r hr h hh
  rw [hid, hg.hamiltonians s hs k hk] at hfirst
  exact (Option.some.inj hfirst).symm

theorem Keyed.component_eq {g : Graph} (hg : Keyed g) {p q : Nat} {c b : ComponentNode}
    (hp : g.Reaches p) (hq : g.Reaches q) (hc : g.components[p]? = some c)
    (hb : g.components[q]? = some b) (hid : c.id = b.id) : p = q := by
  obtain ⟨_, -, h, hh, r, hr, rfl⟩ := hp
  obtain ⟨_, -, k, hk, s, hs, rfl⟩ := hq
  have hfirst := hg.components h (List.mem_of_getElem? hh) r hr c hc
  rw [hid, hg.components k (List.mem_of_getElem? hk) s hs b hb] at hfirst
  exact (Option.some.inj hfirst).symm

end Graph

namespace Energy

variable {α : Type} [Scalar α]

/-! ## What is kept -/

/-- The audits kept are those of the components used so far, each once. -/
structure Keeps (e : Evaluation α) (used : List Nat) (kept : Kept α) : Prop where
  sound : ∀ entry ∈ kept, componentAt e entry.1 = .ok entry.2
  nodup : (kept.map (·.1)).Nodup
  places : ∀ p, p ∈ kept.map (·.1) ↔ p ∈ used

theorem keeps_nil (e : Evaluation α) : Keeps e [] [] :=
  ⟨by simp, by simp, by simp⟩

variable {e : Evaluation α} {used : List Nat} {kept : Kept α}

theorem Keeps.congr {more : List Nat} (h : Keeps e used kept) (hsame : ∀ p, p ∈ used ↔ p ∈ more) :
    Keeps e more kept :=
  ⟨h.sound, h.nodup, fun p => (h.places p).trans (hsame p)⟩

theorem Keeps.add {p : Nat} {audit : Audit.Component α} (h : Keeps e used kept)
    (hnew : p ∉ used) (haudit : componentAt e p = .ok audit) :
    Keeps e (used ++ [p]) (kept ++ [(p, audit)]) where
  sound := by
    intro entry hentry
    rcases List.mem_append.mp hentry with hold | hlast
    · exact h.sound entry hold
    · rw [List.mem_singleton.mp hlast]
      exact haudit
  nodup := by
    rw [List.map_append]
    refine List.nodup_append.mpr ⟨h.nodup, by simp, ?_⟩
    intro q hq r hr hqr
    rw [List.mem_singleton.mp hr] at hqr
    rw [hqr] at hq
    exact hnew ((h.places p).mp hq)
  places := by
    intro q
    rw [List.map_append, List.mem_append, List.mem_append, h.places]
    exact Iff.rfl

theorem run_component (p : Nat) (kept : Kept α) :
    (component e p).run kept =
      match kept.lookup p with
      | some audit => .ok (audit, kept)
      | none => (componentAt e p).map fun audit => (audit, kept ++ [(p, audit)]) := by
  unfold component
  rw [StateT.run_bind]
  change (match kept.lookup p with
    | some audit => pure audit
    | none => _ : Keeping α (Audit.Component α)).run kept = _
  cases kept.lookup p with
  | some audit => rfl
  | none =>
    cases hfound : componentAt e p with
    | error err =>
      rw [StateT.run_bind]
      rfl
    | ok audit => rfl

theorem component_agree (h : Keeps e used kept) (p : Nat) :
    Agree (fun r x => r.1.value = x ∧ Keeps e (used ++ [p]) r.2) ((component e p).run kept)
      (componentEnergy e p) := by
  rw [run_component, ← componentAt_value]
  cases hlookup : kept.lookup p with
  | some audit =>
    obtain ⟨before, after, rfl, -⟩ := List.lookup_eq_some_iff.mp hlookup
    have hold : p ∈ used := (h.places p).mp (by simp)
    rw [h.sound (p, audit) (by simp)]
    refine .ok ⟨rfl, h.congr fun q => ?_⟩
    simp only [List.mem_append, List.mem_singleton]
    exact ⟨Or.inl, fun hq => hq.elim id fun heq => heq ▸ hold⟩
  | none =>
    have hnew : p ∉ used := by
      intro hold
      obtain ⟨entry, hentry, rfl⟩ := List.mem_map.mp ((h.places p).mpr hold)
      have hne := List.lookup_eq_none_iff.mp hlookup entry hentry
      simp at hne
    cases hfound : componentAt e p with
    | error err => exact .error err
    | ok audit => exact .ok ⟨rfl, h.add hnew hfound⟩

/-! ## What is added up -/

/-- The component of a use in a hamiltonian, with its weight. -/
def contribution (e : Evaluation α) (id : String) (use : Graph.WeightedRef × Nat) :
    Keeping α (Audit.Contribution α) := do
  let weight ← weightValue e use.1.weight ["hamiltonians", id, "components", toString use.2]
  let audit ← component e use.1.index
  pure ⟨audit.id, weight, audit.value⟩

theorem contributions_eq (e : Evaluation α) (n : Graph.HamiltonianNode) :
    contributions e n = n.components.zipIdx.mapM (contribution e n.id) := rfl

theorem contribution_agree (h : Keeps e used kept) (id : String) (use : Graph.WeightedRef × Nat)
    (acc : α) :
    Agree (fun r x => acc + r.1.weighted = x ∧ Keeps e (used ++ [use.1.index]) r.2)
      ((contribution e id use).run kept) (addComponent e id acc use) := by
  unfold contribution addComponent
  rw [StateT.run_bind]
  cases weightValue e use.1.weight ["hamiltonians", id, "components", toString use.2] with
  | error err => exact .error err
  | ok weight =>
    refine (component_agree h use.1.index).bind ?_
    rintro ⟨audit, kept⟩ _ ⟨rfl, hkeeps⟩
    exact .ok ⟨rfl, hkeeps⟩

theorem contributions_agree (h : Keeps e used kept) (n : Graph.HamiltonianNode) :
    Agree (fun r x => sumOf r.1 = x ∧ Keeps e (used ++ n.components.map (·.index)) r.2)
      ((contributions e n).run kept) (hamiltonianEnergy e n) := by
  have hstep : ∀ (done : List (Graph.WeightedRef × Nat)) use kept (acc : α),
      Keeps e (used ++ done.map (·.1.index)) kept →
      Agree (fun r x => acc + r.1.weighted = x ∧
        Keeps e (used ++ (done ++ [use]).map (·.1.index)) r.2)
        ((contribution e n.id use).run kept) (addComponent e n.id acc use) := by
    intro done use kept acc hkeeps
    rw [List.map_append, ← List.append_assoc]
    exact contribution_agree hkeeps n.id use acc
  have hstart : Keeps e (used ++ [].map fun u : Graph.WeightedRef × Nat => u.1.index) kept := by
    rwa [List.map_nil, List.append_nil]
  have hindices : n.components.map (·.index) = n.components.zipIdx.map (·.1.index) := by
    conv_lhs => rw [← List.zipIdx_map_fst 0 n.components, List.map_map]
    rfl
  rw [contributions_eq, hindices]
  exact Agree.mapM (fun (acc : α) (c : Audit.Contribution α) => acc + c.weighted)
    (fun (done : List (Graph.WeightedRef × Nat)) kept =>
      Keeps e (used ++ done.map (·.1.index)) kept) hstep hstart

theorem evalHamiltonian_agree (h : Keeps e used kept) (n : Graph.HamiltonianNode) :
    Agree (fun r x => r.1.id = n.id ∧ r.1.value = x ∧
        Keeps e (used ++ n.components.map (·.index)) r.2)
      ((evalHamiltonian e n).run kept) (hamiltonianEnergy e n) := by
  unfold evalHamiltonian
  rw [StateT.run_bind, ← bind_pure (hamiltonianEnergy e n)]
  refine (contributions_agree h n).bind ?_
  rintro ⟨cs, kept⟩ _ ⟨rfl, hkeeps⟩
  exact .ok ⟨rfl, rfl, hkeeps⟩

/-- The components that some uses of the ensemble come to. -/
def placesOf (g : Graph) (uses : List (Graph.WeightedRef × Nat)) : List Nat :=
  uses.flatMap fun u =>
    match g.hamiltonians[u.1.index]? with
    | some h => h.components.map (·.index)
    | none => []

theorem mem_placesOf {g : Graph} {uses : List (Graph.WeightedRef × Nat)} {p : Nat} :
    p ∈ placesOf g uses ↔ ∃ u ∈ uses, ∃ h, g.hamiltonians[u.1.index]? = some h ∧
      ∃ s ∈ h.components, s.index = p := by
  unfold placesOf
  rw [List.mem_flatMap]
  refine exists_congr fun u => and_congr_right fun _ => ?_
  cases g.hamiltonians[u.1.index]? with
  | none => simp
  | some h => simp

theorem mem_placesOf_ensemble {g : Graph} {p : Nat} :
    p ∈ placesOf g g.ensemble.zipIdx ↔ g.Reaches p := by
  rw [mem_placesOf]
  constructor
  · rintro ⟨u, hu, hplace⟩
    exact ⟨u.1, List.fst_mem_of_mem_zipIdx hu, hplace⟩
  · rintro ⟨r, hr, hplace⟩
    rw [← List.zipIdx_map_fst 0 g.ensemble] at hr
    obtain ⟨u, hu, rfl⟩ := List.mem_map.mp hr
    exact ⟨u, hu, hplace⟩

theorem placesOf_append {g : Graph} {uses : List (Graph.WeightedRef × Nat)}
    {u : Graph.WeightedRef × Nat} {h : Graph.HamiltonianNode}
    (hh : g.hamiltonians[u.1.index]? = some h) :
    placesOf g (uses ++ [u]) = placesOf g uses ++ h.components.map (·.index) := by
  unfold placesOf
  rw [List.flatMap_append, List.flatMap_singleton, hh]

/-- The hamiltonians evaluated so far are those of some uses, with their energies. -/
def Stores (e : Evaluation α) (done : List (Graph.WeightedRef × Nat))
    (hs : List (Audit.Hamiltonian α)) : Prop :=
  ∀ x ∈ hs, ∃ u ∈ done, ∃ h, e.graph.hamiltonians[u.1.index]? = some h ∧ x.id = h.id ∧
    hamiltonianEnergy e h = .ok x.value

/-- How far the ensemble is: what was added up, and what is kept of it. -/
structure Progress (e : Evaluation α) (done : List (Graph.WeightedRef × Nat))
    (r : (List (Audit.Hamiltonian α) × List (Audit.Contribution α)) × Kept α) (total : α) :
    Prop where
  inside : ∀ u ∈ done, u.1 ∈ e.graph.ensemble
  sum_eq : sumOf r.1.2 = total
  stores : Stores e done r.1.1
  keeps : Keeps e (placesOf e.graph done) r.2

/-- A use of the ensemble after others. -/
def addUse (e : Evaluation α) (acc : List (Audit.Hamiltonian α) × List (Audit.Contribution α))
    (use : Graph.WeightedRef × Nat) :
    Keeping α (List (Audit.Hamiltonian α) × List (Audit.Contribution α)) := do
  let (hs, c) ← evalUse e acc.1 use.1 use.2
  pure (hs, acc.2 ++ [c])

/-- A hamiltonian that is kept, or else is evaluated. -/
def keptHamiltonian (e : Evaluation α) (before : List (Audit.Hamiltonian α))
    (h : Graph.HamiltonianNode) : Keeping α (Audit.Hamiltonian α × List (Audit.Hamiltonian α)) :=
  match before.find? fun x => x.id == h.id with
  | some audit => pure (audit, before)
  | none => do
    let audit ← evalHamiltonian e h
    pure (audit, before ++ [audit])

theorem evalUse_eq {before : List (Audit.Hamiltonian α)} {use : Graph.WeightedRef}
    {h : Graph.HamiltonianNode} (hh : e.graph.hamiltonians[use.index]? = some h) (k : Nat) :
    evalUse e before use k = (do
      let (audit, all) ← keptHamiltonian e before h
      let weight ← weightValue e use.weight ["ensemble", toString k]
      pure (all, ⟨h.id, weight, audit.value⟩)) := by
  unfold evalUse keptHamiltonian
  rw [hh]
  dsimp only
  cases before.find? fun x => x.id == h.id with
  | some audit => rfl
  | none => simp only [bind_assoc, pure_bind]

section

variable {done : List (Graph.WeightedRef × Nat)} {use : Graph.WeightedRef × Nat}
  {acc : List (Audit.Hamiltonian α) × List (Audit.Contribution α)} {total : α}
  {h : Graph.HamiltonianNode}

theorem keptHamiltonian_agree (hg : Graph.Keyed e.graph) (huse : use.1 ∈ e.graph.ensemble)
    (hh : e.graph.hamiltonians[use.1.index]? = some h) (hdone : Progress e done (acc, kept) total) :
    Agree (fun r x => r.1.1.value = x ∧ Stores e (done ++ [use]) r.1.2 ∧
        Keeps e (placesOf e.graph (done ++ [use])) r.2)
      ((keptHamiltonian e acc.1 h).run kept) (hamiltonianEnergy e h) := by
  have hmore : ∀ u ∈ done, u ∈ done ++ [use] := fun u hu => List.mem_append_left _ hu
  have hstores : Stores e (done ++ [use]) acc.1 := by
    intro x hx
    obtain ⟨u, hu, hstored⟩ := hdone.stores x hx
    exact ⟨u, hmore u hu, hstored⟩
  unfold keptHamiltonian
  rw [placesOf_append hh]
  cases hfind : acc.1.find? fun x => x.id == h.id with
  | some x =>
    -- It was evaluated for an earlier use, and so were all its components.
    obtain ⟨u, hu, k, hk, hid, henergy⟩ := hdone.stores x (List.mem_of_find?_eq_some hfind)
    have hsame : k.id = h.id := by
      rw [← hid]
      simpa using List.find?_some hfind
    have hindex := hg.hamiltonian_eq (hdone.inside u hu) huse hk hh hsame
    obtain rfl : k = h := Option.some.inj (hk.symm.trans (hindex ▸ hh))
    rw [henergy]
    refine .ok ⟨rfl, hstores, hdone.keeps.congr fun p => ?_⟩
    rw [List.mem_append]
    refine ⟨Or.inl, fun hp => hp.elim id fun hlast => ?_⟩
    exact mem_placesOf.mpr ⟨u, hu, k, hk, List.mem_map.mp hlast⟩
  | none =>
    dsimp only
    rw [StateT.run_bind, ← bind_pure (hamiltonianEnergy e h)]
    refine (Agree.of_eq (evalHamiltonian_agree hdone.keeps h)).bind ?_
    rintro ⟨audit, kept⟩ _ ⟨⟨hid, rfl, hkeeps⟩, henergy⟩
    refine .ok ⟨rfl, ?_, hkeeps⟩
    intro x hx
    rcases List.mem_append.mp hx with hold | hlast
    · exact hstores x hold
    · rw [List.mem_singleton.mp hlast]
      exact ⟨use, List.mem_append_right _ (List.mem_singleton.mpr rfl), h, hh, hid, henergy⟩

omit kept in
theorem sumOf_append (cs : List (Audit.Contribution α)) (c : Audit.Contribution α) :
    sumOf (cs ++ [c]) = sumOf cs + c.weighted := by
  unfold sumOf
  rw [List.foldl_append, List.foldl_cons, List.foldl_nil]

theorem addUse_agree (hg : Graph.Keyed e.graph) (huse : use.1 ∈ e.graph.ensemble)
    (hdone : Progress e done (acc, kept) total) :
    Agree (Progress e (done ++ [use])) ((addUse e acc use).run kept)
      (addHamiltonian e total use) := by
  have hinside : ∀ u ∈ done ++ [use], u.1 ∈ e.graph.ensemble := by
    intro u hu
    rcases List.mem_append.mp hu with hold | hlast
    · exact hdone.inside u hold
    · rwa [List.mem_singleton.mp hlast]
  unfold addUse addHamiltonian
  cases hh : e.graph.hamiltonians[use.1.index]? with
  | none =>
    unfold evalUse
    rw [hh]
    exact .error _
  | some h =>
    rw [evalUse_eq hh, bind_assoc, StateT.run_bind]
    refine (keptHamiltonian_agree hg huse hh hdone).bind ?_
    rintro ⟨⟨audit, hs⟩, kept⟩ _ ⟨rfl, hstores, hkeeps⟩
    dsimp only
    rw [bind_assoc, StateT.run_bind]
    cases weightValue e use.1.weight ["ensemble", toString use.2] with
    | error err => exact .error err
    | ok weight =>
      refine .ok ⟨hinside, ?_, hstores, hkeeps⟩
      rw [← hdone.sum_eq]
      exact sumOf_append acc.2 ⟨h.id, weight, audit.value⟩

end

theorem evalEnsemble_agree (hg : Graph.Keyed e.graph) :
    Agree (Progress e e.graph.ensemble.zipIdx) ((evalEnsemble e).run []) (energy e) := by
  have hstart : Progress e [] (([], []), []) Scalar.zero :=
    ⟨by simp, rfl, fun x hx => (nomatch hx), keeps_nil e⟩
  exact Agree.foldlM (Progress e)
    (fun done use huse acc kept total h =>
      addUse_agree hg (List.fst_mem_of_mem_zipIdx huse) h) hstart

/-! ## The whole graph -/

/-- The audit of the component at a place, with its energy. -/
def Shows (e : Evaluation α) (place : Nat) (audit : Audit.Component α) : Prop :=
  (∃ c, e.graph.components[place]? = some c ∧ audit.id = c.id) ∧
    componentEnergy e place = .ok audit.value

/-- A tree shows the components that the ensemble reaches, in the order of the graph, each once,
and under different ids. -/
structure ShowsReached (e : Evaluation α) (tree : Audit.Tree α) : Prop where
  places : ∃ places : List Nat, places.Pairwise (· < ·) ∧
    (∀ p, p ∈ places ↔ e.graph.Reaches p) ∧ List.Forall₂ (Shows e) places tree.components
  ids : (tree.components.map (·.id)).Nodup

theorem shows_of_componentAt {place : Nat} {audit : Audit.Component α}
    (h : componentAt e place = .ok audit) : Shows e place audit := by
  refine ⟨?_, by rw [← componentAt_value, h]; rfl⟩
  obtain ⟨c, _, _, _, _, hnodes, -, -, rfl⟩ := componentAt_eq_ok h
  obtain ⟨b, hb, hnodes⟩ := Option.bind_eq_some_iff.mp hnodes
  obtain ⟨_, -, hnodes⟩ := Option.bind_eq_some_iff.mp hnodes
  obtain ⟨_, -, hnodes⟩ := Option.bind_eq_some_iff.mp hnodes
  cases hnodes
  exact ⟨c, hb, rfl⟩

theorem showsReached_of_keeps (hg : Graph.Keyed e.graph)
    (h : Keeps e (placesOf e.graph e.graph.ensemble.zipIdx) kept) (total : α)
    (ensemble : List (Audit.Contribution α)) (hs : List (Audit.Hamiltonian α)) :
    ShowsReached e
      ⟨total, ensemble, hs, (kept.mergeSort fun a b => a.1 ≤ b.1).map (·.2)⟩ := by
  have hperm := List.mergeSort_perm kept fun a b => a.1 ≤ b.1
  have hsorted : (kept.mergeSort fun a b => a.1 ≤ b.1).Pairwise fun a b => a.1 ≤ b.1 := by
    refine (List.pairwise_mergeSort ?_ ?_ kept).imp fun h => of_decide_eq_true h
    · intro a b c hab hbc
      exact decide_eq_true (Nat.le_trans (of_decide_eq_true hab) (of_decide_eq_true hbc))
    · intro a b
      simpa using Nat.le_total a.1 b.1
  generalize (kept.mergeSort fun a b => a.1 ≤ b.1) = sorted at hperm hsorted ⊢
  have hnodup : (sorted.map (·.1)).Nodup := (hperm.map _).nodup_iff.mpr h.nodup
  have hmem : ∀ p, p ∈ sorted.map (·.1) ↔ e.graph.Reaches p := fun p =>
    ((hperm.map _).mem_iff.trans (h.places p)).trans mem_placesOf_ensemble
  have hshows : ∀ entry ∈ sorted, componentAt e entry.1 = .ok entry.2 :=
    fun entry hentry => h.sound entry (hperm.mem_iff.mp hentry)
  refine ⟨⟨sorted.map (·.1), ?_, hmem, ?_⟩, ?_⟩
  · refine ((List.pairwise_map.mpr hsorted).and hnodup).imp ?_
    rintro p q ⟨hle, hne⟩
    exact Nat.lt_of_le_of_ne hle hne
  · rw [List.forall₂_map_left_iff, List.forall₂_map_right_iff, List.forall₂_same]
    exact fun entry hentry => shows_of_componentAt (hshows entry hentry)
  · rw [List.map_map]
    refine List.Nodup.map_on ?_ (List.Nodup.of_map _ hnodup)
    intro x hx y hy hid
    obtain ⟨⟨c, hc, hxc⟩, -⟩ := shows_of_componentAt (hshows x hx)
    obtain ⟨⟨b, hb, hyb⟩, -⟩ := shows_of_componentAt (hshows y hy)
    have hplace : x.1 = y.1 :=
      hg.component_eq ((hmem _).mp (List.mem_map_of_mem hx)) ((hmem _).mp (List.mem_map_of_mem hy))
        hc hb (by rw [← hxc, ← hyb]; exact hid)
    have haudit := hshows x hx
    rw [hplace, hshows y hy] at haudit
    exact Prod.ext hplace (Except.ok.inj haudit).symm

/-- The evaluation of a graph has the energy of the plain recursion, or fails like it. -/
theorem run_agree (hg : Graph.Keyed e.graph) :
    Agree (fun tree total => tree.total = total ∧ ShowsReached e tree) (run e) (energy e) := by
  unfold run
  rw [← bind_pure (energy e)]
  refine (evalEnsemble_agree hg).bind ?_
  rintro ⟨⟨hs, cs⟩, kept⟩ total h
  exact .ok ⟨h.sum_eq, showsReached_of_keeps hg h.keeps _ _ _⟩

/-- What an evaluation works with, once the values and the data are there. -/
def prepare (g : Graph) (a : Assignment α) (data : DataFeed α) (registry : Option (Registry α))
    (o : Options) : Except Failure (Evaluation α) := do
  let vars ← normalize g a
  if o.checkBounds then checkVariables g vars
  let arrays ← loadData g data
  .ok ⟨g, vars ++ arrays, registry, o.instanceCap⟩

theorem evaluate_eq (g : Graph) (a : Assignment α) (data : DataFeed α)
    (registry : Option (Registry α)) (o : Options) :
    evaluate g a data registry o = prepare g a data registry o >>= run := by
  unfold evaluate prepare
  cases normalize g a with
  | error err => rfl
  | ok vars =>
    change (if o.checkBounds = true then _ else _) = (if o.checkBounds = true then _ else _) >>= run
    split
    · cases checkVariables g vars with
      | error err => rfl
      | ok _ =>
        cases hdata : loadData g data with
        | error err => rfl
        | ok arrays => rfl
    · cases hdata : loadData g data with
      | error err => rfl
      | ok arrays => rfl

theorem graph_of_prepare {g : Graph} {a : Assignment α} {data : DataFeed α}
    {registry : Option (Registry α)} {o : Options} (h : prepare g a data registry o = .ok e) :
    e.graph = g := by
  unfold prepare at h
  obtain ⟨vars, -, h⟩ := bind_eq_ok.mp h
  dsimp only at h
  split at h
  · obtain ⟨_, -, h⟩ := bind_eq_ok.mp h
    obtain ⟨arrays, -, h⟩ := bind_eq_ok.mp h
    cases h
    rfl
  · obtain ⟨arrays, -, h⟩ := bind_eq_ok.mp h
    cases h
    rfl

/-- The audit of a graph that was built has the total of the plain recursion, and there is none
exactly if the recursion fails, for the same reason. It shows the components that the ensemble
reaches, and no others. -/
theorem evaluate_eq_energy {d : Document} {o : Graph.BuildOptions} {g : Graph}
    (hg : Graph.build d o = .ok g) (a : Assignment α) (data : DataFeed α)
    (registry : Option (Registry α)) (options : Options) :
    (evaluate g a data registry options).map (·.total) =
        prepare g a data registry options >>= energy ∧
      ∀ tree, evaluate g a data registry options = .ok tree →
        ∃ e, prepare g a data registry options = .ok e ∧ ShowsReached e tree := by
  rw [evaluate_eq]
  cases hprepared : prepare g a data registry options with
  | error err => exact ⟨rfl, fun _ h => (nomatch h)⟩
  | ok e =>
    have hkeyed := graph_of_prepare hprepared ▸ Graph.keyed_of_build hg
    have hrun := run_agree hkeyed
    change (run e).map (·.total) = energy e ∧ ∀ tree, run e = .ok tree → _
    generalize run e = result at hrun ⊢
    generalize energy e = total at hrun ⊢
    cases hrun with
    | error err => exact ⟨rfl, fun _ h => (nomatch h)⟩
    | ok related =>
      refine ⟨congrArg Except.ok related.1, fun tree h => ⟨e, rfl, ?_⟩⟩
      cases h
      exact related.2

/-- The sample with its hamiltonian used twice, as `H - H`. -/
def twice : Document :=
  { Graph.sample with
    ensemble := [⟨"H", .ofNumber (.int 1) .unspecified⟩, ⟨"H", .ofNumber (.int (-1)) .unspecified⟩] }

/-- Three numbers for the variable of the sample. -/
def threeNumbers : Assignment Float := fun name =>
  if name = "x" then some (.ok ⟨[3], #[1.0, 2.0, 3.0], rfl⟩) else none

/-- Both uses count, and the component that they share is shown once. -/
theorem evaluate_eq_energy_twice : ∃ (g : Graph) (e : Evaluation Float) (tree : Audit.Tree Float),
    Graph.build twice Graph.alone = .ok g ∧
      evaluate g threeNumbers (feedOf Lookup.nothing) none Options.usual = .ok tree ∧
      tree.ensemble.length = 2 ∧ tree.components.length = 1 ∧
      energy e = .ok tree.total ∧ ShowsReached e tree := by
  have hlengths : ((Graph.build twice Graph.alone).bind fun g =>
      evaluate g threeNumbers (feedOf Lookup.nothing) none Options.usual).toOption.map
        (fun tree => (tree.ensemble.length, tree.components.length)) = some (2, 1) := by
    decide +kernel
  rcases hg : Graph.build twice Graph.alone with _ | g
  · rw [hg] at hlengths
    cases hlengths
  · rw [hg] at hlengths
    change (evaluate g threeNumbers (feedOf Lookup.nothing) none Options.usual).toOption.map _ = _
      at hlengths
    obtain ⟨htotal, hshows⟩ := evaluate_eq_energy hg threeNumbers (feedOf Lookup.nothing) none
      Options.usual
    rcases htree : evaluate g threeNumbers (feedOf Lookup.nothing) none Options.usual with _ | tree
    · rw [htree] at hlengths
      cases hlengths
    · rw [htree] at hlengths htotal
      obtain ⟨e, he, hreached⟩ := hshows tree htree
      rw [he] at htotal
      obtain ⟨hensemble, hcomponents⟩ := Prod.mk.inj (Option.some.inj hlengths)
      exact ⟨g, e, tree, rfl, htree, hensemble, hcomponents, htotal.symm, hreached⟩

end Energy

end EnergyGraph
