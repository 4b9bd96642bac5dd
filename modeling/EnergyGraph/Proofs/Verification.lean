-- What an audit without mismatches tells. Each level is compared with the values that it
-- stores of the level below, and no comparison asks whether the level below has these values.
-- What they are off by goes up to the total: it is that of the instances and this drift.
import EnergyGraph.Proofs.CleanRuns
import EnergyGraph.Proofs.Exact

namespace EnergyGraph.Audit

/-! ## Level by level -/

/-- All instances of the component are kept. -/
def Component.IsComplete {α : Type} (c : Component α) : Prop :=
  c.isTruncated = false ∧ c.count = c.instances.length

/-- The aggregate of the instances that are kept. -/
def Component.recomputed {α : Type} [Scalar α] (c : Component α) : Except Failure α :=
  c.aggregator.replay (c.instances.map (·.value))

/-- The sum of weights times the values that are stored with them. -/
noncomputable def storedSum (cs : List (Contribution ℝ)) : ℝ :=
  (cs.map fun m => m.weight * m.value).sum

theorem weightedSum_eq (cs : List (Contribution ℝ)) : weightedSum cs = .ok (storedSum cs) := rfl

theorem checkComponent_eq_nil {c : Component ℝ} :
    checkComponent ⟨0, 0⟩ c = .ok [] ↔ (c.IsComplete → c.recomputed = .ok c.value) := by
  unfold checkComponent
  by_cases hcomplete : c.IsComplete
  · have hkept : (c.isTruncated || c.count ≠ c.instances.length) = false := by
      simp [hcomplete.1, hcomplete.2]
    rw [if_neg (by rw [hkept]; decide), bind_eq_ok]
    simp only [hcomplete, true_implies, Exact.compareValues_eq_nil]
    constructor
    · rintro ⟨x, hx, rfl⟩
      exact hx
    · intro hx
      exact ⟨c.value, hx, rfl⟩
  · have hpartial : (c.isTruncated || c.count ≠ c.instances.length) = true := by
      by_contra h
      exact hcomplete (by simpa [Component.IsComplete] using h)
    rw [if_pos hpartial]
    simp [hcomplete]

theorem checkSum_eq_nil {level : Level} {id : String} {recorded : ℝ}
    {cs : List (Contribution ℝ)} :
    checkSum ⟨0, 0⟩ level id recorded cs = .ok [] ↔ recorded = storedSum cs := by
  unfold checkSum
  rw [weightedSum_eq]
  exact Exact.compareValues_eq_nil

/-- Checks one after the other find nothing if each of them does. -/
theorem mapM_flatten_eq_nil {β γ : Type} {f : β → Except Failure (List γ)} {xs : List β}
    {found : List (List γ)} (h : xs.mapM f = .ok found) :
    found.flatten = [] ↔ ∀ x ∈ xs, f x = .ok [] := by
  rw [List.flatten_eq_nil_iff]
  have hsteps := mapM_eq_ok.mp h
  constructor
  · intro hnil x hx
    obtain ⟨ys, hys, hfx⟩ := exists_of_mem_left hsteps hx
    rw [hfx, hnil ys hys]
  · intro hall ys hys
    obtain ⟨x, hx, hfx⟩ := exists_of_mem_right hsteps hys
    rw [hall x hx] at hfx
    cases hfx
    rfl

/-- An audit has no mismatch if every complete component has the value of its instances,
every hamiltonian that of what it stores of components, and the total that of what it stores
of hamiltonians. -/
theorem verify_eq_nil {tree : Tree ℝ} :
    verify ⟨0, 0⟩ tree = .ok [] ↔
      (∀ c ∈ tree.components, c.IsComplete → c.recomputed = .ok c.value) ∧
        (∀ h ∈ tree.hamiltonians, h.value = storedSum h.components) ∧
          tree.total = storedSum tree.ensemble := by
  unfold verify
  rw [bind_eq_ok]
  constructor
  · rintro ⟨components, hcomponents, h⟩
    obtain ⟨hamiltonians, hhamiltonians, h⟩ := bind_eq_ok.mp h
    obtain ⟨total, htotal, h⟩ := bind_eq_ok.mp h
    injection h with h
    obtain ⟨hnodes, rfl⟩ := List.append_eq_nil_iff.mp h
    obtain ⟨hc, hh⟩ := List.append_eq_nil_iff.mp hnodes
    refine ⟨fun c hmem => ?_, fun x hmem => ?_, checkSum_eq_nil.mp htotal⟩
    · exact checkComponent_eq_nil.mp ((mapM_flatten_eq_nil hcomponents).mp hc c hmem)
    · exact checkSum_eq_nil.mp ((mapM_flatten_eq_nil hhamiltonians).mp hh x hmem)
  · rintro ⟨hc, hh, ht⟩
    have hc' : ∀ c ∈ tree.components, checkComponent ⟨0, 0⟩ c = .ok [] :=
      fun c hmem => checkComponent_eq_nil.mpr (hc c hmem)
    have hh' : ∀ h ∈ tree.hamiltonians,
        checkSum ⟨0, 0⟩ .hamiltonian h.id h.value h.components = .ok [] :=
      fun h hmem => checkSum_eq_nil.mpr (hh h hmem)
    obtain ⟨components, hcomponents⟩ := mapM_total fun c hmem => ⟨[], hc' c hmem⟩
    obtain ⟨hamiltonians, hhamiltonians⟩ := mapM_total fun h hmem => ⟨[], hh' h hmem⟩
    refine ⟨components, hcomponents, ?_⟩
    rw [hhamiltonians, checkSum_eq_nil.mpr ht]
    change Except.ok (components.flatten ++ hamiltonians.flatten ++ []) = _
    rw [(mapM_flatten_eq_nil hcomponents).mpr hc', (mapM_flatten_eq_nil hhamiltonians).mpr hh']
    rfl

/-! ## From the instances to the total -/

section

variable {α : Type} [Scalar α]

def Tree.component? (tree : Tree α) (id : String) : Option (Component α) :=
  tree.components.find? fun c => c.id == id

def Tree.hamiltonian? (tree : Tree α) (id : String) : Option (Hamiltonian α) :=
  tree.hamiltonians.find? fun h => h.id == id

/-- Every id that is used is the id of a node. -/
structure Tree.Closed (tree : Tree α) : Prop where
  components : ∀ h ∈ tree.hamiltonians, ∀ m ∈ h.components, ∃ c, tree.component? m.id = some c
  hamiltonians : ∀ k ∈ tree.ensemble, ∃ h, tree.hamiltonian? k.id = some h

/-- What is stored of a node is the value that it has. -/
structure Tree.Linked (tree : Tree α) : Prop where
  components : ∀ h ∈ tree.hamiltonians, ∀ m ∈ h.components, ∀ c,
    tree.component? m.id = some c → m.value = c.value
  hamiltonians : ∀ k ∈ tree.ensemble, ∀ h, tree.hamiltonian? k.id = some h → k.value = h.value

end

/-- The sum of weights times recomputed values. -/
noncomputable def recomputedSum (valueOf : String → Except Failure ℝ)
    (cs : List (Contribution ℝ)) : Except Failure ℝ := do
  let terms ← cs.mapM fun m => do .ok (m.weight * (← valueOf m.id))
  .ok terms.sum

noncomputable def Tree.recomputedComponent (tree : Tree ℝ) (id : String) : Except Failure ℝ :=
  match tree.component? id with
  | some c => c.recomputed
  | none => Failure.refuse .unknownName

noncomputable def Tree.recomputedHamiltonian (tree : Tree ℝ) (id : String) : Except Failure ℝ :=
  match tree.hamiltonian? id with
  | some h => recomputedSum tree.recomputedComponent h.components
  | none => Failure.refuse .unknownName

/-- The total of weights and kept instances alone; no stored value counts. -/
noncomputable def Tree.recomputedTotal (tree : Tree ℝ) : Except Failure ℝ :=
  recomputedSum tree.recomputedHamiltonian tree.ensemble

/-! ## Stored values that are off -/

/-- The sum of weights times what the stored values are off by. -/
noncomputable def driftSum (driftOf : Contribution ℝ → ℝ) (cs : List (Contribution ℝ)) : ℝ :=
  (cs.map fun m => m.weight * driftOf m).sum

/-- What is stored of a component, less the value that it has. -/
noncomputable def Tree.componentDrift (tree : Tree ℝ) (m : Contribution ℝ) : ℝ :=
  match tree.component? m.id with
  | some c => m.value - c.value
  | none => 0

/-- What is stored of a hamiltonian, less its value, and what that is off by itself. -/
noncomputable def Tree.hamiltonianDrift (tree : Tree ℝ) (k : Contribution ℝ) : ℝ :=
  match tree.hamiltonian? k.id with
  | some h => k.value - h.value + driftSum tree.componentDrift h.components
  | none => 0

/-- What the total is off by, because of stored values that the nodes do not have. -/
noncomputable def Tree.drift (tree : Tree ℝ) : ℝ := driftSum tree.hamiltonianDrift tree.ensemble

theorem driftSum_eq_zero {driftOf : Contribution ℝ → ℝ} {cs : List (Contribution ℝ)}
    (h : ∀ m ∈ cs, driftOf m = 0) : driftSum driftOf cs = 0 := by
  refine List.sum_eq_zero fun x hx => ?_
  obtain ⟨m, hm, rfl⟩ := List.mem_map.mp hx
  rw [h m hm, mul_zero]

theorem storedSum_sub_driftSum (driftOf : Contribution ℝ → ℝ) (cs : List (Contribution ℝ)) :
    (cs.map fun m => m.weight * (m.value - driftOf m)).sum =
      storedSum cs - driftSum driftOf cs := by
  unfold storedSum driftSum
  induction cs with
  | nil => simp
  | cons m rest ih =>
    simp only [List.map_cons, List.sum_cons, ih]
    ring

section

variable {tree : Tree ℝ}

/-- Nothing is off where the stored values are those of the nodes. -/
theorem Tree.Linked.drift_eq_zero (hlinked : tree.Linked) : tree.drift = 0 := by
  refine driftSum_eq_zero fun k hk => ?_
  unfold Tree.hamiltonianDrift
  cases hh : tree.hamiltonian? k.id with
  | none => rfl
  | some h =>
    have hmem : h ∈ tree.hamiltonians := List.mem_of_find?_eq_some hh
    have hbelow : driftSum tree.componentDrift h.components = 0 := by
      refine driftSum_eq_zero fun m hm => ?_
      unfold Tree.componentDrift
      cases hc : tree.component? m.id with
      | none => rfl
      | some c => exact sub_eq_zero.mpr (hlinked.components h hmem m hm c hc)
    dsimp only
    rw [hbelow, hlinked.hamiltonians k hk h hh, sub_self, add_zero]

/-! ## Instances and the total -/

/-- Values that are those stored, less what these are off by, add up to the sum less the drift. -/
theorem recomputedSum_eq {valueOf : String → Except Failure ℝ} {driftOf : Contribution ℝ → ℝ}
    {cs : List (Contribution ℝ)} (h : ∀ m ∈ cs, valueOf m.id = .ok (m.value - driftOf m)) :
    recomputedSum valueOf cs = .ok (storedSum cs - driftSum driftOf cs) := by
  have hterms : cs.mapM (fun m => do .ok (m.weight * (← valueOf m.id))) =
      (.ok (cs.map fun m => m.weight * (m.value - driftOf m)) : Except Failure (List ℝ)) := by
    rw [mapM_eq_ok, List.forall₂_map_right_iff, List.forall₂_same]
    intro m hm
    rw [h m hm]
    rfl
  unfold recomputedSum
  rw [hterms, ← storedSum_sub_driftSum]
  rfl

theorem recomputedComponent_eq {m : Contribution ℝ} {c : Component ℝ}
    (hcomplete : ∀ c ∈ tree.components, c.IsComplete) (hverified : verify ⟨0, 0⟩ tree = .ok [])
    (hc : tree.component? m.id = some c) :
    tree.recomputedComponent m.id = .ok (m.value - tree.componentDrift m) := by
  have hmem : c ∈ tree.components := List.mem_of_find?_eq_some hc
  unfold Tree.recomputedComponent Tree.componentDrift
  rw [hc]
  dsimp only
  rw [(verify_eq_nil.mp hverified).1 c hmem (hcomplete c hmem), sub_sub_cancel]

theorem recomputedHamiltonian_eq {k : Contribution ℝ} {h : Hamiltonian ℝ}
    (hcomplete : ∀ c ∈ tree.components, c.IsComplete) (hclosed : tree.Closed)
    (hverified : verify ⟨0, 0⟩ tree = .ok []) (hh : tree.hamiltonian? k.id = some h) :
    tree.recomputedHamiltonian k.id = .ok (k.value - tree.hamiltonianDrift k) := by
  have hmem : h ∈ tree.hamiltonians := List.mem_of_find?_eq_some hh
  have hvalues : ∀ m ∈ h.components,
      tree.recomputedComponent m.id = .ok (m.value - tree.componentDrift m) := by
    intro m hm
    obtain ⟨c, hc⟩ := hclosed.components h hmem m hm
    exact recomputedComponent_eq hcomplete hverified hc
  unfold Tree.recomputedHamiltonian Tree.hamiltonianDrift
  rw [hh]
  dsimp only
  rw [recomputedSum_eq hvalues, ← (verify_eq_nil.mp hverified).2.1 h hmem, ← sub_sub,
    sub_sub_cancel]

/-- An audit without mismatches has the total of its instances, but for what its stored values are
off by: there is no comparison of them with the nodes. So the two totals are the same exactly if
that adds up to nothing, and they are where each stored value is that of its node. -/
theorem verified_total (tree : Tree ℝ) (hcomplete : ∀ c ∈ tree.components, c.IsComplete)
    (hclosed : tree.Closed) (hverified : verify ⟨0, 0⟩ tree = .ok []) :
    tree.recomputedTotal = .ok (tree.total - tree.drift) ∧
      (tree.recomputedTotal = .ok tree.total ↔ tree.drift = 0) ∧
        (tree.Linked → tree.recomputedTotal = .ok tree.total) := by
  have hvalues : ∀ k ∈ tree.ensemble,
      tree.recomputedHamiltonian k.id = .ok (k.value - tree.hamiltonianDrift k) := by
    intro k hk
    obtain ⟨h, hh⟩ := hclosed.hamiltonians k hk
    exact recomputedHamiltonian_eq hcomplete hclosed hverified hh
  have htotal : tree.recomputedTotal = .ok (tree.total - tree.drift) := by
    unfold Tree.recomputedTotal
    rw [recomputedSum_eq hvalues, ← (verify_eq_nil.mp hverified).2.2]
    rfl
  have hexact : tree.recomputedTotal = .ok tree.total ↔ tree.drift = 0 := by
    rw [htotal, Except.ok.injEq, sub_eq_self]
  exact ⟨htotal, hexact, fun hlinked => hexact.mpr hlinked.drift_eq_zero⟩

end

/-! ### A hamiltonian that is stored with another value -/

/-- A tree with one instance, of which the component and the hamiltonian have the value. The
ensemble stores another value of the hamiltonian. -/
noncomputable def treeStoring (stored : ℝ) : Tree ℝ where
  total := stored
  ensemble := [⟨"H", 1, stored⟩]
  hamiltonians := [⟨"H", .subsystem, 3, [⟨"c", 1, 3⟩], []⟩]
  components := [⟨"c", 3, ⟨.identity, 1, 0⟩, "t", "i", 1, [⟨[], 3, none⟩], false⟩]

theorem treeStoring_isComplete (stored : ℝ) :
    ∀ c ∈ (treeStoring stored).components, c.IsComplete := by
  intro c hc
  rw [List.mem_singleton.mp hc]
  exact ⟨rfl, rfl⟩

theorem treeStoring_closed (stored : ℝ) : (treeStoring stored).Closed where
  components := by
    intro h hh m hm
    rw [List.mem_singleton.mp hh] at hm
    rw [List.mem_singleton.mp hm]
    exact ⟨_, rfl⟩
  hamiltonians := by
    intro k hk
    rw [List.mem_singleton.mp hk]
    exact ⟨_, rfl⟩

theorem treeStoring_verified (stored : ℝ) : verify ⟨0, 0⟩ (treeStoring stored) = .ok [] := by
  refine verify_eq_nil.mpr ⟨fun c hc _ => ?_, fun h hh => ?_, ?_⟩
  · rw [List.mem_singleton.mp hc]
    rfl
  · rw [List.mem_singleton.mp hh]
    simp [storedSum]
  · simp [treeStoring, storedSum]

theorem treeStoring_linked : (treeStoring 3).Linked where
  components := by
    intro h hh m hm c hc
    rw [List.mem_singleton.mp hh] at hm
    rw [List.mem_singleton.mp hm] at hc ⊢
    cases hc
    rfl
  hamiltonians := by
    intro k hk h hh
    rw [List.mem_singleton.mp hk] at hh ⊢
    cases hh
    rfl

theorem treeStoring_drift (stored : ℝ) : (treeStoring stored).drift = stored - 3 := by
  change [(1 : ℝ) * (stored - 3 + [(1 : ℝ) * (3 - 3)].sum)].sum = stored - 3
  simp

/-- A hamiltonian of 3 that is stored as 5 goes unnoticed, and the total of 5 is off by 2. Stored
as 3 it is not. -/
theorem verified_total_stored :
    verify ⟨0, 0⟩ (treeStoring 5) = .ok [] ∧
      (treeStoring 5).recomputedTotal = .ok (5 - 2) ∧
        (treeStoring 5).recomputedTotal ≠ .ok (treeStoring 5).total ∧
          (treeStoring 3).recomputedTotal = .ok 3 := by
  obtain ⟨htotal, hexact, -⟩ := verified_total (treeStoring 5) (treeStoring_isComplete 5)
    (treeStoring_closed 5) (treeStoring_verified 5)
  obtain ⟨-, -, hlinked⟩ := verified_total (treeStoring 3) (treeStoring_isComplete 3)
    (treeStoring_closed 3) (treeStoring_verified 3)
  have hdrift : (treeStoring 5).drift = 2 := by
    rw [treeStoring_drift]
    norm_num
  rw [hdrift] at htotal hexact
  exact ⟨treeStoring_verified 5, htotal, fun hsame => two_ne_zero (hexact.mp hsame),
    hlinked treeStoring_linked⟩

end EnergyGraph.Audit
