-- An evaluation leaves nothing to find. Whatever it keeps of a component goes with the value
-- that it has aggregated, and whatever it stores of a hamiltonian adds up to its value. In
-- exact arithmetic the replay and the sum of a check are those of the evaluation.
import EnergyGraph.Proofs.ReplayedAggregates
import EnergyGraph.Proofs.Memoization
import EnergyGraph.Proofs.Verification

namespace EnergyGraph

/-! ## What is recorded -/

namespace Audit

variable {α : Type} [Scalar α]

/-- The value of a component is the aggregate of its instances, of which the first are kept. -/
def Component.Recorded (cap : Nat) (c : Component α) : Prop :=
  ∃ found : List (Instance α), c.aggregator.aggregate (found.map (·.value)) = .ok c.value ∧
    c.count = found.length ∧ c.instances = found.take cap ∧
    c.isTruncated = decide (cap < found.length)

/-- The value of a hamiltonian is the sum of what it stores, from left to right. -/
def Hamiltonian.Summed (h : Hamiltonian α) : Prop := h.value = Energy.sumOf h.components

/-- Every value of a tree is the one of the level below. -/
structure Tree.Recorded (cap : Nat) (tree : Tree α) : Prop where
  components : ∀ c ∈ tree.components, c.Recorded cap
  hamiltonians : ∀ h ∈ tree.hamiltonians, h.Summed
  total : tree.total = Energy.sumOf tree.ensemble

/-- Where no instance is left out, all of them are kept. -/
theorem Component.Recorded.aggregate_kept {cap : Nat} {c : Component α} (h : c.Recorded cap)
    (hcomplete : c.isTruncated = false) :
    c.aggregator.aggregate (c.instances.map (·.value)) = .ok c.value := by
  obtain ⟨found, hvalue, -, hkept, htruncated⟩ := h
  rw [hcomplete] at htruncated
  have hcap : found.length ≤ cap := Nat.le_of_not_lt (of_decide_eq_false htruncated.symm)
  rwa [hkept, List.take_of_length_le hcap]

end Audit

namespace Energy

variable {α : Type} [Scalar α] {e : Evaluation α} {cap : Nat}

theorem recorded_of_componentAt {place : Nat} {c : Audit.Component α}
    (h : componentAt e place = .ok c) : c.Recorded e.cap := by
  obtain ⟨_, _, _, found, _, -, -, hvalue, rfl⟩ := componentAt_eq_ok h
  exact ⟨found, hvalue, rfl, rfl, rfl⟩

/-! ## What an evaluation leaves behind -/

section

variable {β γ ι : Type} {Q : β → Prop} {R : γ → Prop}

/-- All audits that are kept are recorded. -/
def AllRecorded (cap : Nat) (kept : Kept α) : Prop := ∀ entry ∈ kept, entry.2.Recorded cap

/-- A part of an evaluation that keeps recorded audits only, and what holds of its results. -/
def Leaves (cap : Nat) (m : Keeping α β) (Q : β → Prop) : Prop :=
  ∀ kept r, AllRecorded cap kept → m.run kept = .ok r → Q r.1 ∧ AllRecorded cap r.2

theorem leaves_pure {b : β} (h : Q b) : Leaves cap (pure b : Keeping α β) Q := by
  intro kept r hkept hr
  cases hr
  exact ⟨h, hkept⟩

theorem leaves_throw (f : Failure) : Leaves cap (throw f : Keeping α β) Q :=
  fun _ _ _ h => nomatch h

theorem leaves_lift (x : Except Failure β) : Leaves cap (liftM x : Keeping α β) fun _ => True := by
  intro kept r hkept hr
  cases x with
  | error err => cases hr
  | ok b =>
    cases hr
    exact ⟨trivial, hkept⟩

theorem leaves_bind {m : Keeping α β} {f : β → Keeping α γ} (hm : Leaves cap m Q)
    (hf : ∀ b, Q b → Leaves cap (f b) R) : Leaves cap (m >>= f) R := by
  intro kept r hkept hr
  rw [StateT.run_bind] at hr
  obtain ⟨⟨b, kept⟩, hb, hr⟩ := bind_eq_ok.mp hr
  obtain ⟨hQ, hkept⟩ := hm _ _ hkept hb
  exact hf b hQ kept r hkept hr

theorem leaves_mapM {f : ι → Keeping α β} {xs : List ι}
    (h : ∀ x ∈ xs, Leaves cap (f x) fun _ => True) : Leaves cap (xs.mapM f) fun _ => True := by
  induction xs with
  | nil => exact leaves_pure trivial
  | cons x xs ih =>
    rw [List.mapM_cons]
    refine leaves_bind (h x List.mem_cons_self) fun b _ => ?_
    exact leaves_bind (ih fun y hy => h y (List.mem_cons_of_mem x hy)) fun bs _ =>
      leaves_pure trivial

theorem leaves_foldlM {f : β → ι → Keeping α β} {xs : List ι} {b : β} (hb : Q b)
    (h : ∀ x ∈ xs, ∀ b, Q b → Leaves cap (f b x) Q) : Leaves cap (xs.foldlM f b) Q := by
  induction xs generalizing b with
  | nil => exact leaves_pure hb
  | cons x xs ih =>
    rw [List.foldlM_cons]
    refine leaves_bind (h x List.mem_cons_self b hb) fun b hb => ?_
    exact ih hb fun y hy => h y (List.mem_cons_of_mem x hy)

end

theorem leaves_component (place : Nat) : Leaves e.cap (component e place) fun _ => True := by
  intro kept r hkept hr
  rw [run_component] at hr
  cases hlookup : kept.lookup place with
  | some audit =>
    rw [hlookup] at hr
    cases hr
    exact ⟨trivial, hkept⟩
  | none =>
    rw [hlookup] at hr
    obtain ⟨audit, haudit, rfl⟩ := map_eq_ok.mp hr
    refine ⟨trivial, fun entry hentry => ?_⟩
    rcases List.mem_append.mp hentry with hold | hnew
    · exact hkept entry hold
    · rw [List.mem_singleton.mp hnew]
      exact recorded_of_componentAt haudit

theorem leaves_contributions (h : Graph.HamiltonianNode) :
    Leaves e.cap (contributions e h) fun _ => True := by
  rw [contributions_eq]
  refine leaves_mapM fun use _ => ?_
  unfold contribution
  refine leaves_bind (leaves_lift _) fun weight _ => ?_
  exact leaves_bind (leaves_component use.1.index) fun audit _ => leaves_pure trivial

theorem leaves_evalHamiltonian (h : Graph.HamiltonianNode) :
    Leaves e.cap (evalHamiltonian e h) Audit.Hamiltonian.Summed := by
  unfold evalHamiltonian
  exact leaves_bind (leaves_contributions h) fun cs _ => leaves_pure rfl

/-- Hamiltonians that are kept add up, and so does a new one. -/
theorem leaves_keptHamiltonian {before : List (Audit.Hamiltonian α)}
    (hbefore : ∀ h ∈ before, h.Summed) (h : Graph.HamiltonianNode) :
    Leaves e.cap (keptHamiltonian e before h) fun r => ∀ h ∈ r.2, h.Summed := by
  unfold keptHamiltonian
  cases before.find? fun x => x.id == h.id with
  | some audit => exact leaves_pure hbefore
  | none =>
    refine leaves_bind (leaves_evalHamiltonian h) fun audit haudit => leaves_pure ?_
    intro x hx
    rcases List.mem_append.mp hx with hold | hnew
    · exact hbefore x hold
    · rw [List.mem_singleton.mp hnew]
      exact haudit

theorem leaves_evalUse {before : List (Audit.Hamiltonian α)} (hbefore : ∀ h ∈ before, h.Summed)
    (use : Graph.WeightedRef) (place : Nat) :
    Leaves e.cap (evalUse e before use place) fun r => ∀ h ∈ r.1, h.Summed := by
  cases hfound : e.graph.hamiltonians[use.index]? with
  | none =>
    unfold evalUse
    rw [hfound]
    exact leaves_throw _
  | some h =>
    rw [evalUse_eq hfound]
    refine leaves_bind (leaves_keptHamiltonian hbefore h) fun r hr => ?_
    exact leaves_bind (leaves_lift _) fun weight _ => leaves_pure hr

theorem leaves_evalEnsemble : Leaves e.cap (evalEnsemble e) fun r => ∀ h ∈ r.1, h.Summed := by
  unfold evalEnsemble
  refine leaves_foldlM (List.forall_mem_nil _) fun use _ acc hacc => ?_
  exact leaves_bind (leaves_evalUse hacc use.1 use.2) fun r hr => leaves_pure hr

/-- Every value of an evaluation is the one of the level below. -/
theorem recorded_of_run {tree : Audit.Tree α} (h : run e = .ok tree) : tree.Recorded e.cap := by
  unfold run at h
  obtain ⟨⟨⟨hs, ensemble⟩, kept⟩, hevaluated, h⟩ := bind_eq_ok.mp h
  obtain ⟨hsummed, hkept⟩ := leaves_evalEnsemble [] _ (List.forall_mem_nil _) hevaluated
  cases h
  refine ⟨?_, hsummed, rfl⟩
  intro c hc
  obtain ⟨entry, hentry, rfl⟩ := List.mem_map.mp hc
  exact hkept entry ((List.mergeSort_perm kept _).mem_iff.mp hentry)

theorem recorded_of_evaluate {g : Graph} {a : Assignment α} {data : DataFeed α}
    {registry : Option (Registry α)} {o : Options} {tree : Audit.Tree α}
    (h : evaluate g a data registry o = .ok tree) : ∃ cap, tree.Recorded cap := by
  rw [evaluate_eq] at h
  obtain ⟨e, -, h⟩ := bind_eq_ok.mp h
  exact ⟨e.cap, recorded_of_run h⟩

end Energy

/-! ## Exact checks -/

namespace Audit

variable {t : Tolerance EReal} {cap : Nat}

theorem checkComponent_recorded (hr : 0 ≤ t.relative) (ha : 0 ≤ t.absolute) {c : Component EReal}
    (h : c.Recorded cap) : checkComponent t c = .ok [] := by
  unfold checkComponent
  split
  · rfl
  · rename_i hkept
    have hcomplete : c.isTruncated = false := by
      by_contra htruncated
      exact hkept (by simp [htruncated])
    rw [Aggregator.replay_of_aggregate (h.aggregate_kept hcomplete)]
    exact Extended.compareValues_self hr ha .component c.id c.value

theorem checkSum_recorded (hr : 0 ≤ t.relative) (ha : 0 ≤ t.absolute) (level : Level) (id : String)
    {recorded : EReal} {cs : List (Contribution EReal)} (h : recorded = Energy.sumOf cs) :
    checkSum t level id recorded cs = .ok [] := by
  have hsum : weightedSum cs = .ok recorded := by
    rw [h, Energy.sumOf, Extended.sumOf_eq]
    rfl
  unfold checkSum
  rw [hsum]
  exact Extended.compareValues_self hr ha level id recorded

/-- Checks that find nothing one after the other find nothing. -/
theorem mapM_nil {β γ : Type} {f : β → Except Failure (List γ)} {xs : List β}
    (h : ∀ x ∈ xs, f x = .ok []) : ∃ found, xs.mapM f = .ok found ∧ found.flatten = [] := by
  obtain ⟨found, hfound⟩ := mapM_total fun x hx => ⟨[], h x hx⟩
  exact ⟨found, hfound, (mapM_flatten_eq_nil hfound).mpr h⟩

theorem verify_recorded (hr : 0 ≤ t.relative) (ha : 0 ≤ t.absolute) {tree : Tree EReal}
    (h : tree.Recorded cap) : verify t tree = .ok [] := by
  obtain ⟨components, hcomponents, hnone⟩ :=
    mapM_nil fun c hc => checkComponent_recorded hr ha (h.components c hc)
  obtain ⟨hamiltonians, hhamiltonians, hnone'⟩ :=
    mapM_nil fun x hx => checkSum_recorded hr ha .hamiltonian x.id (h.hamiltonians x hx)
  unfold verify
  rw [hcomponents, hhamiltonians, checkSum_recorded hr ha .ensemble "total" h.total]
  change Except.ok (components.flatten ++ hamiltonians.flatten ++ []) = .ok []
  rw [hnone, hnone']
  rfl

end Audit

namespace Energy

/-- In exact arithmetic every audit of an evaluation is without mismatches, whatever is
evaluated, however many instances are kept, and however tight the tolerances are. -/
theorem evaluate_verifies (g : Graph) (a : Assignment EReal) (data : DataFeed EReal)
    (registry : Option (Registry EReal)) (o : Options) (t : Audit.Tolerance EReal)
    (hr : 0 ≤ t.relative) (ha : 0 ≤ t.absolute) (tree : Audit.Tree EReal)
    (h : evaluate g a data registry o = .ok tree) : Audit.verify t tree = .ok [] := by
  obtain ⟨cap, hrecorded⟩ := recorded_of_evaluate h
  exact Audit.verify_recorded hr ha hrecorded

/-- The logarithms of three numbers, counted twice. -/
def logProduct : Graph where
  name := "log product"
  version := "1.0.0"
  base := 0
  parameters := []
  vars := [⟨"x", .continuous, [3], .number (-10.0), .number 10.0⟩]
  dataNames := []
  terms := [⟨"value", .analytic, some ⟨"x[i]", .ref "x" [.symbol "i" ⟨2, 3⟩] ⟨0, 4⟩, .unspecified⟩,
    none, [], []⟩]
  interactions := [⟨"all", ["i"], .ranges [⟨0, 2⟩], 0⟩]
  components := [⟨"product", 0, 0, .ofKind .logprod, ["i"], []⟩]
  hamiltonians := [⟨"H", .subsystem, [⟨0, .ofNumber (.int 1) .unspecified⟩], []⟩]
  ensemble := [⟨0, .ofNumber (.int 2) .unspecified⟩]

noncomputable def threeReals : Assignment EReal := fun name =>
  if name = "x" then
    some (.ok ⟨[3], #[Real.toEReal (3 : ℕ), Real.toEReal (1 : ℕ), Real.toEReal (2 : ℕ)], rfl⟩)
  else none

/-- All three instances are there, so that their aggregate is compared, without tolerances. -/
theorem evaluate_verifies_logProduct : ∃ tree : Audit.Tree EReal,
    evaluate logProduct threeReals (fun _ => Failure.refuse .unknownName) none .usual = .ok tree ∧
      tree.components.map (fun c => (c.isTruncated, c.instances.length)) = [(false, 3)] ∧
      Audit.verify ⟨0, 0⟩ tree = .ok [] := by
  have hkept : ((evaluate logProduct threeReals (fun _ => Failure.refuse .unknownName) none
      .usual).toOption.map fun tree => tree.components.map fun c =>
        (c.isTruncated, c.instances.length)) = some [(false, 3)] := by
    decide +kernel
  rcases htree : evaluate logProduct threeReals (fun _ => Failure.refuse .unknownName) none
    .usual with e | tree
  · rw [htree] at hkept
    cases hkept
  · rw [htree] at hkept
    exact ⟨tree, rfl, Option.some.inj hkept, evaluate_verifies logProduct threeReals _ none .usual
      ⟨0, 0⟩ le_rfl le_rfl tree htree⟩

end Energy

end EnergyGraph
