-- The cap of an audit counts for its records and for nothing else. Two evaluations that differ
-- in their cap go side by side: whatever one of them keeps, the other one keeps with other
-- records, and no value and no failure is made of a record. Under any cap a component counts its
-- whole domain, and shows the first of its instances.
import EnergyGraph.Proofs.Enumeration
import EnergyGraph.Proofs.Memoization
import Mathlib.Algebra.GroupWithZero.Nat

namespace EnergyGraph

/-! ## Records left out -/

namespace Audit

variable {α : Type}

/-- An audit of a component without its instances. -/
def Component.withoutRecords (c : Component α) : Component α :=
  { c with instances := [], isTruncated := false }

def Tree.withoutRecords (t : Tree α) : Tree α :=
  { t with components := t.components.map Component.withoutRecords }

/-- An audit counts some instances, and keeps the first ones. -/
structure Component.Records (cap : Nat) (found : List (Instance α)) (c : Component α) : Prop where
  count_eq : c.count = found.length
  instances_eq : c.instances = found.take (min cap c.count)
  isTruncated_iff : c.isTruncated = true ↔ cap < c.count

end Audit

namespace Interaction

/-- The index tuples that a component lists, in order: groups with their members, and a matrix
with its rows. Of ranges only the free ones count. -/
def indices (i : Interaction) (base : Int) (free : List String) :
    Except Failure (List (List Int)) :=
  match i.domain with
  | .groups members => .ok members
  | .factor matrix => .ok ((List.range (matrix.shape.headD 0)).map fun (row : Nat) => [base + row])
  | _ => i.tuples free

end Interaction

/-- How many tuples some ranges have. -/
theorem Range.tupleCount_eq_prod (rs : List Range) : tupleCount rs = (rs.map size).prod := by
  have hfold (rs : List Range) (n : Nat) :
      rs.foldl (fun n r => n * r.size) n = n * (rs.map size).prod := by
    induction rs generalizing n with
    | nil => simp
    | cons r rest ih => rw [List.foldl_cons, ih, List.map_cons, List.prod_cons, Nat.mul_assoc]
  rw [tupleCount, hfold, Nat.one_mul]

theorem Range.length_tuples (rs : List Range) : (tuples rs).length = tupleCount rs := by
  rw [tupleCount_eq_prod]
  induction rs with
  | nil => rfl
  | cons r rest ih =>
    rw [tuples, List.length_flatMap]
    simp only [List.length_map, ih, List.map_const', List.sum_replicate_nat, length_values,
      List.map_cons, List.prod_cons]

namespace Energy

variable {α : Type} [Scalar α] {e : Evaluation α}

/-! ## Two caps -/

/-- The same evaluation under another cap. -/
def Evaluation.withCap (e : Evaluation α) (cap : Nat) : Evaluation α := { e with cap }

/-- Audits that differ at most in their records. -/
def SameAudit (a b : Audit.Component α) : Prop := a.withoutRecords = b.withoutRecords

omit [Scalar α] in
theorem SameAudit.id_eq {a b : Audit.Component α} (h : SameAudit a b) : a.id = b.id := by
  have hid := congrArg Audit.Component.id h
  exact hid

omit [Scalar α] in
theorem SameAudit.value_eq {a b : Audit.Component α} (h : SameAudit a b) : a.value = b.value := by
  have hvalue := congrArg Audit.Component.value h
  exact hvalue

/-- What is kept of two evaluations are the same audits up to their records. -/
def SameKept : Kept α → Kept α → Prop :=
  List.Forall₂ fun a b => a.1 = b.1 ∧ SameAudit a.2 b.2

/-- Two evaluations that have kept the same audits go on alike. -/
def Alike {β γ : Type} (R : β → γ → Prop) (x : Keeping α β) (y : Keeping α γ) : Prop :=
  ∀ kept kept', SameKept kept kept' →
    Agree (fun r s => R r.1 s.1 ∧ SameKept r.2 s.2) (x.run kept) (y.run kept')

namespace Alike

variable {β γ β' γ' ι : Type} {R : β → γ → Prop} {S : β' → γ' → Prop}

omit [Scalar α]

theorem pure {b : β} {c : γ} (h : R b c) : Alike (α := α) R (pure b) (pure c) :=
  fun _ _ hkept => .ok ⟨h, hkept⟩

/-- A step that neither looks at what is kept nor keeps anything. -/
theorem lift (x : Except Failure β) : Alike (α := α) Eq (liftM x) (liftM x) := by
  intro kept kept' hkept
  cases x with
  | ok b => exact .ok ⟨rfl, hkept⟩
  | error err => exact .error err

theorem bind {x : Keeping α β} {y : Keeping α γ} {f : β → Keeping α β'} {g : γ → Keeping α γ'}
    (h : Alike R x y) (hrest : ∀ b c, R b c → Alike S (f b) (g c)) :
    Alike S (x >>= f) (y >>= g) := by
  intro kept kept' hkept
  rw [StateT.run_bind, StateT.run_bind]
  refine (h kept kept' hkept).bind ?_
  rintro ⟨b, kept⟩ ⟨c, kept'⟩ ⟨hrelated, hkept⟩
  exact hrest b c hrelated kept kept' hkept

theorem mapM {f g : ι → Keeping α β} (h : ∀ x, Alike Eq (f x) (g x)) (xs : List ι) :
    Alike Eq (xs.mapM f) (xs.mapM g) := by
  induction xs with
  | nil => exact pure rfl
  | cons x xs ih =>
    rw [List.mapM_cons, List.mapM_cons]
    refine (h x).bind ?_
    rintro b _ rfl
    refine ih.bind ?_
    rintro bs _ rfl
    exact pure rfl

theorem foldlM {f g : β → ι → Keeping α β} (h : ∀ b x, Alike Eq (f b x) (g b x)) (xs : List ι)
    (b : β) : Alike Eq (xs.foldlM f b) (xs.foldlM g b) := by
  induction xs generalizing b with
  | nil => exact pure rfl
  | cons x xs ih =>
    rw [List.foldlM_cons, List.foldlM_cons]
    refine (h b x).bind ?_
    rintro b _ rfl
    exact ih b

end Alike

theorem evalComponent_withCap (e : Evaluation α) (cap : Nat) (n : Graph.ComponentNode)
    (t : Graph.TermNode) (i : Interaction) :
    Agree SameAudit (evalComponent e n t i) (evalComponent (e.withCap cap) n t i) := by
  unfold evalComponent
  change Agree _ (instances e n t i >>= _) (instances e n t i >>= _)
  cases instances e n t i with
  | error err => exact .error err
  | ok found =>
    change Agree _ (aggregateOf _ _ _ _ >>= _) (aggregateOf _ _ _ _ >>= _)
    cases aggregateOf ⟨n.id, t.id⟩ i (n.aggregator.map Scalar.ofFloat)
      (found.map fun x => x.value) with
    | error err => exact .error err
    | ok value => exact .ok rfl

theorem componentAt_withCap (e : Evaluation α) (cap : Nat) (place : Nat) :
    Agree SameAudit (componentAt e place) (componentAt (e.withCap cap) place) := by
  have hgraph : (e.withCap cap).graph = e.graph := rfl
  rw [componentAt_eq, componentAt_eq, hgraph]
  rcases nodesAt e.graph place with _ | ⟨n, t, i⟩
  · exact .error _
  · exact evalComponent_withCap e cap n t i

omit [Scalar α] in
theorem lookup_sameKept {kept kept' : Kept α} (h : SameKept kept kept') (place : Nat) :
    Option.Rel SameAudit (kept.lookup place) (kept'.lookup place) := by
  induction h with
  | nil => exact .none
  | @cons a b kept kept' hab _ ih =>
    rw [List.lookup_cons, List.lookup_cons, hab.1]
    cases place == b.1 with
    | true => exact .some hab.2
    | false => exact ih

theorem alike_component (e : Evaluation α) (cap : Nat) (place : Nat) :
    Alike SameAudit (component e place) (component (e.withCap cap) place) := by
  intro kept kept' hkept
  rw [run_component, run_component]
  have hlookup := lookup_sameKept hkept place
  generalize kept.lookup place = found at hlookup ⊢
  generalize kept'.lookup place = found' at hlookup ⊢
  cases hlookup with
  | some hsame => exact .ok ⟨hsame, hkept⟩
  | none =>
    dsimp only
    have haudit := componentAt_withCap e cap place
    generalize componentAt e place = audit at haudit ⊢
    generalize componentAt (e.withCap cap) place = audit' at haudit ⊢
    cases haudit with
    | error err => exact .error err
    | ok hsame => exact .ok ⟨hsame, List.rel_append hkept (.cons ⟨rfl, hsame⟩ .nil)⟩

/-- Of the audit of a component only the id and the value go into a sum. -/
theorem alike_contribution (e : Evaluation α) (cap : Nat) (id : String)
    (use : Graph.WeightedRef × Nat) :
    Alike Eq (contribution e id use) (contribution (e.withCap cap) id use) := by
  unfold contribution
  refine (Alike.lift _).bind ?_
  rintro weight _ rfl
  refine (alike_component e cap use.1.index).bind fun a b hsame => Alike.pure ?_
  rw [hsame.id_eq, hsame.value_eq]

theorem alike_evalHamiltonian (e : Evaluation α) (cap : Nat) (h : Graph.HamiltonianNode) :
    Alike Eq (evalHamiltonian e h) (evalHamiltonian (e.withCap cap) h) := by
  unfold evalHamiltonian
  rw [contributions_eq, contributions_eq]
  refine (Alike.mapM (alike_contribution e cap h.id) h.components.zipIdx).bind ?_
  rintro cs _ rfl
  exact Alike.pure rfl

theorem alike_keptHamiltonian (e : Evaluation α) (cap : Nat) (before : List (Audit.Hamiltonian α))
    (h : Graph.HamiltonianNode) :
    Alike Eq (keptHamiltonian e before h) (keptHamiltonian (e.withCap cap) before h) := by
  unfold keptHamiltonian
  cases before.find? fun x => x.id == h.id with
  | some audit => exact Alike.pure rfl
  | none =>
    refine (alike_evalHamiltonian e cap h).bind ?_
    rintro audit _ rfl
    exact Alike.pure rfl

theorem alike_evalUse (e : Evaluation α) (cap : Nat) (before : List (Audit.Hamiltonian α))
    (use : Graph.WeightedRef) (place : Nat) :
    Alike Eq (evalUse e before use place) (evalUse (e.withCap cap) before use place) := by
  cases hh : e.graph.hamiltonians[use.index]? with
  | none =>
    have hnone : (e.withCap cap).graph.hamiltonians[use.index]? = none := hh
    unfold evalUse
    rw [hh, hnone]
    exact fun _ _ _ => .error _
  | some h =>
    have hsome : (e.withCap cap).graph.hamiltonians[use.index]? = some h := hh
    rw [evalUse_eq hh, evalUse_eq hsome]
    refine (alike_keptHamiltonian e cap before h).bind ?_
    rintro ⟨audit, all⟩ _ rfl
    refine (Alike.lift _).bind ?_
    rintro weight _ rfl
    exact Alike.pure rfl

theorem alike_evalEnsemble (e : Evaluation α) (cap : Nat) :
    Alike Eq (evalEnsemble e) (evalEnsemble (e.withCap cap)) := by
  refine Alike.foldlM ?_ e.graph.ensemble.zipIdx ([], [])
  rintro ⟨hs, cs⟩ ⟨use, place⟩
  refine (alike_evalUse e cap hs use place).bind ?_
  rintro ⟨hs, c⟩ _ rfl
  exact Alike.pure rfl

omit [Scalar α] in
theorem SameKept.ordered {kept kept' : Kept α} (h : SameKept kept kept') :
    ((kept.mergeSort fun a b => a.1 ≤ b.1).map (·.2)).map Audit.Component.withoutRecords =
      ((kept'.mergeSort fun a b => a.1 ≤ b.1).map (·.2)).map Audit.Component.withoutRecords := by
  let erase : Nat × Audit.Component α → Nat × Audit.Component α := Prod.map id (·.withoutRecords)
  have hsorted (kept : Kept α) : (kept.mergeSort fun a b => a.1 ≤ b.1).map erase =
      (kept.map erase).mergeSort fun a b => a.1 ≤ b.1 :=
    List.map_mergeSort fun _ _ _ _ => rfl
  have hsame : kept.map erase = kept'.map erase := by
    rw [← List.forall₂_eq_eq_eq, List.forall₂_map_left_iff, List.forall₂_map_right_iff]
    exact h.imp fun a b hab => Prod.ext hab.1 hab.2
  have hall : (kept.mergeSort fun a b => a.1 ≤ b.1).map erase =
      (kept'.mergeSort fun a b => a.1 ≤ b.1).map erase := by
    rw [hsorted, hsorted, hsame]
  have hseconds := congrArg (List.map Prod.snd) hall
  rw [List.map_map, List.map_map] at hseconds
  rw [List.map_map, List.map_map]
  exact hseconds

theorem run_withCap (e : Evaluation α) (cap : Nat) :
    (run (e.withCap cap)).map Audit.Tree.withoutRecords =
      (run e).map Audit.Tree.withoutRecords := by
  have hensemble := alike_evalEnsemble e cap [] [] .nil
  unfold run
  generalize (evalEnsemble e).run [] = result at hensemble ⊢
  generalize (evalEnsemble (e.withCap cap)).run [] = result' at hensemble ⊢
  cases hensemble with
  | error err => rfl
  | @ok b c related =>
    obtain ⟨⟨hs, cs⟩, kept⟩ := b
    obtain ⟨_, kept'⟩ := c
    obtain ⟨rfl, hkept⟩ := related
    change Except.ok (Audit.Tree.mk _ _ _ _) = Except.ok (Audit.Tree.mk _ _ _ _)
    rw [hkept.ordered]

theorem prepare_withCap (g : Graph) (a : Assignment α) (data : DataFeed α)
    (registry : Option (Registry α)) (o : Options) (cap : Nat) :
    prepare g a data registry { o with instanceCap := cap } =
      (prepare g a data registry o).map (·.withCap cap) := by
  unfold prepare
  cases normalize g a with
  | error err => rfl
  | ok vars =>
    change (if o.checkBounds = true then _ else _) =
      Except.map _ (if o.checkBounds = true then _ else _)
    split
    · cases checkVariables g vars with
      | error err => rfl
      | ok _ => cases loadData g data <;> rfl
    · cases loadData g data <;> rfl

/-- Under another cap an evaluation fails with the same failure, or it differs in its records. -/
theorem evaluate_withoutRecords (g : Graph) (a : Assignment α) (data : DataFeed α)
    (registry : Option (Registry α)) (o : Options) (cap : Nat) :
    (evaluate g a data registry { o with instanceCap := cap }).map Audit.Tree.withoutRecords =
      (evaluate g a data registry o).map Audit.Tree.withoutRecords := by
  rw [evaluate_eq, evaluate_eq, prepare_withCap]
  cases prepare g a data registry o with
  | error err => rfl
  | ok e => exact run_withCap e cap

/-! ## The domain of a component -/

section

variable {n : Graph.ComponentNode} {t : Graph.TermNode} {i : Interaction}
  {found : List (Audit.Instance α)}

theorem index_pointInstances {s : Site} {ps : List Point}
    (h : pointInstances e s t ps = .ok found) : found.map (·.index) = ps.map (·.index) := by
  rw [← List.forall₂_eq_eq_eq, List.forall₂_map_left_iff, List.forall₂_map_right_iff]
  refine (mapM_eq_ok.mp h).flip.imp fun x p hx => ?_
  obtain ⟨value, -, hx⟩ := bind_eq_ok.mp hx
  cases hx
  rfl

/-- Only ranges have a choice of symbols. -/
theorem tuples_tupleSymbols (i : Interaction) (free : List String) :
    i.tuples (tupleSymbols i free) = i.tuples free := by
  unfold Interaction.tuples tupleSymbols
  cases i.domain <;> rfl

theorem index_points {free reductions : List String} {ps : List Point} (hgroups : i.kind ≠ .groups)
    (h : points i free reductions = .ok ps) : i.tuples free = .ok (ps.map (·.index)) := by
  unfold points at h
  split at h
  · rename_i members hdomain
    exact absurd (by rw [Interaction.kind, hdomain]; rfl) hgroups
  · obtain ⟨domains, -, h⟩ := bind_eq_ok.mp h
    obtain ⟨tuples, htuples, h⟩ := bind_eq_ok.mp h
    cases h
    rw [← tuples_tupleSymbols, htuples, List.map_map]
    exact congrArg Except.ok (List.map_id' tuples).symm

theorem index_rowInstances {s : Site} {matrix : Tensor Float} {columns : List Point}
    (h : rowInstances e s t i matrix columns = .ok found) :
    found.map (·.index) =
      (List.range (matrix.shape.headD 0)).map fun (row : Nat) => [e.graph.base + row] := by
  unfold rowInstances at h
  split at h
  · cases h
  · obtain ⟨values, -, h⟩ := bind_eq_ok.mp h
    cases h
    rw [List.map_map]
    rfl

/-- The instances of a component are at the index tuples of its interaction. -/
theorem indices_of_instances (h : instances e n t i = .ok found) :
    i.indices e.graph.base n.free = .ok (found.map (·.index)) := by
  unfold instances allPoints at h
  unfold Interaction.indices
  cases hdomain : i.domain with
  | factor matrix =>
    rw [hdomain] at h
    dsimp only at h ⊢
    obtain ⟨columns, -, h⟩ := bind_eq_ok.mp h
    rw [index_rowInstances h]
  | groups members =>
    unfold points at h
    rw [hdomain] at h
    dsimp only at h ⊢
    obtain ⟨ps, hps, h⟩ := bind_eq_ok.mp h
    cases hps
    rw [index_pointInstances h, List.map_map]
    exact congrArg Except.ok (List.zipIdx_map_fst 0 members).symm
  | _ =>
    rw [hdomain] at h
    dsimp only at h ⊢
    obtain ⟨ps, hps, h⟩ := bind_eq_ok.mp h
    rw [index_pointInstances h]
    exact index_points (by simp [Interaction.kind, hdomain, Interaction.Domain.kind]) hps

/-- An interaction is as large as it has index tuples. -/
theorem size_eq_length {base : Int} {free : List String} {found : List (List Int)}
    (h : i.indices base free = .ok found) : i.size free = .ok found.length := by
  unfold Interaction.indices Interaction.tuples at h
  unfold Interaction.size
  cases hdomain : i.domain with
  | ranges bounds =>
    rw [hdomain] at h
    obtain ⟨rs, hrs, h⟩ := bind_eq_ok.mp h
    cases h
    dsimp only
    rw [hrs, Range.length_tuples]
    rfl
  | factor matrix =>
    rw [hdomain] at h
    cases h
    dsimp only
    rw [List.length_map, List.length_range]
  | _ =>
    rw [hdomain] at h
    cases h
    rfl

/-- Of ranges that is the product of the lengths of those that are free. -/
theorem size_of_ranges {bounds : List Range} {free : List String} {count : Nat}
    (hdomain : i.domain = .ranges bounds) (h : i.size free = .ok count) :
    ∃ rs, free.mapM i.rangeOf = .ok rs ∧ count = (rs.map Range.size).prod := by
  unfold Interaction.size at h
  rw [hdomain] at h
  obtain ⟨rs, hrs, h⟩ := bind_eq_ok.mp h
  cases h
  refine ⟨rs, mapM_eq_ok.mpr ((mapM_eq_ok.mp hrs).imp fun _ _ hr => rangeOf_of_countable hr), ?_⟩
  exact Range.tupleCount_eq_prod rs

/-- The audit of a component counts all instances, and keeps as many as the cap allows. -/
theorem records_of_componentAt {place : Nat} {audit : Audit.Component α}
    (h : componentAt e place = .ok audit) :
    ∃ n t i found, nodesAt e.graph place = some (n, t, i) ∧ audit.id = n.id ∧
      instances e n t i = .ok found ∧ audit.Records e.cap found := by
  obtain ⟨n, t, i, found, _, hnodes, hfound, -, rfl⟩ := componentAt_eq_ok h
  exact ⟨n, t, i, found, hnodes, rfl, hfound, rfl, List.take_eq_take_min .., decide_eq_true_iff⟩

/-- A tree shows the audits of places of the graph. -/
theorem exists_componentAt (hg : Graph.Keyed e.graph) {tree : Audit.Tree α}
    {audit : Audit.Component α} (h : run e = .ok tree) (haudit : audit ∈ tree.components) :
    ∃ place, componentAt e place = .ok audit := by
  unfold run at h
  obtain ⟨⟨⟨hs, cs⟩, kept⟩, hensemble, h⟩ := bind_eq_ok.mp h
  cases h
  obtain ⟨entry, hentry, rfl⟩ := List.mem_map.mp haudit
  have hagree := evalEnsemble_agree hg
  rw [hensemble] at hagree
  generalize energy e = total at hagree
  cases hagree with
  | ok progress =>
    exact ⟨entry.1, progress.keeps.sound entry ((List.mergeSort_perm _ _).mem_iff.mp hentry)⟩

end

/-- The cap of an audit changes records only. Under two caps an evaluation fails with the same
failure, or has the same total, weights, values and counts. Under any cap each component counts
all index tuples of its interaction, which are as many as the interaction is large; it keeps the
first instances in their order, and is truncated exactly if there are more than the cap allows. -/
theorem cap_changes_records_only {d : Document} {b : Graph.BuildOptions} {g : Graph}
    (hg : Graph.build d b = .ok g) (a : Assignment α) (data : DataFeed α)
    (registry : Option (Registry α)) (o : Options) :
    (∀ cap cap',
      (evaluate g a data registry { o with instanceCap := cap }).map Audit.Tree.withoutRecords =
        (evaluate g a data registry { o with instanceCap := cap' }).map
          Audit.Tree.withoutRecords) ∧
    ∀ cap tree, evaluate g a data registry { o with instanceCap := cap } = .ok tree →
      ∃ e, prepare g a data registry o = .ok e ∧ ∀ audit ∈ tree.components,
        ∃ place n t i found, nodesAt g place = some (n, t, i) ∧ audit.id = n.id ∧
          instances e n t i = .ok found ∧
          i.indices g.base n.free = .ok (found.map (·.index)) ∧
          i.size n.free = .ok audit.count ∧
          (∀ bounds, i.domain = .ranges bounds → ∃ rs, n.free.mapM i.rangeOf = .ok rs ∧
            audit.count = (rs.map Range.size).prod) ∧
          audit.Records cap found := by
  refine ⟨fun cap cap' => ?_, fun cap tree htree => ?_⟩
  · rw [evaluate_withoutRecords g a data registry o cap,
      evaluate_withoutRecords g a data registry o cap']
  · rw [evaluate_eq, prepare_withCap] at htree
    cases hprepared : prepare g a data registry o with
    | error err =>
      rw [hprepared] at htree
      cases htree
    | ok e =>
      rw [hprepared] at htree
      have hgraph : e.graph = g := graph_of_prepare hprepared
      have hkeyed : Graph.Keyed (e.withCap cap).graph := hgraph ▸ Graph.keyed_of_build hg
      refine ⟨e, rfl, fun audit haudit => ?_⟩
      obtain ⟨place, hplace⟩ := exists_componentAt hkeyed htree haudit
      obtain ⟨n, t, i, found, hnodes, hid, hfound, hrecords⟩ := records_of_componentAt hplace
      have hinstances : instances e n t i = .ok found := hfound
      have hindices := indices_of_instances hinstances
      have hsize : i.size n.free = .ok audit.count := by
        rw [size_eq_length hindices, List.length_map, hrecords.count_eq]
      rw [hgraph] at hindices
      refine ⟨place, n, t, i, found, hgraph ▸ hnodes, hid, hinstances, hindices, hsize, ?_,
        hrecords⟩
      exact fun bounds hdomain => size_of_ranges hdomain hsize

/-- Of three instances the cap keeps two; with or without the third the audit is the same. -/
theorem cap_changes_records_only_sample : ∃ (g : Graph) (tree : Audit.Tree Float),
    Graph.build Graph.sample Graph.alone = .ok g ∧
      evaluate g threeNumbers (feedOf Lookup.nothing) none { Options.usual with instanceCap := 2 } =
        .ok tree ∧
      tree.components.map (fun c => (c.count, c.instances.length, c.isTruncated)) =
        [(3, 2, true)] ∧
      (evaluate g threeNumbers (feedOf Lookup.nothing) none
        { Options.usual with instanceCap := 3 }).map Audit.Tree.withoutRecords =
          .ok tree.withoutRecords := by
  have hcounts : ((Graph.build Graph.sample Graph.alone).bind fun g =>
      evaluate g threeNumbers (feedOf Lookup.nothing) none
        { Options.usual with instanceCap := 2 }).toOption.map (fun tree => tree.components.map
          fun c => (c.count, c.instances.length, c.isTruncated)) = some [(3, 2, true)] := by
    decide +kernel
  rcases hg : Graph.build Graph.sample Graph.alone with _ | g
  · rw [hg] at hcounts
    cases hcounts
  · rw [hg] at hcounts
    change (evaluate g threeNumbers (feedOf Lookup.nothing) none
      { Options.usual with instanceCap := 2 }).toOption.map _ = _ at hcounts
    have hsame := (cap_changes_records_only hg threeNumbers (feedOf Lookup.nothing) none
      Options.usual).1 3 2
    rcases htree : evaluate g threeNumbers (feedOf Lookup.nothing) none
      { Options.usual with instanceCap := 2 } with _ | tree
    · rw [htree] at hcounts
      cases hcounts
    · rw [htree] at hcounts hsame
      exact ⟨g, tree, rfl, htree, Option.some.inj hcounts, hsame⟩

end Energy

end EnergyGraph
