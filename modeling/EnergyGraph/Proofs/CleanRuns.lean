-- The laws of checks that go on after a mistake. A check only adds to its findings,
-- so a run that ends without any had none at each of its steps. Every law about what
-- comes out of a check is read off such a clean run.
import EnergyGraph.Findings
import EnergyGraph.Proofs.Steps

namespace EnergyGraph

namespace Findings

variable {α β : Type}

/-! ## Checks only add -/

/-- A check leaves the findings before it as they are, and puts its own after them. -/
def Grows (m : Findings α) : Prop := ∀ ds, ∃ more, (m.run.run ds).2 = ds ++ more

theorem run_bind (m : Findings α) (f : α → Findings β) (ds : List Diagnostic) :
    (m >>= f).run.run ds =
      match m.run.run ds with
      | (.ok a, after) => (f a).run.run after
      | (.error r, after) => (.error r, after) := by
  rw [ExceptT.run_bind, StateT.run_bind]
  rcases m.run.run ds with ⟨_ | _, _⟩ <;> rfl

theorem grows_pure (a : α) : Grows (pure a) := fun ds => ⟨[], (List.append_nil ds).symm⟩

theorem grows_refuse (r : Refusal) : Grows (Reports.refuse r : Findings α) :=
  fun ds => ⟨[], (List.append_nil ds).symm⟩

theorem grows_report (d : Diagnostic) : Grows (Reports.report d) := fun _ => ⟨[d], rfl⟩

theorem grows_reportGroup (ds : List Diagnostic) : Grows (Reports.reportGroup ds) :=
  fun _ => ⟨ds, rfl⟩

theorem grows_bind {m : Findings α} {f : α → Findings β} (hm : Grows m) (hf : ∀ a, Grows (f a)) :
    Grows (m >>= f) := by
  intro ds
  obtain ⟨more, hmore⟩ := hm ds
  rw [run_bind]
  rcases h : m.run.run ds with ⟨r | a, after⟩
  · exact ⟨more, by simpa [h] using hmore⟩
  · obtain ⟨rest, hrest⟩ := hf a after
    obtain rfl : after = ds ++ more := by simpa [h] using hmore
    exact ⟨more ++ rest, by rw [← List.append_assoc]; exact hrest⟩

theorem grows_forM (f : α → Findings Unit) (xs : List α) (hf : ∀ x, Grows (f x)) :
    Grows (xs.forM f) := by
  induction xs with
  | nil => exact grows_pure ()
  | cons x xs ih => exact grows_bind (hf x) fun _ => ih

theorem grows_mapM (f : α → Findings β) (xs : List α) (hf : ∀ x, Grows (f x)) :
    Grows (xs.mapM f) := by
  induction xs with
  | nil => exact grows_pure []
  | cons x xs ih =>
    rw [List.mapM_cons]
    exact grows_bind (hf x) fun _ => grows_bind ih fun _ => grows_pure _

theorem grows_filterMapM (f : α → Findings (Option β)) (xs : List α) (hf : ∀ x, Grows (f x)) :
    Grows (xs.filterMapM f) := by
  induction xs with
  | nil => exact grows_pure []
  | cons x xs ih =>
    rw [List.filterMapM_cons]
    refine grows_bind (hf x) fun o => ?_
    cases o with
    | none => exact ih
    | some y => exact grows_bind ih fun _ => grows_pure _

theorem grows_foldlM (f : β → α → Findings β) (b : β) (xs : List α) (hf : ∀ b x, Grows (f b x)) :
    Grows (xs.foldlM f b) := by
  induction xs generalizing b with
  | nil => exact grows_pure b
  | cons x xs ih =>
    rw [List.foldlM_cons]
    exact grows_bind (hf b x) fun b => ih b

theorem grows_attempt (x : Except Failure α) : Grows (attempt x) := by
  match x with
  | .ok a => exact grows_pure _
  | .error (.diagnostic d) => exact grows_bind (grows_report d) fun _ => grows_pure _
  | .error (.collected []) => exact grows_refuse _
  | .error (.collected (d :: ds)) =>
    exact grows_bind (grows_reportGroup (d :: ds)) fun _ => grows_pure _
  | .error (.refusal r) => exact grows_refuse r

/-! ## Clean runs -/

/-- A check that comes to a result and finds nothing. -/
def Clean (m : Findings α) (a : α) : Prop := m.run.run [] = (.ok a, [])

theorem clean_pure {a b : α} : Clean (pure a) b ↔ a = b := by
  constructor
  · intro h
    cases h
    rfl
  · rintro rfl
    rfl

/-- The steps of a clean run are clean. The second step cannot take back what the first found. -/
theorem clean_bind {m : Findings α} {f : α → Findings β} {b : β} (hf : ∀ a, Grows (f a)) :
    Clean (m >>= f) b ↔ ∃ a, Clean m a ∧ Clean (f a) b := by
  unfold Clean
  rw [run_bind]
  constructor
  · intro h
    rcases hm : m.run.run [] with ⟨r | a, after⟩
    · rw [hm] at h
      cases h
    · rw [hm] at h
      change (f a).run.run after = (.ok b, []) at h
      obtain ⟨more, hmore⟩ := hf a after
      rw [h] at hmore
      obtain rfl : after = [] := (List.append_eq_nil_iff.mp hmore.symm).1
      exact ⟨a, rfl, h⟩
  · rintro ⟨a, hm, h⟩
    simpa [hm] using h

theorem not_clean_report (d : Diagnostic) (u : Unit) : ¬ Clean (Reports.report d) u := by
  intro h
  cases h

theorem not_clean_reportGroup (d : Diagnostic) (ds : List Diagnostic) (u : Unit) :
    ¬ Clean (Reports.reportGroup (d :: ds)) u := by
  intro h
  cases h

theorem not_clean_refuse (r : Refusal) (a : α) : ¬ Clean (Reports.refuse r) a := by
  intro h
  cases h

/-- A step that is tried leaves no finding only if it succeeds. -/
theorem clean_attempt {x : Except Failure α} {o : Option α} :
    Clean (attempt x) o ↔ ∃ a, x = .ok a ∧ o = some a := by
  match x with
  | .ok a =>
    rw [attempt, clean_pure]
    simp [eq_comm]
  | .error (.diagnostic d) =>
    rw [attempt, clean_bind fun _ => grows_pure _]
    simp [not_clean_report]
  | .error (.collected []) =>
    rw [attempt]
    simp [not_clean_refuse]
  | .error (.collected (d :: ds)) =>
    simp only [reduceCtorEq, false_and, exists_false, iff_false]
    intro h
    obtain ⟨u, h, -⟩ := (clean_bind fun _ => grows_pure _).mp h
    exact not_clean_reportGroup d ds u h
  | .error (.refusal r) =>
    rw [attempt]
    simp [not_clean_refuse]

theorem clean_forM {f : α → Findings Unit} {xs : List α} (hf : ∀ x, Grows (f x)) :
    Clean (xs.forM f) () ↔ ∀ x ∈ xs, Clean (f x) () := by
  induction xs with
  | nil => simp [clean_pure]
  | cons x xs ih =>
    change Clean (f x >>= fun _ => xs.forM f) () ↔ _
    rw [clean_bind fun _ => grows_forM f xs hf, List.forall_mem_cons, ← ih]
    exact ⟨fun ⟨_, hx, hxs⟩ => ⟨hx, hxs⟩, fun ⟨hx, hxs⟩ => ⟨(), hx, hxs⟩⟩

/-- All items are tried, and none fails. -/
theorem clean_filterMapM_attempt {f : α → Except Failure β} {xs : List α} {ys : List β} :
    Clean (xs.filterMapM fun x => attempt (f x)) ys ↔
      List.Forall₂ (fun x y => f x = .ok y) xs ys := by
  induction xs generalizing ys with
  | nil =>
    rw [List.filterMapM_nil, clean_pure, List.forall₂_nil_left_iff, eq_comm]
  | cons x xs ih =>
    rw [List.filterMapM_cons, clean_bind]
    · constructor
      · rintro ⟨o, ho, h⟩
        obtain ⟨y, hy, rfl⟩ := clean_attempt.mp ho
        obtain ⟨rest, hrest, h⟩ := (clean_bind fun _ => grows_pure _).mp h
        cases clean_pure.mp h
        exact .cons hy (ih.mp hrest)
      · intro h
        cases h with
        | @cons _ y _ rest hy hrest =>
          refine ⟨some y, clean_attempt.mpr ⟨y, hy, rfl⟩, ?_⟩
          exact (clean_bind fun _ => grows_pure _).mpr ⟨rest, ih.mpr hrest, clean_pure.mpr rfl⟩
    · intro o
      have hrest := grows_filterMapM _ xs fun x => grows_attempt (f x)
      cases o with
      | none => exact hrest
      | some y => exact grows_bind hrest fun _ => grows_pure _

theorem clean_mapM_attempt {f : α → Except Failure β} {xs : List α} {os : List (Option β)} :
    Clean (xs.mapM fun x => attempt (f x)) os ↔
      ∃ ys, os = ys.map some ∧ List.Forall₂ (fun x y => f x = .ok y) xs ys := by
  induction xs generalizing os with
  | nil =>
    rw [List.mapM_nil, clean_pure]
    constructor
    · rintro rfl
      exact ⟨[], rfl, .nil⟩
    · rintro ⟨ys, rfl, h⟩
      cases h
      rfl
  | cons x xs ih =>
    have hrest := grows_mapM _ xs fun x => grows_attempt (f x)
    rw [List.mapM_cons, clean_bind fun _ => grows_bind hrest fun _ => grows_pure _]
    constructor
    · rintro ⟨o, ho, h⟩
      obtain ⟨y, hy, rfl⟩ := clean_attempt.mp ho
      obtain ⟨rest, hr, h⟩ := (clean_bind fun _ => grows_pure _).mp h
      cases clean_pure.mp h
      obtain ⟨ys, rfl, hys⟩ := ih.mp hr
      exact ⟨y :: ys, rfl, .cons hy hys⟩
    · rintro ⟨ys, rfl, h⟩
      cases h with
      | @cons _ y _ ys hy hys =>
        refine ⟨some y, clean_attempt.mpr ⟨y, hy, rfl⟩, ?_⟩
        refine (clean_bind fun _ => grows_pure _).mpr ⟨ys.map some, ih.mpr ⟨ys, rfl, hys⟩, ?_⟩
        exact clean_pure.mpr rfl

/-- What holds at the start of a clean fold, and is kept by its clean steps, holds at its end. -/
theorem clean_foldlM {f : β → α → Findings β} {P : List α → β → Prop} {b c : β} {xs : List α}
    (hf : ∀ b x, Grows (f b x)) (hstart : P [] b)
    (hstep : ∀ done x b c, x ∈ xs → P done b → Clean (f b x) c → P (done ++ [x]) c)
    (h : Clean (xs.foldlM f b) c) : P xs c := by
  suffices hgen : ∀ (rest done : List α) (b : β), (∀ x ∈ rest, x ∈ xs) → P done b →
      Clean (rest.foldlM f b) c → P (done ++ rest) c by
    simpa using hgen xs [] b (fun _ hx => hx) hstart h
  intro rest
  induction rest with
  | nil =>
    intro done b _ hb h
    cases clean_pure.mp h
    simpa using hb
  | cons x rest ih =>
    intro done b hmem hb h
    rw [List.foldlM_cons] at h
    obtain ⟨a, ha, h⟩ := (clean_bind fun a => grows_foldlM f a rest hf).mp h
    have := ih (done ++ [x]) a (fun y hy => hmem y (List.mem_cons_of_mem x hy))
      (hstep done x b a (hmem x List.mem_cons_self) hb ha) h
    simpa using this

/-! ## What is made of the findings -/

/-- A check that gathers has an answer only without any finding. -/
theorem gathered_eq_ok {m : Findings α} {a : α} : gathered m = .ok a ↔ Clean m a := by
  unfold gathered Clean
  rcases m.run.run [] with ⟨r | b, found⟩
  · exact ⟨fun h => (nomatch h), fun h => (nomatch h)⟩
  · cases found with
    | nil =>
      constructor
      · rintro ⟨⟩
        rfl
      · rintro ⟨⟩
        rfl
    | cons d ds => exact ⟨fun h => (nomatch h), fun h => (nomatch h)⟩

end Findings

end EnergyGraph
