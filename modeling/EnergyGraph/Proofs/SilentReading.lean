-- Reading a document without telling of its mistakes. What is left is where a reading cannot go
-- on: no mistake that is reported, but a value that is taken for a list without a look at it, or
-- a number beyond all bounds. A reading that gathers stops there and loses all that it has found.
import EnergyGraph.Proofs.ParserModes

namespace EnergyGraph

/-- Reports are dropped. -/
instance : Reports (Except Refusal) where
  report _ := .ok ()
  reportGroup _ := .ok ()
  refuse := .error

/-- A reading that comes to a result, or to a refusal, and says nothing else. -/
abbrev Silent := Except Refusal

namespace Findings

variable {α : Type}

/-- What a check comes to does not depend on what has been found. -/
def silenced : Coupling Findings Silent where
  Rel y z := ∀ found, (y.run.run found).1 = z
  ofPure := fun _ _ => rfl
  ofBind := by
    intro α β y z f g h hrest found
    rw [run_bind, ← h found]
    rcases y.run.run found with ⟨r | a, after⟩
    · rfl
    · exact hrest a after
  ofReport := fun _ _ _ => rfl
  ofRefuse := fun _ _ => rfl

theorem gathered_eq_refused {y : Findings α} {r : Refusal} :
    gathered y = .error (.refusal r) ↔ (y.run.run []).1 = .error r := by
  unfold gathered
  rcases y.run.run [] with ⟨r' | a, found⟩
  · simp
  · refine iff_of_false (fun h => ?_) nofun
    cases found with
    | nil => cases h
    | cons d ds => cases h

/-- The mode that ends at the first mistake is refused where the other one is, unless there is a
mistake before. -/
theorem eq_refused_iff {x : Except Failure α} {y : Findings α} {strict : Prop}
    (h : Agrees strict x y) {r : Refusal} :
    x = .error (.refusal r) ↔ y.run.run [] = (.error r, []) := by
  constructor
  · intro hx
    exact h.refused r hx []
  · intro hy
    rcases hx : x with f | a
    · by_cases hrefused : ∃ r', f = .refusal r'
      · obtain ⟨r', rfl⟩ := hrefused
        have hrun := h.refused r' hx []
        rw [hy] at hrun
        cases hrun
        rfl
      · obtain ⟨hmembers, hfound⟩ := h.failed f hx fun r' hr' => hrefused ⟨r', hr'⟩
        obtain ⟨more, hmore⟩ := hfound []
        rw [hy] at hmore
        exact absurd (List.append_eq_nil_iff.mp (List.append_eq_nil_iff.mp hmore.symm).1).2 hmembers
    · have hrun := h.ok a hx []
      rw [hy] at hrun
      cases hrun

end Findings

/-! ## What is never refused -/

/-- A reading that is not refused. -/
def Passes {α : Type} (x : Silent α) : Prop := ∃ a, x = .ok a

section

variable {α β γ : Type}

theorem passes_ok (a : α) : Passes (.ok a) := ⟨a, rfl⟩

theorem passes_bind {x : Silent α} {f : α → Silent β} (hx : Passes x) (hf : ∀ a, Passes (f a)) :
    Passes (x >>= f) := by
  obtain ⟨a, rfl⟩ := hx
  exact hf a

theorem passes_foldlM {f : β → γ → Silent β} (b : β) (xs : List γ) (h : ∀ b x, Passes (f b x)) :
    Passes (xs.foldlM f b) := by
  induction xs generalizing b with
  | nil => exact passes_ok b
  | cons x xs ih =>
    rw [List.foldlM_cons]
    exact passes_bind (h b x) fun b => ih b

theorem passes_forIn {f : γ → β → Silent (ForInStep β)} (b : β) (xs : List γ)
    (h : ∀ x b, Passes (f x b)) : Passes (forIn xs b f) := by
  induction xs generalizing b with
  | nil => exact passes_ok b
  | cons x xs ih =>
    rw [List.forIn_cons]
    refine passes_bind (h x b) fun o => ?_
    cases o with
    | done b => exact passes_ok b
    | yield b => exact ih b

theorem passes_filterMapM {f : γ → Silent (Option β)} (xs : List γ) (h : ∀ x, Passes (f x)) :
    Passes (xs.filterMapM f) := by
  induction xs with
  | nil => exact passes_ok []
  | cons x xs ih =>
    rw [List.filterMapM_cons]
    refine passes_bind (h x) fun o => ?_
    cases o with
    | none => exact ih
    | some b => exact passes_bind ih fun _ => passes_ok _

end

/-! ## Causes -/

/-- A reading is refused exactly if there is a cause, and by one of the causes. -/
structure Blames {α : Type} (x : Silent α) (cause : Refusal → Prop) : Prop where
  blames : ∀ r, x = .error r → cause r
  refused : ∀ r, cause r → ∃ r', x = .error r'

namespace Blames

variable {α β : Type} {x : Silent α} {f : α → Silent β} {cause other : Refusal → Prop}

theorem of_iff (h : ∀ r, x = .error r ↔ cause r) : Blames x cause :=
  ⟨fun r => (h r).mp, fun r hr => ⟨r, (h r).mpr hr⟩⟩

theorem bind (hx : Blames x cause) (hf : ∀ a, Blames (f a) other) :
    Blames (x >>= f) fun r => cause r ∨ other r where
  blames := by
    intro r hr
    rcases bind_eq_error.mp hr with h | ⟨a, -, h⟩
    · exact Or.inl (hx.blames r h)
    · exact Or.inr ((hf a).blames r h)
  refused := by
    rintro r (h | h)
    · obtain ⟨r', hr'⟩ := hx.refused r h
      exact ⟨r', bind_eq_error.mpr (Or.inl hr')⟩
    · cases x with
      | error r' => exact ⟨r', rfl⟩
      | ok a => exact (hf a).refused r h

theorem congr (h : Blames x cause) (hcause : ∀ r, cause r ↔ other r) : Blames x other :=
  ⟨fun r hr => (hcause r).mp (h.blames r hr), fun r hr => h.refused r ((hcause r).mpr hr)⟩

/-- A step that is never refused is never to blame. -/
theorem after (hx : Passes x) (hf : ∀ a, Blames (f a) cause) : Blames (x >>= f) cause := by
  obtain ⟨a, rfl⟩ := hx
  exact hf a

/-- One of several items is to blame. -/
theorem filterMapM {read : α → Silent (Option β)} {blamed : α → Refusal → Prop} (xs : List α)
    (h : ∀ x, Blames (read x) (blamed x)) :
    Blames (xs.filterMapM read) fun r => ∃ x ∈ xs, blamed x r := by
  induction xs with
  | nil => exact of_iff fun r => iff_of_false nofun (by simp)
  | cons x xs ih =>
    rw [List.filterMapM_cons]
    simp only [List.mem_cons, exists_eq_or_imp]
    refine (h x).bind fun o => ?_
    cases o with
    | none => exact ih
    | some b =>
      have hpure : ∀ bs : List β, Blames (pure (b :: bs) : Silent _) fun _ => False :=
        fun bs => of_iff fun r => iff_of_false nofun id
      refine ⟨fun r hr => ?_, fun r hr => ?_⟩
      · exact ((ih.bind hpure).blames r hr).elim id False.elim
      · exact (ih.bind hpure).refused r (Or.inl hr)

end Blames

end EnergyGraph
