-- One check under two readings. A check is written over whatever reports and refuses, so that
-- what goes for results, for reports, for refusals and for steps in a row goes for every check.
-- The modes that end at a mistake or go on after it are one such pair; a reading that does
-- not report at all is another.
import EnergyGraph.Proofs.Modes

namespace EnergyGraph

/-- What holds between the two readings of every check. -/
structure Coupling (m n : Type → Type) [Monad m] [Monad n] [Reports m] [Reports n] where
  Rel : {α : Type} → m α → n α → Prop
  ofPure : ∀ {α : Type} (a : α), Rel (pure a) (pure a)
  ofBind : ∀ {α β : Type} {x : m α} {y : n α} {f : α → m β} {g : α → n β},
    Rel x y → (∀ a, Rel (f a) (g a)) → Rel (x >>= f) (y >>= g)
  ofReport : ∀ d : Diagnostic, d.category ≠ .group → Rel (Reports.report d) (Reports.report d)
  ofRefuse : ∀ {α : Type} (r : Refusal), Rel (Reports.refuse r : m α) (Reports.refuse r)

namespace Coupling

variable {m n : Type → Type} [Monad m] [Monad n] [Reports m] [Reports n] {α β γ : Type}
  (R : Coupling m n)

/-- Where a step leaves nothing, nothing is left. -/
theorem bindSome {x : m (Option α)} {y : n (Option α)} {f : Option α → m (Option β)}
    {g : Option α → n (Option β)} (h : R.Rel x y) (hf : f none = pure none)
    (hg : g none = pure none) (hrest : ∀ a, R.Rel (f (some a)) (g (some a))) :
    R.Rel (x >>= f) (y >>= g) := by
  refine R.ofBind h fun o => ?_
  cases o with
  | none =>
    rw [hf, hg]
    exact R.ofPure none
  | some a => exact hrest a

/-- A step that fails with one diagnostic at a time, reported under either reading. -/
theorem attempt {x : Except Failure α} (hx : Singly x) :
    R.Rel (Findings.attempt x) (Findings.attempt x) := by
  match x with
  | .ok a => exact R.ofPure _
  | .error (.diagnostic d) =>
    exact R.ofBind (R.ofReport d (hx _ rfl)) fun _ => R.ofPure _
  | .error (.collected ds) => exact (hx _ rfl).elim
  | .error (.refusal r) => exact R.ofRefuse r

theorem forM {f : γ → m Unit} {g : γ → n Unit} (xs : List γ) (h : ∀ x, R.Rel (f x) (g x)) :
    R.Rel (xs.forM f) (xs.forM g) := by
  induction xs with
  | nil => exact R.ofPure ()
  | cons x xs ih => exact R.ofBind (h x) fun _ => ih

theorem mapM [LawfulMonad m] [LawfulMonad n] {f : γ → m β} {g : γ → n β} (xs : List γ)
    (h : ∀ x, R.Rel (f x) (g x)) : R.Rel (xs.mapM f) (xs.mapM g) := by
  induction xs with
  | nil => exact R.ofPure []
  | cons x xs ih =>
    rw [List.mapM_cons, List.mapM_cons]
    exact R.ofBind (h x) fun _ => R.ofBind ih fun _ => R.ofPure _

theorem filterMapM [LawfulMonad m] [LawfulMonad n] {f : γ → m (Option β)}
    {g : γ → n (Option β)} (xs : List γ) (h : ∀ x, R.Rel (f x) (g x)) :
    R.Rel (xs.filterMapM f) (xs.filterMapM g) := by
  induction xs with
  | nil => exact R.ofPure []
  | cons x xs ih =>
    rw [List.filterMapM_cons, List.filterMapM_cons]
    refine R.ofBind (h x) fun o => ?_
    cases o with
    | none => exact ih
    | some b => exact R.ofBind ih fun _ => R.ofPure _

theorem foldlM {f : β → γ → m β} {g : β → γ → n β} (b : β) (xs : List γ)
    (h : ∀ b x, R.Rel (f b x) (g b x)) : R.Rel (xs.foldlM f b) (xs.foldlM g b) := by
  induction xs generalizing b with
  | nil => exact R.ofPure b
  | cons x xs ih =>
    rw [List.foldlM_cons, List.foldlM_cons]
    exact R.ofBind (h b x) fun b => ih b

theorem forIn {f : γ → β → m (ForInStep β)} {g : γ → β → n (ForInStep β)} (b : β) (xs : List γ)
    (h : ∀ x b, R.Rel (f x b) (g x b)) : R.Rel (ForIn.forIn xs b f) (ForIn.forIn xs b g) := by
  induction xs generalizing b with
  | nil => exact R.ofPure b
  | cons x xs ih =>
    rw [List.forIn_cons, List.forIn_cons]
    refine R.ofBind (h x b) fun o => ?_
    cases o with
    | done b => exact R.ofPure b
    | yield b => exact ih b

end Coupling

/-- The run that ends at the first report and the one that gathers. -/
def Findings.modes (strict : Prop) : Coupling (Except Failure) Findings where
  Rel := Agrees strict
  ofPure := agrees_pure
  ofBind := agrees_bind
  ofReport := fun _ hd => agrees_report fun _ => hd
  ofRefuse := agrees_refuse

end EnergyGraph
