-- One check, run in two ways. The run that ends at its first report and the run that goes on
-- do the same up to that report. From there on only the second one runs, with what was left
-- out in place of what could not be read; all it can do is to find more.
import EnergyGraph.Proofs.CleanRuns

namespace EnergyGraph

/-! ## Failures -/

namespace Failure

/-- The diagnostics of a failure. -/
def members : Failure → List Diagnostic
  | .diagnostic d => [d]
  | .collected ds => ds
  | .refusal _ => []

/-- A failure that is no group, and holds none. -/
def IsSingle : Failure → Prop
  | .diagnostic d => d.category ≠ .group
  | .collected _ => False
  | .refusal _ => True

end Failure

/-- All failures are single ones. -/
def Singly {α : Type} (x : Except Failure α) : Prop := ∀ f, x = .error f → f.IsSingle

/-! ## Two runs of a check -/

namespace Findings

variable {α β γ : Type} {strict : Prop}

/-- A check adds to what was found before it; under `strict` no group. -/
def Adds (strict : Prop) (all : Findings α) : Prop :=
  ∀ found, ∃ more, (all.run.run found).2 = found ++ more ∧
    (strict → ∀ d ∈ more, d.category ≠ .group)

/-- A run that ends at the first report, and one that gathers. Where the first one has a result,
the other has it too, and finds nothing on the way. Where the first one fails, the other has
found the same, whatever it finds after that. Under `strict` no group is ever met. -/
structure Agrees (strict : Prop) (first : Except Failure α) (all : Findings α) : Prop where
  adds : Adds strict all
  ok : ∀ a, first = .ok a → ∀ found, all.run.run found = (.ok a, found)
  refused : ∀ r, first = .error (.refusal r) → ∀ found, all.run.run found = (.error r, found)
  failed : ∀ f, first = .error f → (∀ r, f ≠ .refusal r) →
    f.members ≠ [] ∧ ∀ found, ∃ more, (all.run.run found).2 = found ++ f.members ++ more
  single : strict → Singly first

variable {x : Except Failure α} {y : Findings α}

theorem Agrees.grows (h : Agrees strict x y) : Grows y := fun found =>
  let ⟨more, hmore, _⟩ := h.adds found
  ⟨more, hmore⟩

theorem agrees_pure (a : α) : Agrees strict (pure a) (pure a) where
  adds := fun found => ⟨[], (List.append_nil found).symm, fun _ _ h => (nomatch h)⟩
  ok := by
    rintro _ ⟨⟩ found
    rfl
  refused := fun _ h => (nomatch h)
  failed := fun _ h => (nomatch h)
  single := fun _ _ h => (nomatch h)

theorem agrees_report {d : Diagnostic} (hd : strict → d.category ≠ .group) :
    Agrees strict (Reports.report d) (Reports.report d) where
  adds := fun _ => ⟨[d], rfl, fun h _ hmem => (List.mem_singleton.mp hmem) ▸ hd h⟩
  ok := fun _ h => (nomatch h)
  refused := fun _ h => (nomatch h)
  failed := by
    rintro _ ⟨⟩ -
    exact ⟨List.cons_ne_nil _ _, fun found => ⟨[], (List.append_nil _).symm⟩⟩
  single := by
    rintro hstrict _ ⟨⟩
    exact hd hstrict

theorem agrees_reportGroup {ds : List Diagnostic} (hne : ds ≠ []) (hstrict : ¬ strict) :
    Agrees strict (Reports.reportGroup ds) (Reports.reportGroup ds) where
  adds := fun _ => ⟨ds, rfl, fun h => absurd h hstrict⟩
  ok := fun _ h => (nomatch h)
  refused := fun _ h => (nomatch h)
  failed := by
    rintro _ ⟨⟩ -
    exact ⟨hne, fun found => ⟨[], (List.append_nil _).symm⟩⟩
  single := fun h => absurd h hstrict

theorem agrees_refuse (r : Refusal) :
    Agrees strict (Reports.refuse r : Except Failure α) (Reports.refuse r) where
  adds := fun found => ⟨[], (List.append_nil found).symm, fun _ _ h => (nomatch h)⟩
  ok := fun _ h => (nomatch h)
  refused := by
    rintro _ ⟨⟩ found
    rfl
  failed := by
    rintro _ ⟨⟩ h
    exact absurd rfl (h r)
  single := by
    rintro - _ ⟨⟩
    trivial

/-- What a run has found before a step it has found after it. -/
theorem run_bind_grows {f : α → Findings β} (hf : ∀ a, Grows (f a)) (found : List Diagnostic) :
    ∃ more, ((y >>= f).run.run found).2 = (y.run.run found).2 ++ more := by
  rw [run_bind]
  rcases y.run.run found with ⟨r | a, after⟩
  · exact ⟨[], (List.append_nil _).symm⟩
  · exact hf a after

theorem adds_bind {g : α → Findings β} (h : Adds strict y) (hrest : ∀ a, Adds strict (g a)) :
    Adds strict (y >>= g) := by
  intro found
  obtain ⟨more, hmore, hsingle⟩ := h found
  rw [run_bind]
  rcases hy : y.run.run found with ⟨r | a, after⟩
  · rw [hy] at hmore
    exact ⟨more, hmore, hsingle⟩
  · rw [hy] at hmore
    obtain ⟨rest, hafter, hrests⟩ := hrest a after
    refine ⟨more ++ rest, ?_, fun hstrict d hd => ?_⟩
    · rw [← List.append_assoc, ← hmore]
      exact hafter
    · rcases List.mem_append.mp hd with hd | hd
      · exact hsingle hstrict d hd
      · exact hrests hstrict d hd

theorem agrees_bind {f : α → Except Failure β} {g : α → Findings β} (h : Agrees strict x y)
    (hrest : ∀ a, Agrees strict (f a) (g a)) : Agrees strict (x >>= f) (y >>= g) where
  adds := adds_bind h.adds fun a => (hrest a).adds
  ok := by
    intro b hb found
    obtain ⟨a, ha, hb⟩ := bind_eq_ok.mp hb
    rw [run_bind, h.ok a ha found]
    exact (hrest a).ok b hb found
  refused := by
    intro r hr found
    rw [run_bind]
    cases x with
    | error e =>
      cases hr
      rw [h.refused r rfl found]
    | ok a =>
      rw [h.ok a rfl found]
      exact (hrest a).refused r hr found
  failed := by
    intro e he hne
    cases x with
    | error e' =>
      cases he
      obtain ⟨hmembers, hfound⟩ := h.failed e rfl hne
      refine ⟨hmembers, fun found => ?_⟩
      obtain ⟨more, hmore⟩ := hfound found
      obtain ⟨rest, hafter⟩ := run_bind_grows (y := y) (fun a => (hrest a).grows) found
      exact ⟨more ++ rest, by rw [hafter, hmore, List.append_assoc]⟩
    | ok a =>
      obtain ⟨hmembers, hfound⟩ := (hrest a).failed e he hne
      refine ⟨hmembers, fun found => ?_⟩
      rw [run_bind, h.ok a rfl found]
      exact hfound found
  single := by
    intro hstrict e he
    cases x with
    | error e' =>
      cases he
      exact h.single hstrict e rfl
    | ok a => exact (hrest a).single hstrict e he

/-- A step that may fail, reported by either run. -/
theorem agrees_attempt {x : Except Failure α} (hx : strict → Singly x) :
    Agrees strict (attempt x) (attempt x) := by
  match x with
  | .ok a => exact agrees_pure _
  | .error (.diagnostic d) =>
    exact agrees_bind (agrees_report fun h => hx h _ rfl) fun _ => agrees_pure _
  | .error (.collected []) => exact agrees_refuse _
  | .error (.collected (d :: ds)) =>
    have hstrict : ¬ strict := fun h => hx h _ rfl
    exact agrees_bind (agrees_reportGroup (List.cons_ne_nil d ds) hstrict) fun _ => agrees_pure _
  | .error (.refusal r) => exact agrees_refuse r

/-! ## The answers -/

theorem not_clean_of_failed {f : Failure} {a : α} (h : Agrees strict x y) (hf : x = .error f)
    (hne : ∀ r, f ≠ .refusal r) : ¬ Clean y a := by
  intro hclean
  obtain ⟨hmembers, hfound⟩ := h.failed f hf hne
  obtain ⟨more, hmore⟩ := hfound []
  rw [hclean] at hmore
  exact hmembers (List.append_eq_nil_iff.mp (List.append_eq_nil_iff.mp hmore.symm).1).2

/-- The two answers of a check. -/
theorem settle_eq_ok {check : (m : Type → Type) → [Monad m] → [Reports m] → m α}
    (h : Agrees strict (check (Except Failure)) (check Findings)) {collect : Bool} {a : α} :
    settle collect check = .ok a ↔ Clean (check Findings) a := by
  cases collect with
  | true => exact gathered_eq_ok
  | false =>
    change check (Except Failure) = .ok a ↔ _
    constructor
    · intro hfirst
      exact h.ok a hfirst []
    · intro hclean
      cases hfirst : check (Except Failure) with
      | ok b =>
        have hb := h.ok b hfirst []
        rw [hclean] at hb
        cases hb
        rfl
      | error e =>
        cases e with
        | refusal r =>
          have hr := h.refused r hfirst []
          rw [hclean] at hr
          cases hr
        | diagnostic d => exact absurd hclean (not_clean_of_failed h hfirst fun _ => nofun)
        | collected ds => exact absurd hclean (not_clean_of_failed h hfirst fun _ => nofun)

/-- An answer that was come to: it is no refusal. -/
def Carried (x : Except Failure α) : Prop := ∀ r, x ≠ .error (.refusal r)

instance (x : Except Failure α) : Decidable (Carried x) :=
  match x with
  | .ok _ => isTrue fun _ => nofun
  | .error (.diagnostic _) => isTrue fun _ => nofun
  | .error (.collected _) => isTrue fun _ => nofun
  | .error (.refusal r) => isFalse fun h => h r rfl

/-- Two answers that tell the same: one result, or the first mistake and all of them. -/
inductive SameAnswer : Except Failure α → Except Failure α → Prop
  | ok (a : α) : SameAnswer (.ok a) (.ok a)
  | failed (d : Diagnostic) (rest : List Diagnostic)
      (single : ∀ e ∈ d :: rest, e.category ≠ .group) :
      SameAnswer (.error (.diagnostic d)) (.error (.collected (d :: rest)))

theorem sameAnswer_of_agrees {check : (m : Type → Type) → [Monad m] → [Reports m] → m α}
    (h : Agrees True (check (Except Failure)) (check Findings))
    (hcarried : Carried (settle true check)) :
    SameAnswer (settle false check) (settle true check) := by
  change Carried (gathered (check Findings)) at hcarried
  change SameAnswer (check (Except Failure)) (gathered (check Findings))
  unfold gathered at hcarried ⊢
  cases hfirst : check (Except Failure) with
  | ok a =>
    rw [h.ok a hfirst []]
    exact .ok a
  | error f =>
    have hsingle := h.single trivial f hfirst
    cases f with
    | refusal r =>
      rw [h.refused r hfirst []] at hcarried
      exact absurd rfl (hcarried r)
    | collected ds => exact absurd hsingle id
    | diagnostic d =>
      obtain ⟨-, hfound⟩ := h.failed _ hfirst fun _ => nofun
      obtain ⟨rest, hrest⟩ := hfound []
      obtain ⟨more, hmore, hmembers⟩ := h.adds []
      rcases hrun : (check Findings).run.run [] with ⟨r | a, found⟩
      · rw [hrun] at hcarried
        exact absurd rfl (hcarried r)
      · rw [hrun] at hrest hmore
        obtain rfl : found = d :: rest := hrest
        obtain rfl : d :: rest = more := hmore
        exact .failed d rest (hmembers trivial)

/-- What is done with one result answers the same if the results do. -/
theorem sameAnswer_bind {x y : Except Failure α} {f g : α → Except Failure β}
    (h : Carried y → SameAnswer x y)
    (hrest : ∀ a, y = .ok a → Carried (g a) → SameAnswer (f a) (g a))
    (hcarried : Carried (y >>= g)) : SameAnswer (x >>= f) (y >>= g) := by
  have hy : Carried y := by
    rintro r rfl
    exact hcarried r rfl
  cases h hy with
  | ok a => exact hrest a rfl hcarried
  | failed d rest single => exact .failed d rest single

end Findings

end EnergyGraph
