-- The value of an expression under a table of symbols. A reduction binds its symbol and, at its
-- end, puts back what was there, so that an evaluation leaves the table just as it was, also
-- after a failure. What an evaluation gives, and the parts that it comes to on the way, can
-- therefore be told from the values of the parts.
import EnergyGraph.Proofs.Evaluating

namespace EnergyGraph

/-! ## Tables put back -/

namespace Symbols

variable {s : Symbols} {name : String} {j k : Int}

theorem set_set : (s.set name j).set name k = s.set name k := by
  induction s with
  | nil => simp [set]
  | cons p rest ih =>
    obtain ⟨n, v⟩ := p
    by_cases h : n = name <;> simp [set, h, ih]

theorem set_of_lookup (h : s.lookup name = some k) : s.set name k = s := by
  induction s with
  | nil => cases h
  | cons p rest ih =>
    obtain ⟨n, v⟩ := p
    by_cases hn : n = name
    · subst hn
      rw [List.lookup_cons_self] at h
      cases h
      simp [set]
    · have hne : (name == n) = false := by simpa using fun h' => hn h'.symm
      rw [List.lookup_cons, hne] at h
      simp [set, hn, ih h]

theorem erase_of_lookup (h : s.lookup name = none) : s.erase name = s := by
  unfold erase
  rw [List.filter_eq_self]
  intro p hp
  have hne := List.lookup_eq_none_iff.mp h p hp
  simpa [bne, Bool.beq_comm] using hne

theorem erase_set (h : s.lookup name = none) : (s.set name k).erase name = s := by
  induction s with
  | nil => simp [set, erase]
  | cons p rest ih =>
    obtain ⟨n, v⟩ := p
    have hne : (name == n) = false := by
      have hfirst := List.lookup_eq_none_iff.mp h (n, v) List.mem_cons_self
      simpa using hfirst
    rw [List.lookup_cons, hne] at h
    have hn : ¬ n = name := fun h' => by simp [h'] at hne
    have hrest := ih h
    unfold erase at hrest ⊢
    simp [set, hn, hrest]

/-- A table is its own restoration. -/
theorem restore_lookup (s : Symbols) (name : String) : s.restore name (s.lookup name) = s := by
  rcases h : s.lookup name with _ | v
  · exact erase_of_lookup h
  · exact set_of_lookup h

/-- Binding a symbol can be undone. -/
theorem restore_set (s : Symbols) (name : String) (k : Int) :
    (s.set name k).restore name (s.lookup name) = s := by
  rcases h : s.lookup name with _ | v
  · exact erase_set h
  · exact set_set.trans (set_of_lookup h)

end Symbols

variable {α β γ : Type}

namespace Eval

/-! ## Steps that leave the table alone -/

/-- A step has a result under a table, and leaves the table as it is. -/
def Gives (s : Symbols) (m : Eval α β) (x : Except (EvalFailure α) β) : Prop :=
  m.run.run s = (x, s)

variable {s : Symbols}

theorem gives_pure (b : β) : Gives s (pure b : Eval α β) (.ok b) := rfl

theorem gives_throw (e : EvalFailure α) : Gives s (throw e : Eval α β) (.error e) := rfl

theorem gives_ofExcept (x : Except (EvalFailure α) β) :
    Gives s (MonadExcept.ofExcept x : Eval α β) x := by
  cases x <;> rfl

theorem gives_get {f : Symbols → Eval α β} {x : Except (EvalFailure α) β} (h : Gives s (f s) x) :
    Gives s (do f (← get)) x := h

theorem gives_bind {m : Eval α β} {f : β → Eval α γ} {x : Except (EvalFailure α) β}
    {g : β → Except (EvalFailure α) γ} (hm : Gives s m x) (hf : ∀ b, Gives s (f b) (g b)) :
    Gives s (m >>= f) (x >>= g) := by
  unfold Gives at hm ⊢
  rw [run_bind, hm]
  cases x with
  | error e => rfl
  | ok b => exact hf b

/-- The steps of a reduction, from a table in which only its symbol may have changed. -/
theorem run_terms {symbol : String} {body : Eval α β} {value : Int → Except (EvalFailure α) β}
    (f : γ → β → γ) {t : Symbols} (ks : List Int) (acc : γ)
    (hbody : ∀ k, Gives (s.set symbol k) body (value k))
    (hset : ∀ k, t.set symbol k = s.set symbol k)
    (hback : t.restore symbol (s.lookup symbol) = s) :
    ∃ after : Symbols, (ks.foldlM (fun acc k => do
        modify (Symbols.set · symbol k)
        let term ← body
        pure (f acc term)) acc : Eval α γ).run.run t =
          ((ks.mapM value).map fun terms => terms.foldl f acc, after) ∧
      after.restore symbol (s.lookup symbol) = s := by
  induction ks generalizing t acc with
  | nil => exact ⟨t, rfl, hback⟩
  | cons k rest ih =>
    have hstep : (do
        modify (Symbols.set · symbol k)
        let term ← body
        pure (f acc term) : Eval α γ).run.run t =
          (value k >>= fun term => .ok (f acc term), s.set symbol k) := by
      have hterm := gives_bind (hbody k) fun term => gives_pure (α := α) (f acc term)
      rw [← hset k] at hterm ⊢
      exact hterm
    rw [List.foldlM_cons, List.mapM_cons, run_bind, hstep]
    rcases value k with e | term
    · exact ⟨s.set symbol k, rfl, Symbols.restore_set s symbol k⟩
    · obtain ⟨after, hrun, hafter⟩ := ih (f acc term) (fun j => Symbols.set_set)
        (Symbols.restore_set s symbol k)
      refine ⟨after, ?_, hafter⟩
      refine hrun.trans ?_
      rcases rest.mapM value with e | terms <;> rfl

end Eval

namespace Expr

variable [Scalar α] {c : EvalContext α} {s : Symbols}

open Eval (Gives)

/-! ## Values -/

/-- The value of an expression under some symbols, or why it has none. -/
def valueAt (c : EvalContext α) (s : Symbols) (e : Expr) : Except (EvalFailure α) α :=
  (e.evaluate c s).1

theorem valueAt_of_gives {e : Expr} {x : Except (EvalFailure α) α} (h : Gives s (e.eval c) x) :
    e.valueAt c s = x := by
  unfold valueAt evaluate
  rw [h]

theorem gives_evalAll {args : List Expr} {value : Expr → Except (EvalFailure α) α}
    (h : ∀ e ∈ args, Gives s (e.eval c) (value e)) :
    Gives s (evalAll c args) (args.mapM value) := by
  induction args with
  | nil => exact Eval.gives_pure []
  | cons e rest ih =>
    rw [List.mapM_cons]
    refine Eval.gives_bind (h e List.mem_cons_self) fun a => ?_
    exact Eval.gives_bind (ih fun e he => h e (List.mem_cons_of_mem _ he)) fun as =>
      Eval.gives_pure (a :: as)

omit [Scalar α] in
theorem gives_restoring {symbol : String} {body : Eval α β} {x : Except (EvalFailure α) β}
    {after : Symbols} (hrun : body.run.run s = (x, after))
    (hafter : after.restore symbol (s.lookup symbol) = s) :
    Gives s (restoring symbol (s.lookup symbol) body) x := by
  have hrestored : (restoring symbol (s.lookup symbol) body).run.run s =
      ((body.run.run s).1, (body.run.run s).2.restore symbol (s.lookup symbol)) := rfl
  unfold Gives
  rw [hrestored, hrun, hafter]

/-- A reduction undoes what it does to the table. -/
theorem gives_reduction {fold : Fold} {symbol : String} {body : Expr} {span : Span}
    (h : ∀ s, Gives s (body.eval c) (body.valueAt c s)) :
    Gives s ((reduction fold symbol body span).eval c)
      (match c.domains.lookup symbol with
      | none => .error (.lookup (.noDomain symbol))
      | some domain => (domain.mapM fun k => body.valueAt c (s.set symbol k)).map
          fun terms => terms.foldl (step fold) (start fold)) := by
  unfold eval
  rcases c.domains.lookup symbol with _ | domain
  · exact Eval.gives_throw _
  · obtain ⟨after, hrun, hafter⟩ := Eval.run_terms (step fold) domain (start fold)
      (fun k => h (s.set symbol k)) (fun _ => rfl) (Symbols.restore_lookup s symbol)
    exact Eval.gives_get (gives_restoring hrun hafter)

/-- An evaluation leaves the symbols as they were. -/
theorem gives_eval (e : Expr) (s : Symbols) : Gives s (e.eval c) (e.valueAt c s) := by
  -- It is enough that there is some result: it is the value then.
  suffices h : ∃ x, Gives s (e.eval c) x by
    obtain ⟨x, hx⟩ := h
    rwa [valueAt_of_gives hx]
  induction e generalizing s with
  | literal value span =>
    unfold eval
    split
    · exact ⟨_, Eval.gives_pure _⟩
    · exact ⟨_, Eval.gives_throw _⟩
  | ref name indices span =>
    cases indices with
    | nil =>
      unfold eval
      exact ⟨_, Eval.gives_get (Eval.gives_ofExcept _)⟩
    | cons first rest =>
      unfold eval
      exact ⟨_, Eval.gives_get (Eval.gives_ofExcept _)⟩
  | reduction fold symbol body span ih =>
    refine ⟨_, gives_reduction fun t => ?_⟩
    obtain ⟨x, hx⟩ := ih t
    rwa [valueAt_of_gives hx]
  | call function args span ih =>
    have hargs : Gives s (evalAll c args) (args.mapM (valueAt c s)) := by
      refine gives_evalAll fun a ha => ?_
      obtain ⟨x, hx⟩ := ih a ha s
      rwa [valueAt_of_gives hx]
    unfold eval
    exact ⟨_, Eval.gives_bind hargs fun _ => Eval.gives_ofExcept _⟩
  | binary op left right span ihl ihr =>
    obtain ⟨x, hx⟩ := ihl s
    obtain ⟨y, hy⟩ := ihr s
    unfold eval
    exact ⟨_, Eval.gives_bind hx fun a => Eval.gives_bind hy fun b => Eval.gives_ofExcept _⟩
  | negate operand span ih =>
    obtain ⟨x, hx⟩ := ih s
    unfold eval
    exact ⟨_, Eval.gives_bind hx fun a => Eval.gives_pure (-a)⟩

section

variable {function : Builtin} {args : List Expr} {op : Operator} {left right operand body : Expr}
  {span : Span} {name symbol : String} {first : Index} {rest : List Index} {fold : Fold}

theorem valueAt_literal {value : Number} : (literal value span).valueAt c s =
    match (Scalar.ofNumber? value : Option α) with
    | some x => .ok x
    | none => .error (.refusal .tooLarge) := by
  apply valueAt_of_gives
  unfold eval
  cases (Scalar.ofNumber? value : Option α) <;> rfl

theorem valueAt_name : (ref name [] span).valueAt c s = scalarNamed c s name := by
  apply valueAt_of_gives
  unfold eval
  exact Eval.gives_get (Eval.gives_ofExcept _)

theorem valueAt_cell :
    (ref name (first :: rest) span).valueAt c s = cellNamed c s name (first :: rest) := by
  apply valueAt_of_gives
  unfold eval
  exact Eval.gives_get (Eval.gives_ofExcept _)

theorem valueAt_reduction : (reduction fold symbol body span).valueAt c s =
    match c.domains.lookup symbol with
    | none => .error (.lookup (.noDomain symbol))
    | some domain => (domain.mapM fun k => body.valueAt c (s.set symbol k)).map
        fun terms => terms.foldl (step fold) (start fold) :=
  valueAt_of_gives (gives_reduction fun t => gives_eval body t)

theorem valueAt_call :
    (call function args span).valueAt c s = args.mapM (valueAt c s) >>= applyBuiltin function := by
  apply valueAt_of_gives
  unfold eval
  exact Eval.gives_bind (gives_evalAll fun a _ => gives_eval a s) fun _ => Eval.gives_ofExcept _

theorem valueAt_binary : (binary op left right span).valueAt c s =
    left.valueAt c s >>= fun a => right.valueAt c s >>= applyOperator op a := by
  apply valueAt_of_gives
  unfold eval
  exact Eval.gives_bind (gives_eval left s) fun _ =>
    Eval.gives_bind (gives_eval right s) fun _ => Eval.gives_ofExcept _

theorem valueAt_negate :
    (negate operand span).valueAt c s = operand.valueAt c s >>= fun a => .ok (-a) := by
  apply valueAt_of_gives
  unfold eval
  exact Eval.gives_bind (gives_eval operand s) fun a => Eval.gives_pure (-a)

end

/-! ## Parts that an evaluation comes to -/

/-- The evaluation of an expression under some symbols comes to a part of it, with the symbols `t`:
all that is evaluated before has a value. -/
inductive Visits (c : EvalContext α) (t : Symbols) (part : Expr) : Symbols → Expr → Prop
  | here : Visits c t part t part
  | operand {s operand span} (h : Visits c t part s operand) :
    Visits c t part s (.negate operand span)
  | left {s op left right span} (h : Visits c t part s left) :
    Visits c t part s (.binary op left right span)
  | right {s op left right span x} (hleft : left.valueAt c s = .ok x)
    (h : Visits c t part s right) : Visits c t part s (.binary op left right span)
  | argument {s function before a after span} (hbefore : ∀ b ∈ before, ∃ x, b.valueAt c s = .ok x)
    (h : Visits c t part s a) : Visits c t part s (.call function (before ++ a :: after) span)
  | body {s fold symbol body span before k after}
    (hdomain : c.domains.lookup symbol = some (before ++ k :: after))
    (hbefore : ∀ j ∈ before, ∃ x, body.valueAt c (s.set symbol j) = .ok x)
    (h : Visits c t part (s.set symbol k) body) :
    Visits c t part s (.reduction fold symbol body span)

theorem Visits.trans {t u : Symbols} {part inner e : Expr} (h : Visits c t part s e)
    (hinner : Visits c u inner t part) : Visits c u inner s e := by
  induction h with
  | here => exact hinner
  | operand _ ih => exact .operand ih
  | left _ ih => exact .left ih
  | right hleft _ ih => exact .right hleft ih
  | argument hbefore _ ih => exact .argument hbefore ih
  | body hdomain hbefore _ ih => exact .body hdomain hbefore ih

/-- What an evaluation comes to is a part of the expression. -/
theorem Visits.mem_walk {t : Symbols} {part e : Expr} (h : Visits c t part s e) :
    .expr part ∈ e.walk := by
  induction h with
  | here =>
    rw [walk_eq]
    exact List.mem_cons_self
  | operand _ ih =>
    rw [walk_negate]
    exact List.mem_cons_of_mem _ ih
  | left _ ih =>
    rw [walk_binary]
    exact List.mem_cons_of_mem _ (List.mem_append_left _ ih)
  | right _ _ ih =>
    rw [walk_binary]
    exact List.mem_cons_of_mem _ (List.mem_append_right _ ih)
  | argument _ _ ih =>
    rw [walk_call]
    exact List.mem_cons_of_mem _ (List.mem_flatMap.mpr ⟨_, by simp, ih⟩)
  | body _ _ _ ih =>
    rw [walk_reduction]
    exact List.mem_cons_of_mem _ ih

/-- An evaluation comes to a part of which something holds. -/
def Meets (c : EvalContext α) (P : Symbols → Expr → Prop) (s : Symbols) (e : Expr) : Prop :=
  ∃ t part, Visits c t part s e ∧ P t part

section

variable {P : Symbols → Expr → Prop} {function : Builtin} {args : List Expr} {op : Operator}
  {left right operand body : Expr} {span : Span} {symbol : String} {fold : Fold}

theorem meets_literal {value : Number} :
    Meets c P s (.literal value span) ↔ P s (.literal value span) := by
  constructor
  · rintro ⟨t, part, h, hpart⟩
    cases h
    exact hpart
  · exact fun h => ⟨s, _, .here, h⟩

theorem meets_ref {name : String} {indices : List Index} :
    Meets c P s (.ref name indices span) ↔ P s (.ref name indices span) := by
  constructor
  · rintro ⟨t, part, h, hpart⟩
    cases h
    exact hpart
  · exact fun h => ⟨s, _, .here, h⟩

theorem meets_negate : Meets c P s (.negate operand span) ↔
    P s (.negate operand span) ∨ Meets c P s operand := by
  constructor
  · rintro ⟨t, part, h, hpart⟩
    cases h with
    | here => exact Or.inl hpart
    | operand h => exact Or.inr ⟨t, part, h, hpart⟩
  · rintro (h | ⟨t, part, h, hpart⟩)
    · exact ⟨s, _, .here, h⟩
    · exact ⟨t, part, .operand h, hpart⟩

theorem meets_binary : Meets c P s (.binary op left right span) ↔
    P s (.binary op left right span) ∨ Meets c P s left ∨
      ∃ x, left.valueAt c s = .ok x ∧ Meets c P s right := by
  constructor
  · rintro ⟨t, part, h, hpart⟩
    cases h with
    | here => exact Or.inl hpart
    | left h => exact Or.inr (Or.inl ⟨t, part, h, hpart⟩)
    | right hleft h => exact Or.inr (Or.inr ⟨_, hleft, t, part, h, hpart⟩)
  · rintro (h | ⟨t, part, h, hpart⟩ | ⟨x, hleft, t, part, h, hpart⟩)
    · exact ⟨s, _, .here, h⟩
    · exact ⟨t, part, .left h, hpart⟩
    · exact ⟨t, part, .right hleft h, hpart⟩

/-- The arguments of a call are gone through from left to right. -/
theorem meets_call : Meets c P s (.call function args span) ↔
    P s (.call function args span) ∨ ∃ before a after, args = before ++ a :: after ∧
      (∀ b ∈ before, ∃ x, b.valueAt c s = .ok x) ∧ Meets c P s a := by
  constructor
  · rintro ⟨t, part, h, hpart⟩
    cases h with
    | here => exact Or.inl hpart
    | argument hbefore h => exact Or.inr ⟨_, _, _, rfl, hbefore, t, part, h, hpart⟩
  · rintro (h | ⟨before, a, after, rfl, hbefore, t, part, h, hpart⟩)
    · exact ⟨s, _, .here, h⟩
    · exact ⟨t, part, .argument hbefore h, hpart⟩

/-- The body of a reduction is gone through once for each value of its symbol. -/
theorem meets_reduction : Meets c P s (.reduction fold symbol body span) ↔
    P s (.reduction fold symbol body span) ∨ ∃ before k after,
      c.domains.lookup symbol = some (before ++ k :: after) ∧
        (∀ j ∈ before, ∃ x, body.valueAt c (s.set symbol j) = .ok x) ∧
          Meets c P (s.set symbol k) body := by
  constructor
  · rintro ⟨t, part, h, hpart⟩
    cases h with
    | here => exact Or.inl hpart
    | body hdomain hbefore h => exact Or.inr ⟨_, _, _, hdomain, hbefore, t, part, h, hpart⟩
  · rintro (h | ⟨before, k, after, hdomain, hbefore, t, part, h, hpart⟩)
    · exact ⟨s, _, .here, h⟩
    · exact ⟨t, part, .body hdomain hbefore h, hpart⟩

end

end Expr

end EnergyGraph
