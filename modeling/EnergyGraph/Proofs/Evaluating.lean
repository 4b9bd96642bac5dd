-- When an evaluation finds every name that it looks up. An expression is ready under
-- some symbols if each of its names stands for something; the judgement follows the
-- structure of the expression, with one more symbol inside of each reduction. What a
-- reduction does to the table of symbols is undone at its end, so that readiness is
-- never lost on the way.
import EnergyGraph.Proofs.CleanRuns
import EnergyGraph.Proofs.Walking
import EnergyGraph.Expr.Eval
import EnergyGraph.Component.Bounds

namespace EnergyGraph

/-! ## Tables of symbols -/

namespace Symbols

variable {s t u : Symbols} {name other : String} {k : Int}

theorem lookup_set_self : (s.set name k).lookup name = some k := by
  induction s with
  | nil => simp [set]
  | cons p rest ih =>
    obtain ⟨n, v⟩ := p
    unfold set
    by_cases h : n = name
    · simp [h]
    · have hne : (name == n) = false := by simpa using fun h' => h h'.symm
      simp [h, List.lookup_cons, hne, ih]

theorem lookup_set_ne (h : other ≠ name) : (s.set name k).lookup other = s.lookup other := by
  induction s with
  | nil =>
    have hne : (other == name) = false := by simpa using h
    simp [set, List.lookup_cons, hne]
  | cons p rest ih =>
    obtain ⟨n, v⟩ := p
    unfold set
    by_cases hn : n = name
    · subst hn
      have hne : (other == n) = false := by simpa using h
      simp [List.lookup_cons, hne]
    · simp only [beq_eq_false_iff_ne.mpr hn, Bool.false_eq_true, if_false, List.lookup_cons, ih]

theorem lookup_erase_self : (s.erase name).lookup name = none := by
  unfold erase
  rw [List.lookup_eq_none_iff]
  intro p hp
  have hne := (List.mem_filter.mp hp).2
  simp only [bne_iff_ne, ne_eq] at hne ⊢
  exact fun h => hne h.symm

theorem lookup_erase_ne (h : other ≠ name) : (s.erase name).lookup other = s.lookup other := by
  induction s with
  | nil => rfl
  | cons p rest ih =>
    obtain ⟨n, v⟩ := p
    unfold erase at ih ⊢
    by_cases hn : n = name
    · subst hn
      have hne : (other == n) = false := by simpa using h
      simp only [List.filter_cons, bne_self_eq_false, Bool.false_eq_true, if_false,
        List.lookup_cons, hne, ih]
    · have hkeep : (n != name) = true := by simpa using hn
      simp only [List.filter_cons, hkeep, if_true, List.lookup_cons, ih]

theorem lookup_restore_self {before : Option Int} :
    (s.restore name before).lookup name = before := by
  cases before with
  | none => exact lookup_erase_self
  | some k => exact lookup_set_self

theorem lookup_restore_ne {before : Option Int} (h : other ≠ name) :
    (s.restore name before).lookup other = s.lookup other := by
  cases before with
  | none => exact lookup_erase_ne h
  | some k => exact lookup_set_ne h

/-- Two tables give the same values. -/
def Agrees (s t : Symbols) : Prop := ∀ name, t.lookup name = s.lookup name

/-- Two tables give the same values to all symbols but one. -/
def AgreesOff (symbol : String) (s t : Symbols) : Prop :=
  ∀ name, name ≠ symbol → t.lookup name = s.lookup name

theorem Agrees.refl (s : Symbols) : Agrees s s := fun _ => rfl

theorem Agrees.off (h : Agrees s t) (symbol : String) : AgreesOff symbol s t :=
  fun name _ => h name

theorem AgreesOff.trans {symbol : String} (h : AgreesOff symbol s t) (h' : AgreesOff symbol t u) :
    AgreesOff symbol s u :=
  fun name hne => (h' name hne).trans (h name hne)

theorem agreesOff_set (s : Symbols) (symbol : String) (k : Int) :
    AgreesOff symbol s (s.set symbol k) :=
  fun _ hne => lookup_set_ne hne

/-- Whatever a reduction did to its symbol is undone. -/
theorem AgreesOff.restore {symbol : String} (h : AgreesOff symbol s t) :
    Agrees s (t.restore symbol (s.lookup symbol)) := by
  intro name
  by_cases hname : name = symbol
  · rw [hname, lookup_restore_self]
  · rw [lookup_restore_ne hname, h name hname]

end Symbols

/-! ## Steps of an evaluation -/

variable {α β γ : Type}

/-- A failed look-up. -/
def EvalFailure.isLookup : EvalFailure α → Bool
  | .lookup _ => true
  | _ => false

/-- What fails without a look-up fails the same when only failed look-ups are told in another
way. -/
theorem mapError_of_not_lookup {x : Except (EvalFailure α) β} {tell : EvalFailure α → EvalFailure α}
    (htell : ∀ f, f.isLookup = false → tell f = f)
    (h : ∀ f, x = .error f → f.isLookup = false) : x.mapError tell = x := by
  cases x with
  | ok b => rfl
  | error f => exact congrArg Except.error (htell f (h f rfl))

namespace Eval

/-- A step does not fail by a look-up, and what it succeeds with has a property that the table
of symbols had before. -/
def Keeps (P : Symbols → Prop) (m : Eval α β) : Prop :=
  ∀ s, P s → match m.run.run s with
    | (.ok _, after) => P after
    | (.error e, _) => e.isLookup = false

variable {P Q : Symbols → Prop}

theorem run_bind (m : Eval α β) (f : β → Eval α γ) (s : Symbols) :
    (m >>= f).run.run s =
      match m.run.run s with
      | (.ok b, after) => (f b).run.run after
      | (.error e, after) => (.error e, after) := by
  rw [ExceptT.run_bind, StateT.run_bind]
  rcases m.run.run s with ⟨_ | _, _⟩ <;> rfl

theorem keeps_pure (b : β) : Keeps P (pure b : Eval α β) := fun _ h => h

theorem keeps_throw {e : EvalFailure α} (h : e.isLookup = false) :
    Keeps P (throw e : Eval α β) := fun _ _ => h

theorem keeps_bind {m : Eval α β} {f : β → Eval α γ} (hm : Keeps P m) (hf : ∀ b, Keeps P (f b)) :
    Keeps P (m >>= f) := by
  intro s hs
  have hfirst := hm s hs
  rw [run_bind]
  rcases hrun : m.run.run s with ⟨e | b, after⟩
  · rw [hrun] at hfirst
    exact hfirst
  · rw [hrun] at hfirst
    exact hf b after hfirst

/-- A step may look at the table. -/
theorem keeps_get {f : Symbols → Eval α β} (hf : ∀ s, P s → Keeps P (f s)) :
    Keeps P (do f (← get)) :=
  fun s hs => hf s hs s hs

theorem keeps_ofExcept {x : Except (EvalFailure α) β} (h : ∀ e, x = .error e → e.isLookup = false) :
    Keeps P (MonadExcept.ofExcept x : Eval α β) := by
  cases x with
  | ok b => exact keeps_pure b
  | error e => exact keeps_throw (h e rfl)

/-- After a change of the table, a step may keep another property that gives the first one back. -/
theorem keeps_modify {f : Symbols → Symbols} {m : Eval α β}
    (h : ∀ s, P s → ∃ Q : Symbols → Prop, Q (f s) ∧ Keeps Q m ∧ ∀ t, Q t → P t) :
    Keeps P (do modify f; m) := by
  intro s hs
  obtain ⟨Q, hQ, hm, hP⟩ := h s hs
  have hkeeps := hm (f s) hQ
  have hrun : (do modify f; m : Eval α β).run.run s = m.run.run (f s) := rfl
  rw [hrun]
  rcases hresult : m.run.run (f s) with ⟨e | b, after⟩
  · rw [hresult] at hkeeps
    exact hkeeps
  · rw [hresult] at hkeeps
    exact hP after hkeeps

theorem keeps_foldlM {f : β → γ → Eval α β} {b : β} {ks : List γ}
    (hf : ∀ b, ∀ k ∈ ks, Keeps P (f b k)) : Keeps P (ks.foldlM f b) := by
  induction ks generalizing b with
  | nil => exact keeps_pure b
  | cons k rest ih =>
    rw [List.foldlM_cons]
    exact keeps_bind (hf b k List.mem_cons_self) fun b =>
      ih fun b k hk => hf b k (List.mem_cons_of_mem _ hk)

end Eval

/-! ## Readiness -/

namespace Expr

/-- An index stays within its axis, whichever of its values a symbol has. -/
def IndexFits (range : String → Int → Prop) (base : Int) (i : Index) (dimension : Nat) : Prop :=
  match i with
  | .literal n _ => Bounds.isInside base dimension n = true
  | .symbol name _ => ∀ k, range name k → Bounds.isInside base dimension k = true

/-- The symbols among some indices are known. -/
def AllKnown (known : List String) (indices : List Index) : Prop :=
  ∀ name span, Index.symbol name span ∈ indices → name ∈ known

/-- Every name of an expression stands for something: for a symbol that is known, or for an
array. `range` tells the values that a symbol may have. -/
inductive Ready (c : EvalContext α) (range : String → Int → Prop) : List String → Expr → Prop
  | literal {known value span} : Ready c range known (.literal value span)
  | symbol {known name span} (h : name ∈ known) : Ready c range known (.ref name [] span)
  | single {known name span t} (h : c.arrays.lookup name = some t) (hsize : t.cells.size = 1) :
    Ready c range known (.ref name [] span)
  | cell {known name first rest span t} (h : c.arrays.lookup name = some t)
    (hknown : AllKnown known (first :: rest))
    (hfits : List.Forall₂ (IndexFits range c.base) (first :: rest) t.shape) :
    Ready c range known (.ref name (first :: rest) span)
  | reduction {known fold symbol body span domain} (h : c.domains.lookup symbol = some domain)
    (hrange : ∀ k ∈ domain, range symbol k) (hbody : Ready c range (symbol :: known) body) :
    Ready c range known (.reduction fold symbol body span)
  | call {known function args span} (h : ∀ e ∈ args, Ready c range known e) :
    Ready c range known (.call function args span)
  | binary {known op left right span} (hleft : Ready c range known left)
    (hright : Ready c range known right) : Ready c range known (.binary op left right span)
  | negate {known operand span} (h : Ready c range known operand) :
    Ready c range known (.negate operand span)

/-- The known symbols have values, and none but those that they may have. -/
def Bound (range : String → Int → Prop) (known : List String) (s : Symbols) : Prop :=
  ∀ name ∈ known, ∃ k, s.lookup name = some k ∧ range name k

variable [Scalar α] {c : EvalContext α} {range : String → Int → Prop} {known : List String}
  {s t : Symbols} {e : Expr}

omit [Scalar α] in
theorem Bound.congr (h : Bound range known s) (hst : s.Agrees t) : Bound range known t := by
  intro name hname
  rw [hst name]
  exact h name hname

omit [Scalar α] in
theorem Bound.set {symbol : String} {k : Int} (h : Bound range known s) (hst : s.AgreesOff symbol t)
    (hk : range symbol k) : Bound range (symbol :: known) (t.set symbol k) := by
  intro name hname
  by_cases hsymbol : name = symbol
  · subst hsymbol
    exact ⟨k, Symbols.lookup_set_self, hk⟩
  · rw [Symbols.lookup_set_ne hsymbol, hst name hsymbol]
    exact h name ((List.mem_cons.mp hname).resolve_left hsymbol)

/-! ## Names -/

theorem scalarNamed_of_symbol {name : String} {k : Int} (h : s.lookup name = some k)
    {e : EvalFailure α} (he : scalarNamed c s name = .error e) : e.isLookup = false := by
  unfold scalarNamed at he
  rw [h] at he
  dsimp only at he
  split at he
  · cases he
  · cases he
    rfl

/-- An array with one cell stands for its cell, unless there is a symbol of that name. -/
theorem scalarNamed_of_single {name : String} {a : Tensor α} (h : c.arrays.lookup name = some a)
    (hsize : a.cells.size = 1) {e : EvalFailure α} (he : scalarNamed c s name = .error e) :
    e.isLookup = false := by
  rcases hs : s.lookup name with _ | k
  · unfold scalarNamed at he
    rw [hs, h] at he
    have honly : a.only? = some a.cells[0] := by
      unfold Tensor.only?
      rw [if_pos hsize, Array.getElem?_eq_getElem]
    simp [honly] at he
  · exact scalarNamed_of_symbol hs he

omit [Scalar α] in
/-- The values of the indices are found, and stay within the axes. -/
theorem keys_of_fits {base : Int} {indices : List Index} {shape : Shape} (hs : Bound range known s)
    (hknown : AllKnown known indices) (h : List.Forall₂ (IndexFits range base) indices shape) :
    ∃ keys, indices.mapM (indexValue (α := α) s) = .ok keys ∧
      List.Forall₂ (fun k d => Bounds.isInside base d k = true) keys shape := by
  induction h with
  | nil => exact ⟨[], rfl, .nil⟩
  | @cons i d indices shape hi _ ih =>
    obtain ⟨keys, hkeys, hinside⟩ := ih fun name span hmem =>
      hknown name span (List.mem_cons_of_mem i hmem)
    obtain ⟨k, hk, hd⟩ : ∃ k, indexValue (α := α) s i = .ok k ∧
        Bounds.isInside base d k = true := by
      cases i with
      | literal n span => exact ⟨n, rfl, hi⟩
      | symbol name span =>
        obtain ⟨k, hk, hrange⟩ := hs name (hknown name span List.mem_cons_self)
        exact ⟨k, by simp [indexValue, hk], hi k hrange⟩
    refine ⟨k :: keys, ?_, .cons hd hinside⟩
    rw [List.mapM_cons, hk, hkeys]
    rfl

/-- No key is found outside of its axis exactly if all are inside. -/
theorem outside_eq_none_iff {keys : List Int} {shape : Shape} {base : Int}
    (hlength : keys.length = shape.length) :
    ((keys.zip shape).zipIdx).find? (fun ((k, d), _) =>
      k - base < 0 || k - base ≥ (d : Int)) = none ↔
      List.Forall₂ (fun k d => Bounds.isInside base d k = true) keys shape := by
  have hpair : ∀ (k : Int) (d : Nat), ¬ (k - base < 0 ∨ k - base ≥ (d : Int)) ↔
      Bounds.isInside base d k = true := by
    intro k d
    unfold Bounds.isInside
    simp only [Bool.and_eq_true, decide_eq_true_eq]
    omega
  rw [List.find?_eq_none, List.forall₂_iff_zip]
  simp only [Bool.or_eq_true, decide_eq_true_eq]
  constructor
  · refine fun h => ⟨hlength, fun {k d} hmem => ?_⟩
    obtain ⟨axis, haxis⟩ := List.mem_iff_getElem?.mp hmem
    exact (hpair k d).mp (h _ (List.mk_mem_zipIdx_iff_getElem?.mpr haxis))
  · rintro ⟨-, h⟩ ⟨⟨k, d⟩, axis⟩ hmem
    exact (hpair k d).mpr (h (List.fst_mem_of_mem_zipIdx hmem))

omit [Scalar α] in
theorem cellAt_of_inside {name : String} {a : Tensor α} {keys : List Int} {base : Int}
    (h : List.Forall₂ (fun k d => Bounds.isInside base d k = true) keys a.shape)
    {e : EvalFailure α} (he : cellAt name a keys base = .error e) : e.isLookup = false := by
  unfold cellAt at he
  have hlength : keys.length = a.rank := h.length_eq
  rw [if_neg (not_not.mpr hlength)] at he
  simp only [(outside_eq_none_iff hlength).mpr h] at he
  split at he
  · cases he
  · cases he
    rfl

omit [Scalar α] in
theorem cellNamed_of_fits {name : String} {indices : List Index} {a : Tensor α}
    (h : c.arrays.lookup name = some a) (hs : Bound range known s)
    (hknown : AllKnown known indices)
    (hfits : List.Forall₂ (IndexFits range c.base) indices a.shape) {e : EvalFailure α}
    (he : cellNamed c s name indices = .error e) : e.isLookup = false := by
  obtain ⟨keys, hkeys, hinside⟩ := keys_of_fits (α := α) hs hknown hfits
  unfold cellNamed at he
  rw [h] at he
  simp only [hkeys] at he
  exact cellAt_of_inside hinside he

/-! ## Expressions -/

omit [Scalar α] in
/-- A reduction may do what it likes to its own symbol. -/
theorem keeps_restoring {β : Type} {symbol : String} {before : Option Int} {body : Eval α β}
    (hbefore : s.lookup symbol = before) (h : Eval.Keeps (s.AgreesOff symbol) body) :
    Eval.Keeps s.Agrees (restoring symbol before body) := by
  intro t ht
  have hbody := h t (ht.off symbol)
  have hrun : (restoring symbol before body).run.run t =
      ((body.run.run t).1, (body.run.run t).2.restore symbol before) := rfl
  rw [hrun]
  rcases hresult : body.run.run t with ⟨e | b, after⟩
  · rw [hresult] at hbody
    exact hbody
  · rw [hresult] at hbody
    rw [← hbefore]
    exact hbody.restore

theorem keeps_evalAll {args : List Expr} {P : Symbols → Prop}
    (h : ∀ e ∈ args, Eval.Keeps P (e.eval c)) : Eval.Keeps P (evalAll c args) := by
  induction args with
  | nil => exact Eval.keeps_pure []
  | cons e rest ih =>
    refine Eval.keeps_bind (h e List.mem_cons_self) fun _ => ?_
    exact Eval.keeps_bind (ih fun e he => h e (List.mem_cons_of_mem _ he)) fun _ =>
      Eval.keeps_pure _

omit [Scalar α] in
theorem domain_or_ok {p : Prop} [Decidable p] {v : DomainViolation α} {x : α} {e : EvalFailure α}
    (h : (if p then .error (.domain v) else .ok x : Except (EvalFailure α) α) = .error e) :
    e.isLookup = false := by
  by_cases hp : p
  · rw [if_pos hp] at h
    cases h
    rfl
  · rw [if_neg hp] at h
    cases h

/-- An operation may be outside of its domain, but looks nothing up. -/
theorem applyOperator_not_lookup {op : Operator} {left right : α} {e : EvalFailure α}
    (h : applyOperator op left right = .error e) : e.isLookup = false := by
  cases op with
  | add => exact domain_or_ok h
  | sub => exact domain_or_ok h
  | mul => exact domain_or_ok h
  | div => exact domain_or_ok h
  | pow =>
    unfold applyOperator power at h
    dsimp only at h
    split at h
    · cases h
      rfl
    · split at h
      · cases h
        rfl
      · exact domain_or_ok h

theorem applyUnary_not_lookup {function : Builtin} {x : α} {e : EvalFailure α}
    (h : applyUnary function x = .error e) : e.isLookup = false := by
  cases function with
  | sqrt => exact domain_or_ok h
  | exp => exact domain_or_ok h
  | log => exact domain_or_ok h
  | sin => exact domain_or_ok h
  | cos => exact domain_or_ok h
  | tan => exact domain_or_ok h
  | abs => cases h
  | sum => cases h
  | prod => cases h
  | max =>
    cases h
    rfl
  | min =>
    cases h
    rfl

theorem applyBuiltin_not_lookup {function : Builtin} {args : List α} {e : EvalFailure α}
    (h : applyBuiltin function args = .error e) : e.isLookup = false := by
  unfold applyBuiltin at h
  split at h
  · cases h
  · cases h
  · cases h
  · cases h
  · exact applyUnary_not_lookup h
  · cases h
    rfl

/-- The evaluation of an expression that is ready never fails by a look-up, and leaves the
symbols with the values that they had. -/
theorem keeps_eval (he : Ready c range known e) (hs : Bound range known s) :
    Eval.Keeps s.Agrees (e.eval c) := by
  induction he generalizing s with
  | @literal known value span =>
    unfold eval
    split
    · exact Eval.keeps_pure _
    · exact Eval.keeps_throw rfl
  | @symbol known name span hname =>
    unfold eval
    refine Eval.keeps_get fun t ht => Eval.keeps_ofExcept fun e he => ?_
    obtain ⟨k, hk, -⟩ := hs.congr ht name hname
    exact scalarNamed_of_symbol hk he
  | @single known name span a ha hsize =>
    unfold eval
    exact Eval.keeps_get fun t _ => Eval.keeps_ofExcept fun e he =>
      scalarNamed_of_single ha hsize he
  | @cell known name first rest span a ha hknown hfits =>
    unfold eval
    exact Eval.keeps_get fun t ht => Eval.keeps_ofExcept fun e he =>
      cellNamed_of_fits ha (hs.congr ht) hknown hfits he
  | @reduction known fold symbol body span domain hdomain hrange _ ih =>
    unfold eval
    rw [hdomain]
    refine Eval.keeps_get fun t ht => keeps_restoring (ht symbol).symm ?_
    refine Eval.keeps_foldlM fun acc k hk => Eval.keeps_modify fun u hu => ?_
    refine ⟨(u.set symbol k).Agrees, Symbols.Agrees.refl _, ?_, ?_⟩
    · exact Eval.keeps_bind (ih (hs.set hu (hrange k hk))) fun _ => Eval.keeps_pure _
    · exact fun v hv => (hu.trans (Symbols.agreesOff_set u symbol k)).trans (hv.off symbol)
  | call _ ih =>
    unfold eval
    exact Eval.keeps_bind (keeps_evalAll fun e he => ih e he hs) fun _ =>
      Eval.keeps_ofExcept fun _ => applyBuiltin_not_lookup
  | binary _ _ ihl ihr =>
    unfold eval
    exact Eval.keeps_bind (ihl hs) fun _ => Eval.keeps_bind (ihr hs) fun _ =>
      Eval.keeps_ofExcept fun _ => applyOperator_not_lookup
  | negate _ ih =>
    unfold eval
    exact Eval.keeps_bind (ih hs) fun _ => Eval.keeps_pure _

end Expr

end EnergyGraph
