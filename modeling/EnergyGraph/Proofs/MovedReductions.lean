-- Reducing inside of a term and aggregating outside of it. The aggregate of a term runs through
-- all tuples of its free symbols in one order. With one of the symbols reduced inside of the
-- term, the tuples of the others are run through and the values of the symbol within each of
-- them. In exact arithmetic sums and products do not depend on the order. Failures could: but
-- an evaluation is refused for its form only, so that a refusal comes at the first tuple or
-- not at all, and the first tuple is the same in both orders.
import EnergyGraph.Proofs.Exact
import EnergyGraph.Proofs.LexicalScope
import EnergyGraph.Proofs.ReducedTerms
import EnergyGraph.Proofs.Refusals
import EnergyGraph.Proofs.ShiftedEnergy
import EnergyGraph.Proofs.TupleOrders

namespace EnergyGraph

/-! ## Sums and products -/

namespace Fold

/-- The sum or the product of some real numbers. -/
def total (fold : Fold) (xs : List ℝ) : ℝ :=
  match fold with
  | .sum => xs.sum
  | .prod => xs.prod

/-- The aggregator that does the same as a reduction. -/
def aggregator : Fold → Aggregator.Kind
  | .sum => .sum
  | .prod => .prod

variable {fold : Fold} {xs ys : List ℝ}

theorem total_append : fold.total (xs ++ ys) = fold.total [fold.total xs, fold.total ys] := by
  cases fold <;> simp [total]

theorem total_cons (x : ℝ) : fold.total (x :: xs) = fold.total [x, fold.total xs] := by
  cases fold <;> simp [total]

theorem total_perm (h : xs.Perm ys) : fold.total xs = fold.total ys := by
  cases fold with
  | sum => exact h.sum_eq
  | prod => exact h.prod_eq

/-- A reduction comes to the total. -/
theorem foldl_step : xs.foldl (Expr.step fold) (Expr.start fold) = fold.total xs := by
  cases fold with
  | sum =>
    rw [Expr.start, Exact.zero_eq, total, List.sum_eq_foldl]
    rfl
  | prod =>
    rw [Expr.start, Exact.one_eq, total, List.prod_eq_foldl]
    rfl

end Fold

namespace Aggregator

variable {fold : Fold} {xs : List ℝ}

theorem result_sum (n : Nat) (x : ℝ) :
    (xs.foldl Accumulator.push (.sum n x)).result = .ok (x + xs.sum) := by
  induction xs generalizing n x with
  | nil => rw [List.sum_nil, add_zero]; rfl
  | cons y rest ih =>
    rw [List.foldl_cons, List.sum_cons, ← add_assoc]
    exact ih (n + 1) (x + y)

/-- A product that is told to have a zero factor has one. -/
theorem result_prod (n : Nat) (x : ℝ) (hasZero : Bool) (h : hasZero = true → x = 0) :
    (xs.foldl Accumulator.push (.prod n x hasZero)).result = .ok (x * xs.prod) := by
  induction xs generalizing n x hasZero with
  | nil =>
    change Except.ok (if hasZero then (Scalar.zero : ℝ) else x) = _
    rw [List.prod_nil, mul_one, Exact.zero_eq]
    by_cases hzero : hasZero = true
    · rw [if_pos hzero, h hzero]
    · rw [if_neg hzero]
  | cons y rest ih =>
    rw [List.foldl_cons, List.prod_cons, ← mul_assoc]
    refine ih (n + 1) (x * y) (hasZero || Scalar.eq y Scalar.zero) fun hzero => ?_
    rcases Bool.or_eq_true_iff.mp hzero with hbefore | hy
    · rw [h hbefore, zero_mul]
    · have hy : y = Scalar.zero := of_decide_eq_true hy
      rw [hy, Exact.zero_eq, mul_zero]

/-- An aggregate comes to the total. -/
theorem aggregate_total {a : Aggregator ℝ} (h : a.kind = fold.aggregator) :
    a.aggregate xs = .ok (fold.total xs) := by
  unfold aggregate start
  rw [h]
  cases fold with
  | sum =>
    refine (result_sum 0 Scalar.zero).trans ?_
    rw [Exact.zero_eq, zero_add]
    rfl
  | prod =>
    refine (result_prod 0 Scalar.one false (fun h => nomatch h)).trans ?_
    rw [Exact.one_eq, one_mul]
    rfl

end Aggregator

/-! ## Orders of evaluation -/

/-- Two evaluations have the same value, and one is refused as the other is. -/
structure SameOutcome (x y : Except (EvalFailure ℝ) ℝ) : Prop where
  ok : ∀ v, x = .ok v ↔ y = .ok v
  refused : ∀ kind, x = .error (.refusal kind) ↔ y = .error (.refusal kind)

section

variable {ι κ : Type} {fold : Fold} {g : ι → Except (EvalFailure ℝ) ℝ}

/-- The total of totals is the total of all. -/
theorem mapM_flatMap_total (join : κ → Int → ι) (xs : List κ) (ks : List Int) :
    (xs.mapM fun x => (ks.mapM fun k => g (join x k)).map fold.total).map fold.total =
      ((xs.flatMap fun x => ks.map (join x)).mapM g).map fold.total := by
  induction xs with
  | nil => rfl
  | cons x rest ih =>
    rw [List.mapM_cons, List.flatMap_cons, List.mapM_append, List.mapM_map]
    change _ = Except.map _ (ks.mapM (fun k => g (join x k)) >>= _)
    cases ks.mapM fun k => g (join x k) with
    | error e => rfl
    | ok values =>
      cases hrest : (rest.flatMap fun x => ks.map (join x)).mapM g with
      | error e =>
        rw [hrest] at ih
        obtain herror := map_eq_error.mp ih
        change Except.map _ ((rest.mapM _) >>= _) = _
        rw [herror]
        rfl
      | ok others =>
        rw [hrest] at ih
        obtain ⟨totals, htotals, hsame⟩ := map_eq_ok.mp ih
        change Except.map _ ((rest.mapM _) >>= _) = _
        rw [htotals]
        change Except.ok (fold.total (fold.total values :: totals)) =
          Except.ok (fold.total (values ++ others))
        rw [Fold.total_cons, hsame, Fold.total_append]

/-- If a value at one place rules out refusals at all others, then a list is refused only at its
first place. -/
theorem mapM_refused_iff {xs : List ι} {kind : Refusal.Kind}
    (hrefuse : ∀ x y v kind, g x = .ok v → g y ≠ .error (.refusal kind)) :
    xs.mapM g = .error (.refusal kind) ↔
      ∃ x, xs.head? = some x ∧ g x = .error (.refusal kind) := by
  rw [mapM_eq_error]
  constructor
  · rintro ⟨before, x, after, rfl, hbefore, hx⟩
    cases before with
    | nil => exact ⟨x, rfl, hx⟩
    | cons y rest =>
      obtain ⟨v, hv⟩ := hbefore y List.mem_cons_self
      exact absurd hx (hrefuse y x v kind hv)
  · rintro ⟨x, hhead, hx⟩
    obtain ⟨rest, rfl⟩ := List.head?_eq_some_iff.mp hhead
    exact ⟨[], x, rest, rfl, (fun _ h => nomatch h), hx⟩

theorem mapM_total_eq_ok {xs : List ι} {v : ℝ} : (xs.mapM g).map fold.total = .ok v ↔
    (∀ x ∈ xs, ∃ a, g x = .ok a) ∧ fold.total (xs.map fun x => (g x).toOption.getD 0) = v := by
  have hvalues (h : ∀ x ∈ xs, ∃ a, g x = .ok a) :
      xs.mapM g = .ok (xs.map fun x => (g x).toOption.getD 0) := by
    refine mapM_eq_ok.mpr (List.forall₂_map_right_iff.mpr (List.forall₂_same.mpr fun x hx => ?_))
    obtain ⟨a, ha⟩ := h x hx
    rw [ha]
    rfl
  rw [map_eq_ok]
  constructor
  · rintro ⟨values, hall, rfl⟩
    have hsome : ∀ x ∈ xs, ∃ a, g x = .ok a := fun x hx => by
      obtain ⟨a, -, ha⟩ := exists_of_mem_left (mapM_eq_ok.mp hall) hx
      exact ⟨a, ha⟩
    rw [hvalues hsome] at hall
    cases hall
    exact ⟨hsome, rfl⟩
  · rintro ⟨hsome, rfl⟩
    exact ⟨_, hvalues hsome, rfl⟩

/-- The order does not matter, as long as the first place stays the first. -/
theorem sameOutcome_of_perm {xs ys : List ι} (hperm : xs.Perm ys) (hhead : xs.head? = ys.head?)
    (hrefuse : ∀ x y v kind, g x = .ok v → g y ≠ .error (.refusal kind)) :
    SameOutcome ((xs.mapM g).map fold.total) ((ys.mapM g).map fold.total) := by
  constructor
  · intro v
    rw [mapM_total_eq_ok, mapM_total_eq_ok, Fold.total_perm (hperm.map _)]
    simp only [hperm.mem_iff]
  · intro kind
    rw [map_eq_error, map_eq_error, mapM_refused_iff hrefuse, mapM_refused_iff hrefuse, hhead]

end

/-! ## Values of expressions -/

namespace Expr

/-- What an expression comes to depends on what its symbols stand for, and on the domains of its
own reductions. -/
theorem valueAt_congr {α : Type} [Scalar α] {arrays : Arrays α} {base : Int}
    {domains domains' : List (String × List Int)} {e : Expr}
    (hdomains : ∀ x ∈ e.reductionSymbols, domains'.lookup x = domains.lookup x) {s t : Symbols}
    (h : s.Agrees t) :
    e.valueAt ⟨arrays, base, domains'⟩ t = e.valueAt ⟨arrays, base, domains⟩ s := by
  induction e generalizing s t with
  | literal value span => rw [valueAt_literal, valueAt_literal]
  | ref name indices span =>
    cases indices with
    | nil =>
      rw [valueAt_name, valueAt_name, scalarNamed_congr h]
      rfl
    | cons first rest =>
      rw [valueAt_cell, valueAt_cell, cellNamed_congr h]
      rfl
  | reduction fold symbol body span ih =>
    have hown := hdomains symbol (mem_reductionSymbols_reduction.mpr (Or.inl rfl))
    have hbody : ∀ k, body.valueAt ⟨arrays, base, domains'⟩ (t.set symbol k) =
        body.valueAt ⟨arrays, base, domains⟩ (s.set symbol k) := by
      intro k
      refine ih (fun x hx => hdomains x (mem_reductionSymbols_reduction.mpr (Or.inr hx))) ?_
      intro name
      by_cases hname : name = symbol
      · rw [hname, Symbols.lookup_set_self, Symbols.lookup_set_self]
      · rw [Symbols.lookup_set_ne hname, Symbols.lookup_set_ne hname, h name]
    rw [valueAt_reduction, valueAt_reduction]
    simp only [hown, hbody]
  | call function args span ih =>
    rw [valueAt_call, valueAt_call, mapM_congr fun a ha =>
      ih a ha (fun x hx => hdomains x (mem_reductionSymbols_call.mpr ⟨a, ha, hx⟩)) h]
  | binary op left right span ihl ihr =>
    rw [valueAt_binary, valueAt_binary,
      ihl (fun x hx => hdomains x (mem_reductionSymbols_binary.mpr (Or.inl hx))) h,
      ihr (fun x hx => hdomains x (mem_reductionSymbols_binary.mpr (Or.inr hx))) h]
  | negate operand span ih =>
    rw [valueAt_negate, valueAt_negate,
      ih (fun x hx => hdomains x (mem_reductionSymbols_negate.mpr hx)) h]

/-- A function is refused for the number of its arguments. -/
theorem applyBuiltin_not_refused {α : Type} [Scalar α] {function : Builtin} {xs ys : List α} {v : α}
    {kind : Refusal.Kind} (h : applyBuiltin function xs = .ok v) (hlength : ys.length = xs.length) :
    applyBuiltin function ys ≠ .error (.refusal kind) := by
  match xs, ys with
  | [], [] => rw [h]; exact nofun
  | [x], [y] =>
    cases function with
    | sqrt | exp | log | sin | cos | tan => exact checked_domain
    | abs | sum | prod => exact nofun
    | max | min => cases h
  | _ :: _ :: _, y :: z :: rest =>
    cases function with
    | sum | prod | max | min => exact nofun
    | sqrt | exp | log | abs | sin | cos | tan => cases h

/-- In exact arithmetic an expression that has a value anywhere is refused nowhere. -/
theorem valueAt_not_refused {c : EvalContext ℝ} {e : Expr} {s t : Symbols} {v : ℝ}
    {kind : Refusal.Kind} (h : e.valueAt c s = .ok v) : e.valueAt c t ≠ .error (.refusal kind) := by
  induction e generalizing s t v with
  | literal value span =>
    rw [valueAt_literal] at h ⊢
    rw [h]
    exact nofun
  | ref name indices span =>
    cases indices with
    | nil =>
      rw [valueAt_name, ne_eq, scalarNamed_eq_refused]
      rintro ⟨k, -, hnone, -⟩
      cases hnone
    | cons first rest =>
      rw [valueAt_cell]
      exact cellNamed_not_refused
  | reduction fold symbol body span ih =>
    rw [valueAt_reduction] at h ⊢
    cases hdomain : c.domains.lookup symbol with
    | none => exact nofun
    | some domain =>
      rw [hdomain] at h
      obtain ⟨values, hvalues, -⟩ := map_eq_ok.mp h
      dsimp only
      rw [ne_eq, map_eq_error, mapM_eq_error]
      rintro ⟨before, k, after, rfl, -, hk⟩
      obtain ⟨w, -, hw⟩ := exists_of_mem_left (mapM_eq_ok.mp hvalues)
        (List.mem_append_right before (List.mem_cons_self (a := k)))
      exact ih hw hk
  | call function args span ih =>
    rw [valueAt_call] at h ⊢
    obtain ⟨values, hvalues, h⟩ := bind_eq_ok.mp h
    rw [ne_eq, bind_eq_error, mapM_eq_error]
    rintro (⟨before, a, after, rfl, -, ha⟩ | ⟨others, hothers, hcall⟩)
    · have hmem : a ∈ before ++ a :: after := List.mem_append_right before List.mem_cons_self
      obtain ⟨w, -, hw⟩ := exists_of_mem_left (mapM_eq_ok.mp hvalues) hmem
      exact ih a hmem hw ha
    · have hlength : others.length = values.length :=
        (mapM_eq_ok.mp hothers).length_eq.symm.trans (mapM_eq_ok.mp hvalues).length_eq
      exact applyBuiltin_not_refused h hlength hcall
  | binary op left right span ihl ihr =>
    rw [valueAt_binary] at h ⊢
    obtain ⟨a, ha, h⟩ := bind_eq_ok.mp h
    obtain ⟨b, hb, h⟩ := bind_eq_ok.mp h
    rw [ne_eq, bind_eq_error]
    rintro (hleft | ⟨x, -, hrest⟩)
    · exact ihl ha hleft
    · rcases bind_eq_error.mp hrest with hright | ⟨y, -, hop⟩
      · exact ihr hb hright
      · exact applyOperator_not_refused hop
  | negate operand span ih =>
    rw [valueAt_negate] at h ⊢
    obtain ⟨a, ha, -⟩ := bind_eq_ok.mp h
    rw [ne_eq, bind_eq_error]
    rintro (hoperand | ⟨x, -, hx⟩)
    · exact ih ha hoperand
    · cases hx

end Expr

/-! ## Values of components -/

namespace Energy

/-- A component fails by an operation outside of its domain, or by a failed look-up. -/
def Violates {β : Type} (x : Except Failure β) : Prop :=
  ∃ d, x = .error (.diagnostic d) ∧ (d.code = domainCode ∨ d.code ∈ lookupCodes)

/-- What an expression comes to, as the value of a component or as its failure at an instance. -/
inductive Conveys {β : Type} : Except (EvalFailure ℝ) β → Except Failure β → Prop
  | ok (b : β) : Conveys (.ok b) (.ok b)
  | error (s : Site) (symbols : Symbols) (f : EvalFailure ℝ) :
    Conveys (.error f) (.error (failureOf (Fault.badInstance s symbols) f))

section

variable {ι β γ : Type} {x : Except (EvalFailure ℝ) β} {y : Except Failure β}

theorem Conveys.bind {f : β → Except (EvalFailure ℝ) γ} {g : β → Except Failure γ} (h : Conveys x y)
    (hfg : ∀ b, Conveys (f b) (g b)) : Conveys (x >>= f) (y >>= g) := by
  cases h with
  | ok b => exact hfg b
  | error s symbols e => exact .error s symbols e

theorem Conveys.mapM {f : ι → Except (EvalFailure ℝ) β} {g : ι → Except Failure β}
    (h : ∀ a, Conveys (f a) (g a)) (xs : List ι) : Conveys (xs.mapM f) (xs.mapM g) := by
  induction xs with
  | nil => exact .ok []
  | cons a rest ih =>
    rw [List.mapM_cons, List.mapM_cons]
    exact (h a).bind fun b => ih.bind fun bs => .ok (b :: bs)

theorem conveys_evalExpr (s : Site) (c : EvalContext ℝ) (symbols : Symbols) (e : Expr) :
    Conveys (e.valueAt c symbols) (evalExpr s c symbols e) := by
  rw [evalExpr_eq]
  cases e.valueAt c symbols with
  | ok v => exact .ok v
  | error f => exact .error s symbols f

theorem Conveys.eq_ok_iff (h : Conveys x y) (b : β) : y = .ok b ↔ x = .ok b := by
  cases h with
  | ok b' => simp
  | error s symbols f => simp

/-- A failure that is no refusal is told as a violation. -/
theorem Conveys.violates_iff (h : Conveys x y) :
    Violates y ↔ (∀ b, x ≠ .ok b) ∧ ∀ kind, x ≠ .error (.refusal kind) := by
  unfold Violates
  cases h with
  | ok b => simp
  | error s symbols f =>
    cases f with
    | domain v =>
      refine iff_of_true ⟨_, rfl, Or.inl rfl⟩ ⟨fun b => nofun, fun kind => nofun⟩
    | lookup v =>
      refine iff_of_true ⟨_, rfl, Or.inr v.code_mem⟩ ⟨fun b => nofun, fun kind => nofun⟩
    | refusal kind =>
      refine iff_of_false ?_ fun hnone => hnone.2 kind rfl
      rintro ⟨d, hd, -⟩
      cases hd

end

/-- What two components come to, as far as their values and violations go. -/
theorem alike_of_sameOutcome {p q : Except (EvalFailure ℝ) ℝ} {x y : Except Failure ℝ}
    (h : SameOutcome p q) (hx : Conveys p x) (hy : Conveys q y) :
    (∀ v, x = .ok v ↔ y = .ok v) ∧ (Violates x ↔ Violates y) := by
  refine ⟨fun v => ?_, ?_⟩
  · rw [hx.eq_ok_iff, hy.eq_ok_iff, h.ok]
  · rw [hx.violates_iff, hy.violates_iff]
    simp only [ne_eq, h.ok, h.refused]

section

variable {e : Evaluation ℝ} {n : Graph.ComponentNode} {t : Graph.TermNode} {i : Interaction}
  {s : Site}

theorem evalComponent_values : (evalComponent e n t i).map (·.value) =
    (instances e n t i).map (List.map (·.value)) >>=
      aggregateOf ⟨n.id, t.id⟩ i (n.aggregator.map Scalar.ofFloat) := by
  unfold evalComponent
  cases instances e n t i with
  | error err => rfl
  | ok found =>
    change Except.map _ (aggregateOf _ _ _ _ >>= _) = aggregateOf _ _ _ (found.map (·.value))
    cases aggregateOf ⟨n.id, t.id⟩ i (n.aggregator.map Scalar.ofFloat)
      (found.map (·.value)) <;> rfl

theorem pointInstances_values (ps : List Point) :
    (pointInstances e s t ps).map (List.map (·.value)) = ps.mapM (valueAt e s t) := by
  refine (mapM_image fun p _ => ?_).symm
  cases valueAt e s t p <;> rfl

/-- A component over ranges comes to the total of what its expression comes to at all tuples. -/
theorem conveys_evalComponent {fold : Fold} {bounds : List Range}
    {domains : List (String × List Int)} {tuples : List (List Int)} {f : Formula}
    (hdomain : i.domain = .ranges bounds) (hdomains : reductionDomains i n.reductions = .ok domains)
    (htuples : i.tuples n.free = .ok tuples) (hkind : t.kind = .analytic) (hexpr : t.expr = some f)
    (haggregator : n.aggregator.kind = fold.aggregator) :
    Conveys ((tuples.mapM fun ks =>
        f.body.valueAt (contextAt e domains) (n.free.zip ks)).map fold.total)
      ((evalComponent e n t i).map (·.value)) := by
  have hvalues : (instances e n t i).map (List.map (·.value)) =
      tuples.mapM fun ks =>
        evalExpr ⟨n.id, t.id⟩ (contextAt e domains) (n.free.zip ks) f.body := by
    unfold instances allPoints points
    simp only [hdomain, hdomains, htuples, tupleSymbols, ok_bind]
    rw [pointInstances_values, List.mapM_map]
    refine mapM_congr fun ks _ => ?_
    unfold valueAt termValue
    rw [Function.comp_apply, if_neg (by rw [hkind]; decide), hexpr]
  have htotal (xs : List ℝ) :
      aggregateOf ⟨n.id, t.id⟩ i (n.aggregator.map Scalar.ofFloat) xs = .ok (fold.total xs) := by
    unfold aggregateOf
    rw [Aggregator.aggregate_total (a := n.aggregator.map Scalar.ofFloat) haggregator]
    rfl
  have hall := Conveys.mapM (fun ks =>
    conveys_evalExpr ⟨n.id, t.id⟩ (contextAt e domains) (n.free.zip ks) f.body) tuples
  rw [evalComponent_values, hvalues]
  refine hall.bind fun xs => ?_
  rw [htotal]
  exact .ok (fold.total xs)

end

/-! ## Ranges -/

section

variable {i : Interaction} {bounds rs : List Range} {r : Range} {symbol : String}
  {before after names : List String}

theorem tuples_ranges (hdomain : i.domain = .ranges bounds) :
    i.tuples names = (i.rangesOf names).map Range.tuples := by
  unfold Interaction.tuples
  rw [hdomain]
  cases i.rangesOf names <;> rfl

/-- With one more range, if it is not too large, the ranges are run through as without. -/
theorem rangesOf_insert (hr : i.rangeOf symbol = .ok r) (hsize : r.size < Nat.pow 2 63)
    (h : i.rangesOf (before ++ after) = .ok rs) : ∃ first rest, rs = first ++ rest ∧
      first.length = before.length ∧
      i.rangesOf (before ++ symbol :: after) = .ok (first ++ r :: rest) := by
  unfold Interaction.rangesOf at h ⊢
  rw [List.mapM_append] at h ⊢
  obtain ⟨first, hfirst, h⟩ := bind_eq_ok.mp h
  obtain ⟨rest, hrest, h⟩ := bind_eq_ok.mp h
  cases h
  refine ⟨first, rest, rfl, (mapM_eq_ok.mp hfirst).length_eq.symm, ?_⟩
  rw [hfirst, List.mapM_cons, hr, hrest, ok_bind, ok_bind, Interaction.countable, if_pos hsize]
  rfl

theorem rangesOf_remove (h : i.rangesOf (before ++ symbol :: after) = .ok rs) :
    ∃ others, i.rangesOf (before ++ after) = .ok others := by
  unfold Interaction.rangesOf at h ⊢
  rw [List.mapM_append] at h ⊢
  obtain ⟨first, hfirst, h⟩ := bind_eq_ok.mp h
  obtain ⟨more, hmore, -⟩ := bind_eq_ok.mp h
  rw [List.mapM_cons] at hmore
  obtain ⟨r, -, hmore⟩ := bind_eq_ok.mp hmore
  obtain ⟨rest, hrest, -⟩ := bind_eq_ok.mp hmore
  exact ⟨first ++ rest, by rw [hfirst, hrest]; rfl⟩

theorem rangesOf_too_large (hr : i.rangeOf symbol = .ok r) (hsize : Nat.pow 2 63 ≤ r.size)
    (hmem : symbol ∈ names) : i.rangesOf names ≠ .ok rs := by
  intro h
  obtain ⟨r', -, hr'⟩ := exists_of_mem_left (mapM_eq_ok.mp h) hmem
  rw [hr, ok_bind, Interaction.countable, if_neg (Nat.not_lt.mpr hsize)] at hr'
  cases hr'

/-- A component over ranges of which one cannot be run through is refused. -/
theorem evalComponent_tooLarge {e : Evaluation ℝ} {n : Graph.ComponentNode} {t : Graph.TermNode}
    {domains : List (String × List Int)} (hdomain : i.domain = .ranges bounds)
    (hdomains : reductionDomains i n.reductions = .ok domains)
    (h : i.rangesOf n.free = Failure.refuse .tooLarge) :
    (evalComponent e n t i).map (·.value) = Failure.refuse .tooLarge := by
  have htuples : i.tuples n.free = Failure.refuse .tooLarge := by
    rw [tuples_ranges hdomain, h]
    rfl
  rw [evalComponent_values]
  unfold instances allPoints points
  simp only [hdomain, hdomains, tupleSymbols, ok_bind, htuples]
  rfl

end

/-! ## Moving a reduction -/

section

variable {i : Interaction} {bounds : List Range} {t : TermDecl} {f : Formula} {fold : Fold}
  {symbol : String} {before after : List String}

/-- At a tuple of the other symbols, a reduction comes to the total of what its body comes to with
each value of its symbol put in. -/
theorem valueAt_reduction_total {e : Evaluation ℝ} {domains : List (String × List Int)} {r : Range}
    {body : Expr} (hbody : symbol ∉ body.reductionSymbols) (hbefore : symbol ∉ before)
    {ks : List Int} (hlength : before.length ≤ ks.length) (span : Span) :
    (Expr.reduction fold symbol body span).valueAt (contextAt e ((symbol, r.values) :: domains))
        ((before ++ after).zip ks) =
      (r.values.mapM fun k => body.valueAt (contextAt e domains)
        ((before ++ symbol :: after).zip (ks.insertIdx before.length k))).map fold.total := by
  have hdomains : ∀ x ∈ body.reductionSymbols,
      domains.lookup x = ((symbol, r.values) :: domains).lookup x := by
    intro x hx
    have hne : x ≠ symbol := fun h => hbody (h ▸ hx)
    exact (lookup_cons_of_ne hne r.values).symm
  have hvalues : ∀ k, body.valueAt (contextAt e domains)
      ((before ++ symbol :: after).zip (ks.insertIdx before.length k)) =
        body.valueAt (contextAt e ((symbol, r.values) :: domains))
          (Symbols.set ((before ++ after).zip ks) symbol k) := fun k =>
    Expr.valueAt_congr hdomains (Symbols.agrees_insertIdx hbefore hlength k)
  have hdomain : (contextAt e ((symbol, r.values) :: domains)).domains.lookup symbol =
      some r.values := List.lookup_cons_self
  rw [Expr.valueAt_reduction, hdomain]
  simp only [Fold.foldl_step, hvalues]

/-- The total over all tuples, in either order. -/
theorem sameOutcome_moved {e : Evaluation ℝ} {domains : List (String × List Int)} {r : Range}
    {body : Expr} (hbody : symbol ∉ body.reductionSymbols) (hbefore : symbol ∉ before)
    {first rest : List Range} (hlength : first.length = before.length) (span : Span) :
    SameOutcome
      (((Range.tuples (first ++ r :: rest)).mapM fun ks =>
        body.valueAt (contextAt e domains) ((before ++ symbol :: after).zip ks)).map fold.total)
      (((Range.tuples (first ++ rest)).mapM fun ks =>
        (Expr.reduction fold symbol body span).valueAt
          (contextAt e ((symbol, r.values) :: domains)) ((before ++ after).zip ks)).map
            fold.total) := by
  have hinner : (Range.tuples (first ++ rest)).mapM (fun ks =>
      (Expr.reduction fold symbol body span).valueAt
        (contextAt e ((symbol, r.values) :: domains)) ((before ++ after).zip ks)) =
      (Range.tuples (first ++ rest)).mapM fun ks => (r.values.mapM fun k =>
        body.valueAt (contextAt e domains)
          ((before ++ symbol :: after).zip (ks.insertIdx first.length k))).map fold.total := by
    refine mapM_congr fun ks hks => ?_
    have htuple := (Range.mem_tuples.mp hks).length_eq
    rw [List.length_append] at htuple
    rw [hlength]
    exact valueAt_reduction_total hbody hbefore (by omega) span
  have hmoved : SameOutcome _ (Except.map fold.total _) :=
    sameOutcome_of_perm (g := fun ks => body.valueAt (contextAt e domains)
      ((before ++ symbol :: after).zip ks)) (Range.tuples_perm_inserted r first rest)
      (Range.head?_inserted r first rest) fun x y v kind h => Expr.valueAt_not_refused h
  rw [Range.inserted, ← mapM_flatMap_total] at hmoved
  rw [hinner]
  exact hmoved

/-- Of two components over the same ranges the second has a symbol of the first in a reduction. -/
structure Moved (i : Interaction) (symbol : String) (r : Range) (n n' : Graph.ComponentNode)
    (before after : List String) (domains : List (String × List Int)) : Prop where
  range : i.rangeOf symbol = .ok r
  free : n.free = before ++ symbol :: after
  others : n'.free = before ++ after
  bound : ∀ x ∈ n.free, x ∈ i.symbols
  fresh : symbol ∉ before
  domains_eq : reductionDomains i n.reductions = .ok domains
  more_eq : reductionDomains i n'.reductions = .ok ((symbol, r.values) :: domains)
  aggregator : n'.aggregator = n.aggregator

theorem exists_moved {r : Range} {u : Usage} {n n' : Graph.ComponentNode}
    (hdomain : i.domain = .ranges bounds) (hfits : i.domain.Fits i.symbols)
    (hdistinct : i.symbols.Nodup) (hu : Binding.Allowed u i)
    (hfree : n.free = i.symbols.filter (· ∈ u.free)) (hreductions : n.reductions = u.reductions)
    (hsymbol : symbol ∈ n.free) (hr : i.rangeOf symbol = .ok r)
    (hn' : n'.binding = ⟨n.free.filter (· ≠ symbol), symbol :: n.reductions, n.aggregator⟩) :
    ∃ before after domains, Moved i symbol r n n' before after domains := by
  have hnodup : n.free.Nodup := by
    rw [hfree]
    exact hdistinct.filter _
  have hbound : ∀ x ∈ n.free, x ∈ i.symbols := by
    rw [hfree]
    exact fun x hx => List.mem_of_mem_filter hx
  obtain ⟨before, after, hsplit⟩ := List.append_of_mem hsymbol
  have hother : ∀ x ∈ before ++ after, x ≠ symbol := by
    rw [hsplit, List.nodup_middle] at hnodup
    rintro x hx rfl
    exact (List.nodup_cons.mp hnodup).1 hx
  have hothers : n'.free = before ++ after := by
    have hkept : n'.free = n.free.filter (· ≠ symbol) := congrArg Binding.free hn'
    rw [hkept, hsplit, List.filter_append, List.filter_cons_of_neg (by simp), ← List.filter_append]
    exact List.filter_eq_self.mpr fun x hx => decide_eq_true (hother x hx)
  obtain ⟨domains, hdomains⟩ := reductionDomains_total hdomain hfits hu.reductions
  rw [← hreductions] at hdomains
  refine ⟨before, after, domains, hr, hsplit, hothers, hbound,
    fun h => hother symbol (List.mem_append_left _ h) rfl, hdomains, ?_,
    congrArg Binding.aggregator hn'⟩
  have hmore : n'.reductions = symbol :: n.reductions := congrArg Binding.reductions hn'
  rw [hmore]
  unfold reductionDomains at hdomains ⊢
  rw [List.mapM_cons, hr, hdomains]
  rfl

namespace Moved

variable {r : Range} {n n' : Graph.ComponentNode} {domains : List (String × List Int)}
  (h : Moved i symbol r n n' before after domains) {node node' : Graph.TermNode} {g : Formula}
  {body : Expr} {span : Span} {e : Evaluation ℝ}

include h

theorem bound_others : ∀ x ∈ n'.free, x ∈ i.symbols := by
  intro x hx
  rw [h.others] at hx
  refine h.bound x ?_
  rw [h.free]
  rcases List.mem_append.mp hx with hx | hx
  · exact List.mem_append_left _ hx
  · exact List.mem_append_right _ (List.mem_cons_of_mem symbol hx)

/-- A range that can be run through can be run through inside and outside. -/
theorem alike (hdomain : i.domain = .ranges bounds) (hfits : i.domain.Fits i.symbols)
    (hsize : r.size < Nat.pow 2 63) (hfold : n.aggregator.kind = fold.aggregator)
    (hkind : node.kind = .analytic) (hkind' : node'.kind = .analytic)
    (hexpr : node.expr = some f) (hexpr' : node'.expr = some g)
    (hg : g.body = .reduction fold symbol f.body span)
    (hbody : symbol ∉ f.body.reductionSymbols) :
    (∀ v, (evalComponent e n node i).map (·.value) = .ok v ↔
      (evalComponent e n' node' i).map (·.value) = .ok v) ∧
    (Violates ((evalComponent e n node i).map (·.value)) ↔
      Violates ((evalComponent e n' node' i).map (·.value))) := by
  have hfold' : n'.aggregator.kind = fold.aggregator := by rw [h.aggregator, hfold]
  rcases rangesOf_ok_or_tooLarge hdomain hfits h.bound_others with ⟨rs, hrs⟩ | hlarge
  · rw [h.others] at hrs
    obtain ⟨first, rest, rfl, hlength, hall⟩ := rangesOf_insert h.range hsize hrs
    have houtside : i.tuples n.free = .ok (Range.tuples (first ++ r :: rest)) := by
      rw [tuples_ranges hdomain, h.free, hall]
      rfl
    have hinside : i.tuples n'.free = .ok (Range.tuples (first ++ rest)) := by
      rw [tuples_ranges hdomain, h.others, hrs]
      rfl
    have hout := conveys_evalComponent (e := e) hdomain h.domains_eq houtside hkind hexpr hfold
    have hin := conveys_evalComponent (e := e) hdomain h.more_eq hinside hkind' hexpr' hfold'
    rw [h.free] at hout
    rw [h.others, hg] at hin
    exact alike_of_sameOutcome (sameOutcome_moved hbody h.fresh hlength span) hout hin
  · have hrefused : i.rangesOf n.free = Failure.refuse .tooLarge := by
      refine (rangesOf_ok_or_tooLarge hdomain hfits h.bound).resolve_left ?_
      rintro ⟨rs, hrs⟩
      rw [h.free] at hrs
      obtain ⟨others, hothers⟩ := rangesOf_remove hrs
      rw [h.others, hothers] at hlarge
      cases hlarge
    rw [evalComponent_tooLarge hdomain h.domains_eq hrefused,
      evalComponent_tooLarge hdomain h.more_eq hlarge]
    exact ⟨fun v => Iff.rfl, Iff.rfl⟩

/-- A range with too many values is refused outside. -/
theorem refused (hdomain : i.domain = .ranges bounds) (hfits : i.domain.Fits i.symbols)
    (hsize : Nat.pow 2 63 ≤ r.size) :
    (evalComponent e n node i).map (·.value) = Failure.refuse .tooLarge := by
  have hmem : symbol ∈ n.free := by
    rw [h.free]
    exact List.mem_append_right before List.mem_cons_self
  refine evalComponent_tooLarge hdomain h.domains_eq ?_
  refine (rangesOf_ok_or_tooLarge hdomain hfits h.bound).resolve_left ?_
  rintro ⟨rs, hrs⟩
  exact rangesOf_too_large h.range hsize hmem hrs

end Moved

/-- Reducing inside of a term is aggregating outside of it. Over ranges, a free symbol of a term
can be taken into a reduction, and the term is bound to the same interaction. In exact arithmetic
the component then has the same value, and fails by an operation outside of its domain or by a
failed look-up if and only if it did before, as long as the range of the symbol can be run through
outside. A range of more values than a machine word counts cannot: it is refused there at once,
also where there is nothing to run through and the reduction has the value of nothing. -/
theorem reduction_moves (hdomain : i.domain = .ranges bounds) (hfits : i.domain.Fits i.symbols)
    (hdistinct : i.symbols.Nodup) (hkind : t.kind = .analytic) (hexpr : t.expr = some f)
    {aggregator : Option (Aggregator Float)} {n : Graph.ComponentNode}
    (hn : t.bindTo i aggregator = .ok n.binding) (hfold : n.aggregator.kind = fold.aggregator)
    (hsymbol : symbol ∈ n.free) (source : String) (span : Span) (numbers : Numbers)
    (e : Evaluation ℝ) :
    let t' := t.reduced fold symbol source span
    t'.bindTo i aggregator =
      .ok ⟨n.free.filter (· ≠ symbol), symbol :: n.reductions, n.aggregator⟩ ∧
    ∃ r, i.rangeOf symbol = .ok r ∧
      ∀ n' : Graph.ComponentNode, t'.bindTo i aggregator = .ok n'.binding →
        let outside := (evalComponent e n (t.nodeOver numbers i) i).map (·.value)
        let inside := (evalComponent e n' (t'.nodeOver numbers i) i).map (·.value)
        (r.size < Nat.pow 2 63 →
          (∀ v, outside = .ok v ↔ inside = .ok v) ∧ (Violates outside ↔ Violates inside)) ∧
        (Nat.pow 2 63 ≤ r.size → outside = Failure.refuse .tooLarge ∧
          (i.tuples n'.free = .ok [] → inside = .ok (fold.total []))) := by
  intro t'
  have hranges : i.kind = .allIndices := by rw [Interaction.kind, hdomain]; rfl
  have hown : Binding.bind [f.body] t.arity t.compat i aggregator = .ok n.binding := by
    rw [← TermDecl.bodies_of_expr hkind hexpr]
    exact hn
  obtain ⟨hbound, hbody⟩ := Binding.free_of_bind_ranges hranges hown hsymbol
  have hbind := TermDecl.bindTo_reduced hkind hexpr hranges hn hsymbol fold source span
  refine ⟨hbind, ?_⟩
  obtain ⟨r, hr⟩ := rangeOf_total hdomain hfits hbound
  refine ⟨r, hr, fun n' hn' => ?_⟩
  obtain ⟨hu, hfree, hreductions⟩ := Binding.allowed_of_bind hn
  obtain ⟨before, after, domains, hmoved⟩ := exists_moved hdomain hfits hdistinct hu hfree
    hreductions hsymbol hr (Except.ok.inj (hn'.symm.trans hbind))
  obtain ⟨g, hg, hgbody⟩ :=
    TermDecl.nodeOver_reduced hkind hexpr hbound hbody numbers fold source span
  have hexpr' : (t.nodeOver numbers i).expr = some (f.substitute numbers (Graph.boundOf t i)) :=
    congrArg (Option.map _) hexpr
  refine ⟨fun hsize => ?_, fun hsize => ⟨?_, fun hnone => ?_⟩⟩
  · refine hmoved.alike hdomain hfits hsize hfold hkind hkind hexpr' hg hgbody ?_
    exact fun h => hbody (Expr.reductionSymbols_replace.mp h)
  · exact hmoved.refused hdomain hfits hsize
  · have hfold' : n'.aggregator.kind = fold.aggregator := by rw [hmoved.aggregator, hfold]
    exact ((conveys_evalComponent hdomain hmoved.more_eq hnone hkind hg hfold').eq_ok_iff _).mpr rfl

/-- Pairs of a symbol with more values than a machine word counts and of one without any. -/
def noPairs : Interaction :=
  ⟨"pairs", ["i", "j"], .ranges [⟨0, 9223372036854775808⟩, ⟨0, -1⟩], 0⟩

/-- A value of the first symbol times a cell at the second. -/
def scaledCell : TermDecl :=
  let cell : Expr := .ref "x" [.symbol "j" ⟨6, 7⟩] ⟨4, 8⟩
  ⟨"scaled", .analytic, .unspecified,
    some ⟨"i * x[j]", .binary .mul (.ref "i" [] ⟨0, 1⟩) cell ⟨0, 8⟩, .unspecified⟩,
    none, [], [], false⟩

/-- There are no pairs. The sum over them is refused, and the sum over the second symbol of sums
over the first is zero. -/
theorem reduction_moves_nowhere :
    let e : Evaluation ℝ := ⟨default, [("x", ⟨[1], #[1], rfl⟩)], none, 0⟩
    let n : Graph.ComponentNode := ⟨"c", 0, 0, Aggregator.ofKind .sum, ["i", "j"], []⟩
    let n' : Graph.ComponentNode := ⟨"r", 1, 0, Aggregator.ofKind .sum, ["j"], ["i"]⟩
    let reduced := scaledCell.reduced .sum "i" "sum_i(i * x[j])" ⟨0, 15⟩
    scaledCell.bindTo noPairs (some (Aggregator.ofKind .sum)) = .ok n.binding ∧
    reduced.bindTo noPairs (some (Aggregator.ofKind .sum)) = .ok n'.binding ∧
    (evalComponent e n (scaledCell.nodeOver [] noPairs) noPairs).map (·.value) =
      Failure.refuse .tooLarge ∧
    (evalComponent e n' (reduced.nodeOver [] noPairs) noPairs).map (·.value) = .ok 0 := by
  intro e n n' reduced
  have hn : scaledCell.bindTo noPairs (some (Aggregator.ofKind .sum)) = .ok n.binding := rfl
  have hfold : n.aggregator.kind = Fold.sum.aggregator := rfl
  have hsymbol : "i" ∈ n.free := by decide
  obtain ⟨hbind, r, hr, hmoves⟩ := reduction_moves (show noPairs.domain = .ranges _ from rfl) rfl
    (by decide) rfl rfl hn hfold hsymbol "sum_i(i * x[j])" ⟨0, 15⟩ [] e
  have hrange : r = ⟨0, 9223372036854775808⟩ := (Except.ok.inj hr).symm
  have hlarge : Nat.pow 2 63 ≤ r.size := by
    rw [hrange]
    decide
  obtain ⟨houtside, hinside⟩ := (hmoves n' hbind).2 hlarge
  exact ⟨hn, hbind, houtside, hinside rfl⟩

end

end Energy

end EnergyGraph
