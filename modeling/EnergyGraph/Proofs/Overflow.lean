-- Overflow that passes silently. Where all literals and all cells are finite, every value that an
-- evaluation comes to is finite, unless one of the operations that check nothing overflows on the
-- way: a division, a sum or product of arguments, or a reduction. The operators that do check, and
-- the functions of one argument, give a finite value for finite operands or fail.
import EnergyGraph.Proofs.FiniteDoubles
import EnergyGraph.Proofs.Legible
import EnergyGraph.Proofs.Positions
import EnergyGraph.Proofs.Values

namespace EnergyGraph

open Scalar (isFinite isInfinite lt le eq)

/-! ## Numbers that overflow to infinity -/

/-- What finite numbers give: a finite number or, by an operation that can overflow, an infinite
one. -/
structure Scalar.Closed (α : Type) [Scalar α] : Prop where
  zero : isFinite (Scalar.zero : α) = true
  one : isFinite (Scalar.one : α) = true
  infinite {a : α} (h : isInfinite a = true) : isFinite a = false
  ofInt {n : Int} {a : α} (h : Scalar.ofInt? n = some a) : isFinite a = true
  neg {a : α} (ha : isFinite a = true) : isFinite (-a) = true
  abs {a : α} (ha : isFinite a = true) : isFinite (Scalar.abs a) = true
  sqrt {a : α} (ha : isFinite a = true) (h : lt a Scalar.zero = false) :
    isFinite (Scalar.sqrt a) = true
  log {a : α} (ha : isFinite a = true) (h : le a Scalar.zero = false) :
    isFinite (Scalar.log a) = true
  sin {a : α} (ha : isFinite a = true) : isFinite (Scalar.sin a) = true
  cos {a : α} (ha : isFinite a = true) : isFinite (Scalar.cos a) = true
  tan {a : α} (ha : isFinite a = true) : isFinite (Scalar.tan a) = true
  exp {a : α} (ha : isFinite a = true) (h : isInfinite (Scalar.exp a) = false) :
    isFinite (Scalar.exp a) = true
  add {a b : α} (ha : isFinite a = true) (hb : isFinite b = true)
    (h : isInfinite (a + b) = false) : isFinite (a + b) = true
  sub {a b : α} (ha : isFinite a = true) (hb : isFinite b = true)
    (h : isInfinite (a - b) = false) : isFinite (a - b) = true
  mul {a b : α} (ha : isFinite a = true) (hb : isFinite b = true)
    (h : isInfinite (a * b) = false) : isFinite (a * b) = true
  div {a b : α} (ha : isFinite a = true) (hb : isFinite b = true)
    (hzero : eq b Scalar.zero = false) (h : isInfinite (a / b) = false) : isFinite (a / b) = true
  pow {a b : α} (ha : isFinite a = true) (hb : isFinite b = true)
    (hreal : lt a Scalar.zero = true → Scalar.isIntegral b = true)
    (h : isInfinite (Scalar.pow a b) = false) : isFinite (Scalar.pow a b) = true
  /-- What is not finite stays so in a sum. -/
  ofAdd {a b : α} (h : isFinite (a + b) = true) : isFinite a = true
  ofMul {a b : α} (h : isFinite (a * b) = true) : isFinite a = true

namespace Expr

variable {α : Type} [Scalar α] {c : EvalContext α} {s : Symbols}

/-! ## Sums and products -/

/-- The function that does to its arguments what a reduction does to its terms. -/
def foldFunction : Fold → Builtin
  | .sum => .sum
  | .prod => .prod

def total (fold : Fold) (xs : List α) : α := xs.foldl (step fold) (start fold)

/-- One of the steps of a sum or a product leads from finite numbers to an infinite one. -/
def StepOverflows (fold : Fold) (xs : List α) : Prop :=
  ∃ before x after, xs = before ++ x :: after ∧ isFinite (total fold before) = true ∧
    isFinite x = true ∧ isInfinite (step fold (total fold before) x) = true

theorem total_concat (fold : Fold) (xs : List α) (x : α) :
    total fold (xs ++ [x]) = step fold (total fold xs) x := by
  simp [total]

theorem applyBuiltin_fold (fold : Fold) (xs : List α) :
    applyBuiltin (foldFunction fold) xs = .ok (total fold xs) := by
  cases fold <;> rfl

section

variable (laws : Scalar.Closed α) {fold : Fold} {xs : List α}

include laws

theorem step_finite {a x : α} (ha : isFinite a = true) (hx : isFinite x = true)
    (h : isInfinite (step fold a x) = false) : isFinite (step fold a x) = true := by
  cases fold with
  | sum => exact laws.add ha hx h
  | prod => exact laws.mul ha hx h

theorem of_step_finite {a x : α} (h : isFinite (step fold a x) = true) : isFinite a = true := by
  cases fold with
  | sum => exact laws.ofAdd h
  | prod => exact laws.ofMul h

theorem total_finite (hxs : ∀ x ∈ xs, isFinite x = true) :
    isFinite (total fold xs) = true ∨ StepOverflows fold xs := by
  induction xs using List.reverseRecOn with
  | nil =>
    cases fold with
    | sum => exact Or.inl laws.zero
    | prod => exact Or.inl laws.one
  | append_singleton xs x ih =>
    obtain ⟨hbefore, hx⟩ := List.forall_mem_append.mp hxs
    have hx := hx x List.mem_cons_self
    rcases ih hbefore with hfinite | ⟨before, y, after, rfl, hover⟩
    · rw [total_concat]
      rcases hstep : isInfinite (step fold (total fold xs) x) with _ | _
      · exact Or.inl (step_finite laws hfinite hx hstep)
      · exact Or.inr ⟨xs, x, [], rfl, hfinite, hx, hstep⟩
    · exact Or.inr ⟨before, y, after ++ [x], by simp, hover⟩

/-- A total over which a step overflows is not finite, whatever comes after. -/
theorem StepOverflows.total (h : StepOverflows fold xs) : isFinite (total fold xs) = false := by
  obtain ⟨before, x, after, rfl, -, -, hinfinite⟩ := h
  have hstays : ∀ (ys : List α) (a : α), isFinite (ys.foldl (step fold) a) = true →
      isFinite a = true := by
    intro ys
    induction ys with
    | nil => exact fun _ h => h
    | cons y ys ih => exact fun a h => of_step_finite laws (ih _ h)
  rw [← Bool.not_eq_true]
  intro hfinite
  have hsplit : Expr.total fold (before ++ x :: after) =
      after.foldl (step fold) (step fold (Expr.total fold before) x) := by
    simp [Expr.total]
  rw [hsplit] at hfinite
  have hstep := hstays after _ hfinite
  rw [laws.infinite hinfinite] at hstep
  cases hstep

end

/-! ## Operations -/

omit [Scalar α] in
theorem ok_of_guarded {p : Prop} [Decidable p] {f : EvalFailure α} {x y : α}
    (h : (if p then .error f else .ok y : Except (EvalFailure α) α) = .ok x) : ¬ p ∧ y = x := by
  by_cases hp : p
  · rw [if_pos hp] at h
    cases h
  · rw [if_neg hp] at h
    cases h
    exact ⟨hp, rfl⟩

/-- A check lets no infinite result of finite operands pass. -/
theorem not_isInfinite_of_checked {op : Operator} {a b result x : α} (ha : isFinite a = true)
    (hb : isFinite b = true) (h : checked op a b result = .ok x) :
    isInfinite result = false ∧ result = x := by
  obtain ⟨hinfinite, hx⟩ := ok_of_guarded h
  rw [ha, hb, Bool.and_true, Bool.and_true] at hinfinite
  exact ⟨Bool.eq_false_iff.mpr hinfinite, hx⟩

section

variable (laws : Scalar.Closed α) {a b x : α}

include laws

theorem power_finite (ha : isFinite a = true) (hb : isFinite b = true)
    (h : power a b = .ok x) : isFinite x = true := by
  unfold power at h
  split at h
  · cases h
  · rename_i hreal
    split at h
    · cases h
    · obtain ⟨hinfinite, rfl⟩ := not_isInfinite_of_checked ha hb h
      refine laws.pow ha hb (fun hneg => ?_) hinfinite
      simpa [hneg] using hreal

/-- Of the operators, only a division gives an infinite number unnoticed. -/
theorem applyOperator_finite {op : Operator} (ha : isFinite a = true) (hb : isFinite b = true)
    (h : applyOperator op a b = .ok x) : isFinite x = true ∨
      (op = .div ∧ eq b Scalar.zero = false ∧ isInfinite (a / b) = true) := by
  cases op with
  | add =>
    obtain ⟨hinfinite, rfl⟩ := not_isInfinite_of_checked ha hb h
    exact Or.inl (laws.add ha hb hinfinite)
  | sub =>
    obtain ⟨hinfinite, rfl⟩ := not_isInfinite_of_checked ha hb h
    exact Or.inl (laws.sub ha hb hinfinite)
  | mul =>
    obtain ⟨hinfinite, rfl⟩ := not_isInfinite_of_checked ha hb h
    exact Or.inl (laws.mul ha hb hinfinite)
  | pow => exact Or.inl (power_finite laws ha hb h)
  | div =>
    obtain ⟨hzero, rfl⟩ := ok_of_guarded h
    have hzero := Bool.eq_false_iff.mpr hzero
    rcases hinfinite : isInfinite (a / b) with _ | _
    · exact Or.inl (laws.div ha hb hzero hinfinite)
    · exact Or.inr ⟨rfl, hzero, rfl⟩

theorem applyUnary_finite {function : Builtin} (ha : isFinite a = true)
    (hfunction : ∀ fold, function ≠ foldFunction fold) (h : applyUnary function a = .ok x) :
    isFinite x = true := by
  cases function with
  | sqrt =>
    obtain ⟨hneg, rfl⟩ := ok_of_guarded h
    exact laws.sqrt ha (Bool.eq_false_iff.mpr hneg)
  | exp =>
    obtain ⟨hinfinite, rfl⟩ := ok_of_guarded h
    rw [ha, Bool.and_true] at hinfinite
    exact laws.exp ha (Bool.eq_false_iff.mpr hinfinite)
  | log =>
    obtain ⟨hpos, rfl⟩ := ok_of_guarded h
    exact laws.log ha (Bool.eq_false_iff.mpr hpos)
  | sin =>
    obtain ⟨-, rfl⟩ := ok_of_guarded h
    exact laws.sin ha
  | cos =>
    obtain ⟨-, rfl⟩ := ok_of_guarded h
    exact laws.cos ha
  | tan =>
    obtain ⟨-, rfl⟩ := ok_of_guarded h
    exact laws.tan ha
  | abs =>
    cases h
    exact laws.abs ha
  | max | min => cases h
  | sum => exact absurd rfl (hfunction .sum)
  | prod => exact absurd rfl (hfunction .prod)

omit laws in
/-- A choice between finite numbers is finite. -/
theorem foldl_finite {f : α → α → α} {xs : List α} (hf : ∀ a b, f a b = a ∨ f a b = b)
    (ha : isFinite a = true) (hxs : ∀ x ∈ xs, isFinite x = true) :
    isFinite (xs.foldl f a) = true := by
  induction xs generalizing a with
  | nil => exact ha
  | cons x xs ih =>
    obtain ⟨hx, hxs⟩ := List.forall_mem_cons.mp hxs
    refine ih ?_ hxs
    rcases hf a x with h | h <;> rw [h] <;> assumption

omit laws in
theorem larger_eq (a b : α) : Scalar.larger a b = a ∨ Scalar.larger a b = b := by
  unfold Scalar.larger
  split <;> simp

omit laws in
theorem smaller_eq (a b : α) : Scalar.smaller a b = a ∨ Scalar.smaller a b = b := by
  unfold Scalar.smaller
  split <;> simp

/-- Of the functions, only sums and products give a number that is not finite unnoticed. -/
theorem applyBuiltin_finite {function : Builtin} {xs : List α}
    (hxs : ∀ x ∈ xs, isFinite x = true) (h : applyBuiltin function xs = .ok x) :
    isFinite x = true ∨ ∃ fold, function = foldFunction fold ∧ StepOverflows fold xs := by
  by_cases hfold : ∃ fold, function = foldFunction fold
  · obtain ⟨fold, rfl⟩ := hfold
    rw [applyBuiltin_fold] at h
    cases h
    exact (total_finite laws hxs).imp id fun hover => ⟨fold, rfl, hover⟩
  · have hfunction : ∀ fold, function ≠ foldFunction fold := fun fold heq => hfold ⟨fold, heq⟩
    left
    unfold applyBuiltin at h
    split at h
    · exact absurd rfl (hfunction .sum)
    · exact absurd rfl (hfunction .prod)
    · cases h
      obtain ⟨hx, hxs⟩ := List.forall_mem_cons.mp hxs
      exact foldl_finite larger_eq hx hxs
    · cases h
      obtain ⟨hx, hxs⟩ := List.forall_mem_cons.mp hxs
      exact foldl_finite smaller_eq hx hxs
    · exact applyUnary_finite laws (hxs _ List.mem_cons_self) hfunction h
    · cases h

end

/-! ## Expressions -/

/-- All cells are finite. -/
def FiniteCells (c : EvalContext α) : Prop :=
  ∀ name t, c.arrays.lookup name = some t → ∀ x ∈ t.cells, isFinite x = true

/-- The literals that an evaluation comes to are finite. An integer either is or has no number. -/
def FiniteLiterals (c : EvalContext α) (s : Symbols) (e : Expr) : Prop :=
  ∀ t x span, Visits c t (.literal (.float x) span) s e → isFinite (Scalar.ofFloat x : α) = true

/-- An operation of an expression gives an infinite number for finite ones, and goes on with it. -/
inductive Overflows (c : EvalContext α) (s : Symbols) : Expr → Prop
  | quotient {left right span a b} (hleft : left.valueAt c s = .ok a)
    (hright : right.valueAt c s = .ok b) (ha : isFinite a = true) (hb : isFinite b = true)
    (hzero : eq b Scalar.zero = false) (h : isInfinite (a / b) = true) :
    Overflows c s (.binary .div left right span)
  | arguments {fold args span xs} (hargs : args.mapM (valueAt c s) = .ok xs)
    (h : StepOverflows fold xs) : Overflows c s (.call (foldFunction fold) args span)
  | terms {fold symbol body span domain xs} (hdomain : c.domains.lookup symbol = some domain)
    (hterms : domain.mapM (fun k => body.valueAt c (s.set symbol k)) = .ok xs)
    (h : StepOverflows fold xs) : Overflows c s (.reduction fold symbol body span)

theorem scalarNamed_finite (laws : Scalar.Closed α) (hcells : FiniteCells c) {name : String} {x : α}
    (h : scalarNamed c s name = .ok x) : isFinite x = true := by
  unfold scalarNamed at h
  split at h
  · split at h
    · rename_i hx
      cases h
      exact laws.ofInt hx
    · cases h
  · split at h
    · cases h
    · rename_i t ht
      split at h
      · rename_i hx
        cases h
        unfold Tensor.only? at hx
        split at hx
        · exact hcells name t ht _ (Array.mem_of_getElem? hx)
        · cases hx
      · cases h

theorem cellNamed_finite (hcells : FiniteCells c) {name : String} {indices : List Index} {x : α}
    (h : cellNamed c s name indices = .ok x) : isFinite x = true := by
  unfold cellNamed at h
  split at h
  · cases h
  · rename_i t ht
    obtain ⟨keys, -, h⟩ := bind_eq_ok.mp h
    unfold cellAt at h
    split at h
    · cases h
    · dsimp only at h
      split at h
      · cases h
      · split at h
        · rename_i hx
          cases h
          obtain ⟨k, -, hcell⟩ := Tensor.at?_eq_some_iff.mp hx
          exact hcells name t ht _ (Array.mem_of_getElem? hcell)
        · cases h

theorem literal_finite (laws : Scalar.Closed α) {value : Number} {span : Span}
    (hliterals : FiniteLiterals c s (.literal value span)) {x : α}
    (h : (literal value span).valueAt c s = .ok x) : isFinite x = true := by
  rw [valueAt_literal] at h
  cases value with
  | float y =>
    cases h
    exact hliterals s y span .here
  | int n =>
    dsimp only [Scalar.ofNumber?] at h
    split at h
    · rename_i hx
      cases h
      exact laws.ofInt hx
    · cases h

/-- Where a value of each part is finite or else something holds of the part, all values are finite
or it holds of one of the parts. -/
theorem all_finite_or {β : Type} {f : β → Except (EvalFailure α) α} {Q : β → Prop} {ys : List β}
    {xs : List α} (h : ys.mapM f = .ok xs)
    (hpart : ∀ before y after x, ys = before ++ y :: after → (∀ z ∈ before, ∃ x, f z = .ok x) →
      f y = .ok x → isFinite x = true ∨ Q y) :
    (∀ x ∈ xs, isFinite x = true) ∨ ∃ before y after, ys = before ++ y :: after ∧
      (∀ z ∈ before, ∃ x, f z = .ok x) ∧ Q y := by
  have hall := mapM_eq_ok.mp h
  by_cases hfinite : ∀ x ∈ xs, isFinite x = true
  · exact Or.inl hfinite
  · push Not at hfinite
    obtain ⟨x, hx, hnot⟩ := hfinite
    obtain ⟨y, hy, hyx⟩ := exists_of_mem_right hall hx
    obtain ⟨before, after, hsplit⟩ := List.append_of_mem hy
    have hbefore : ∀ z ∈ before, ∃ x, f z = .ok x := by
      intro z hz
      obtain ⟨x, -, hzx⟩ := exists_of_mem_left hall (hsplit ▸ List.mem_append_left _ hz)
      exact ⟨x, hzx⟩
    have hy := (hpart before y after x hsplit hbefore hyx).resolve_left hnot
    exact Or.inr ⟨before, y, after, hsplit, hbefore, hy⟩

/-- A value is finite, or something overflowed on the way to it. -/
theorem finite_or_overflows (laws : Scalar.Closed α) (hcells : FiniteCells c) {e : Expr}
    (hliterals : FiniteLiterals c s e) {x : α} (h : e.valueAt c s = .ok x) :
    isFinite x = true ∨ Meets c (Overflows c) s e := by
  induction e generalizing s x with
  | literal value span => exact Or.inl (literal_finite laws hliterals h)
  | ref name indices span =>
    left
    cases indices with
    | nil => exact scalarNamed_finite laws hcells (valueAt_name.symm.trans h)
    | cons first rest => exact cellNamed_finite hcells (valueAt_cell.symm.trans h)
  | reduction fold symbol body span ih =>
    rw [valueAt_reduction] at h
    rw [meets_reduction]
    rcases hdomain : c.domains.lookup symbol with _ | domain
    · rw [hdomain] at h
      cases h
    · rw [hdomain] at h
      obtain ⟨xs, hxs, rfl⟩ := map_eq_ok.mp h
      have hparts := all_finite_or (Q := fun k => Meets c (Overflows c) (s.set symbol k) body) hxs
        fun before k after y hsplit hbefore hy =>
          ih (fun t z span hz => hliterals t z span (.body (hsplit ▸ hdomain) hbefore hz)) hy
      rcases hparts with hfinite | ⟨before, k, after, rfl, hmeets⟩
      · exact (total_finite laws hfinite).imp id fun hover => Or.inl (.terms hdomain hxs hover)
      · exact Or.inr (Or.inr ⟨before, k, after, rfl, hmeets⟩)
  | call function args span ih =>
    rw [valueAt_call] at h
    rw [meets_call]
    obtain ⟨xs, hxs, h⟩ := bind_eq_ok.mp h
    have hparts := all_finite_or (Q := Meets c (Overflows c) s) hxs
      fun before a after y hsplit hbefore hy =>
        ih a (by simp [hsplit])
          (fun t z span hz => hliterals t z span (hsplit ▸ .argument hbefore hz)) hy
    rcases hparts with hfinite | hmeets
    · refine (applyBuiltin_finite laws hfinite h).imp id ?_
      rintro ⟨fold, rfl, hover⟩
      exact Or.inl (.arguments hxs hover)
    · exact Or.inr (Or.inr hmeets)
  | binary op left right span ihleft ihright =>
    rw [valueAt_binary] at h
    rw [meets_binary]
    obtain ⟨a, ha, h⟩ := bind_eq_ok.mp h
    obtain ⟨b, hb, h⟩ := bind_eq_ok.mp h
    rcases ihleft (fun t z span hz => hliterals t z span (.left hz)) ha with hafinite | hover
    · rcases ihright (fun t z span hz => hliterals t z span (.right ha hz)) hb with
        hbfinite | hover
      · refine (applyOperator_finite laws hafinite hbfinite h).imp id ?_
        rintro ⟨rfl, hzero, hinfinite⟩
        exact Or.inl (.quotient ha hb hafinite hbfinite hzero hinfinite)
      · exact Or.inr (Or.inr (Or.inr ⟨a, ha, hover⟩))
    · exact Or.inr (Or.inr (Or.inl hover))
  | negate operand span ih =>
    rw [valueAt_negate] at h
    rw [meets_negate]
    obtain ⟨a, ha, h⟩ := bind_eq_ok.mp h
    cases h
    exact (ih (fun t z span hz => hliterals t z span (.operand hz)) ha).imp laws.neg Or.inr

/-- Where something overflows, the value is not finite. -/
theorem Overflows.not_finite (laws : Scalar.Closed α) {e : Expr} (h : Overflows c s e) :
    ∃ x, e.valueAt c s = .ok x ∧ isFinite x = false := by
  cases h with
  | @quotient left right span a b hleft hright ha hb hzero hinfinite =>
    refine ⟨a / b, ?_, laws.infinite hinfinite⟩
    have hdivide : applyOperator .div a b = .ok (a / b) :=
      if_neg (Bool.eq_false_iff.mp hzero)
    rw [valueAt_binary, hleft]
    change right.valueAt c s >>= applyOperator .div a = _
    rw [hright]
    exact hdivide
  | @arguments fold args span xs hargs hover =>
    refine ⟨total fold xs, ?_, hover.total laws⟩
    rw [valueAt_call, hargs]
    exact applyBuiltin_fold fold xs
  | @terms fold symbol body span domain xs hdomain hterms hover =>
    refine ⟨total fold xs, ?_, hover.total laws⟩
    rw [valueAt_reduction, hdomain]
    dsimp only
    rw [hterms]
    rfl

/-- All values on the way are finite exactly if nothing overflows on the way. -/
theorem finite_iff_not_overflows (laws : Scalar.Closed α) (hcells : FiniteCells c) {e : Expr}
    (hliterals : FiniteLiterals c s e) :
    (∀ t part x, Visits c t part s e → part.valueAt c t = .ok x → isFinite x = true) ↔
      ∀ t part, Visits c t part s e → ¬ Overflows c t part := by
  constructor
  · intro hfinite t part hvisits hover
    obtain ⟨x, hx, hnot⟩ := hover.not_finite laws
    rw [hfinite t part x hvisits hx] at hnot
    cases hnot
  · intro hnone t part x hvisits hx
    have hpart : FiniteLiterals c t part := fun u y span hy =>
      hliterals u y span (hvisits.trans hy)
    rcases finite_or_overflows laws hcells hpart hx with hfinite | ⟨u, inner, hinner, hover⟩
    · exact hfinite
    · exact absurd hover (hnone u inner (hvisits.trans hinner))

end Expr

/-! ## Doubles -/

/-- The functions of doubles that have no definition here: they come with the platform. -/
structure Elementary where
  exp : Float → Float
  log : Float → Float
  sin : Float → Float
  cos : Float → Float
  tan : Float → Float
  pow : Float → Float → Float

namespace Elementary

/-- The numbers that energies are computed with, with other elementary functions. -/
abbrev scalar (m : Elementary) : Scalar Float :=
  { (inferInstance : Scalar Float) with
    exp := m.exp, log := m.log, sin := m.sin, cos := m.cos, tan := m.tan, pow := m.pow }

-- With the functions of the platform these are the numbers of a program.
example : scalar ⟨Float.exp, Float.log, Float.sin, Float.cos, Float.tan, Float.pow⟩ =
    (inferInstance : Scalar Float) := rfl

/-- Where elementary functions of finite numbers are finite, or defined at least. A power with a
negative base is where its exponent is an integer. -/
structure Regular (m : Elementary) : Prop where
  exp : ∀ x : Float, x.isFinite = true → (m.exp x).isNaN = false
  log : ∀ x : Float, x.isFinite = true → 0.0 < x → (m.log x).isFinite = true
  sin : ∀ x : Float, x.isFinite = true → (m.sin x).isFinite = true
  cos : ∀ x : Float, x.isFinite = true → (m.cos x).isFinite = true
  tan : ∀ x : Float, x.isFinite = true → (m.tan x).isFinite = true
  pow : ∀ x y : Float, x.isFinite = true → y.isFinite = true → (x < 0.0 → IsInteger y) →
    (m.pow x y).isNaN = false

theorem Regular.closed {m : Elementary} (hm : m.Regular) : @Scalar.Closed Float m.scalar := by
  have hzero : (0.0 : Float).isFinite = true := by decide +kernel
  have hone : (1.0 : Float).isFinite = true := by decide +kernel
  let scalar := m.scalar
  exact
    { zero := hzero
      one := hone
      infinite := Decimal.not_isFinite_of_isInf
      ofInt := Decimal.isFinite_of_ofInt?
      neg := Decimal.isFinite_neg
      abs := Decimal.isFinite_abs
      sqrt := fun {a} ha h => Decimal.isFinite_sqrt ha (of_decide_eq_false h)
      log := fun {a} ha h => by
        obtain ⟨hlt, heq⟩ := (Bool.or_eq_false_iff).mp h
        refine hm.log a ha (lt_of_not_lt (Decimal.isNaN_of_isFinite ha)
          (Decimal.isNaN_of_isFinite hzero) (of_decide_eq_false hlt) heq)
      sin := hm.sin _
      cos := hm.cos _
      tan := hm.tan _
      exp := fun ha h => Decimal.isFinite_of_not_isInf (hm.exp _ ha) h
      add := fun ha hb h => Decimal.isFinite_of_not_isInf (Decimal.isNaN_add ha hb) h
      sub := fun ha hb h => Decimal.isFinite_of_not_isInf (Decimal.isNaN_sub ha hb) h
      mul := fun ha hb h => Decimal.isFinite_of_not_isInf (Decimal.isNaN_mul ha hb) h
      div := fun ha hb hne h => Decimal.isFinite_of_not_isInf (Decimal.isNaN_div ha hb hne) h
      pow := fun {a b} ha hb hreal h => Decimal.isFinite_of_not_isInf
        (hm.pow a b ha hb fun hneg => isIntegral_iff.mp (hreal (decide_eq_true hneg))) h
      ofAdd := Decimal.isFinite_of_add
      ofMul := Decimal.isFinite_of_mul }

/-- Elementary functions that are right at 0, and the logarithm at 1. -/
def atZero : Elementary :=
  ⟨fun _ => 1.0, fun _ => 0.0, fun _ => 0.0, fun _ => 1.0, fun _ => 0.0, fun _ _ => 1.0⟩

theorem regular_atZero : atZero.Regular := by
  have hzero : (0.0 : Float).isFinite = true := by decide +kernel
  have hone : (1.0 : Float).isFinite = true := by decide +kernel
  exact ⟨fun _ _ => Decimal.isNaN_of_isFinite hone, fun _ _ _ => hzero, fun _ _ => hzero,
    fun _ _ => hone, fun _ _ => hzero, fun _ _ _ _ _ => Decimal.isNaN_of_isFinite hone⟩

end Elementary

namespace Expr

/-- With finite literals and cells, every value that an evaluation comes to, its result among them,
is finite exactly if no operation on the way overflows silently. Whatever else overflows is a
failure. -/
theorem finite_iff_no_silent_overflow {m : Elementary} (hm : m.Regular) {c : EvalContext Float}
    (hcells : ∀ name t, c.arrays.lookup name = some t → ∀ x ∈ t.cells, x.isFinite = true) {e : Expr}
    (hliterals : ∀ x span, .expr (.literal (.float x) span) ∈ e.walk → x.isFinite = true)
    (s : Symbols) :
    letI := m.scalar
    (∀ t part x, Visits c t part s e → part.valueAt c t = .ok x → x.isFinite = true) ↔
      ∀ t part, Visits c t part s e → ¬ Overflows c t part := by
  let scalar := m.scalar
  exact finite_iff_not_overflows hm.closed hcells fun t x span h => hliterals x span h.mem_walk

/-- Zero, and a number so small that one over it is beyond the range of doubles. -/
def tiny : EvalContext Float := ⟨[("z", Tensor.scalar 0.0), ("y", Tensor.scalar 1e-310)], 0, []⟩

theorem finiteCells_tiny (name : String) (t : Tensor Float) (h : tiny.arrays.lookup name = some t) :
    ∀ x ∈ t.cells, x.isFinite = true := by
  have hzero : (0.0 : Float).isFinite = true := by decide +kernel
  have hsmall : (1e-310 : Float).isFinite = true := by decide +kernel
  unfold tiny at h
  dsimp only at h
  rw [List.lookup_cons] at h
  split at h
  · cases h
    simpa [Tensor.scalar] using hzero
  · rw [List.lookup_cons] at h
    split at h
    · cases h
      simpa [Tensor.scalar] using hsmall
    · cases h

/-- One over the small number is accepted, and its evaluation comes to a number that is not
finite. -/
theorem finite_iff_no_silent_overflow_tiny :
    ∃ f, Formula.ofText "exp(z) / y" .unspecified = .ok f ∧
      letI := Elementary.atZero.scalar
      ¬ ∀ t part x, Visits tiny t part [] f.body → part.valueAt tiny t = .ok x →
        x.isFinite = true := by
  let scalar := Elementary.atZero.scalar
  let one : Expr := call .exp [.ref "z" [] ⟨4, 5⟩] ⟨0, 6⟩
  let quotient : Expr := binary .div one (.ref "y" [] ⟨9, 10⟩) ⟨0, 10⟩
  have hquotient : ofTokens 0 [⟨.name, "exp", 0, 3⟩, ⟨.openParen, "(", 3, 4⟩, ⟨.name, "z", 4, 5⟩,
      ⟨.closeParen, ")", 5, 6⟩, ⟨.operator .div, "/", 7, 8⟩, ⟨.name, "y", 9, 10⟩] =
        .ok quotient := by cbv
  have hparse : Expr.parse "exp(z) / y" = .ok quotient :=
    parse_of_derives (by with_unfolding_all rfl) (ofTokens_eq_ok.mp hquotient)
  have h : Formula.ofText "exp(z) / y" .unspecified =
      .ok ⟨"exp(z) / y", quotient, .unspecified⟩ := Formula.ofText_unspecified hparse
  have hz : (ref "z" [] ⟨4, 5⟩).valueAt tiny [] = .ok 0.0 := by
    rw [valueAt_name]
    rfl
  have hy : (ref "y" [] ⟨9, 10⟩).valueAt tiny [] = .ok 1e-310 := by
    rw [valueAt_name]
    rfl
  have hone : one.valueAt tiny [] = .ok 1.0 := by
    have hunchecked : ¬ ((1.0 : Float).isInf && (0.0 : Float).isFinite) = true := by decide +kernel
    rw [valueAt_call, mapM_eq_ok.mpr (.cons hz .nil)]
    exact if_neg hunchecked
  have hliterals : ∀ x span, .expr (.literal (.float x) span) ∈ quotient.walk →
      x.isFinite = true := by
    intro x span hmem
    simp [quotient, one, walk_binary, walk_call, walk_ref] at hmem
  refine ⟨_, h, fun hall => ?_⟩
  have hnone := (finite_iff_no_silent_overflow Elementary.regular_atZero finiteCells_tiny
    hliterals []).mp hall
  refine hnone [] quotient .here (.quotient hone hy ?_ ?_ ?_ ?_)
  · change (1.0 : Float).isFinite = true
    decide +kernel
  · change (1e-310 : Float).isFinite = true
    decide +kernel
  · change ((1e-310 : Float) == 0.0) = false
    decide +kernel
  · change (1.0 / 1e-310 : Float).isInf = true
    decide +kernel

end Expr

end EnergyGraph
