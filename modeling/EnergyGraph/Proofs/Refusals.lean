-- When an evaluation is refused. Apart from operations outside of their domain and from names
-- that stand for nothing, an evaluation of an accepted expression fails in two ways only: at an
-- integer without a finite double, and at the largest or the smallest of a single number.
import EnergyGraph.Proofs.FiniteDoubles
import EnergyGraph.Proofs.Legible
import EnergyGraph.Proofs.Positions
import EnergyGraph.Proofs.Values

namespace EnergyGraph

variable {α : Type}

/-! ## Cells -/

/-- A position within all axes has a place. -/
theorem Shape.exists_offset? {shape : Shape} {position : List Nat}
    (h : List.Forall₂ (· < ·) position shape) : ∃ o, shape.offset? position = some o := by
  induction h with
  | nil => exact ⟨0, rfl⟩
  | @cons k d position shape hk _ ih =>
    obtain ⟨r, hr⟩ := ih
    exact ⟨_, Shape.offset?_cons_eq_some.mpr ⟨hk, r, hr, rfl⟩⟩

/-- A position within all axes has a cell. -/
theorem Tensor.exists_at? {t : Tensor α} {position : List Nat}
    (h : List.Forall₂ (· < ·) position t.shape) : ∃ x, t.at? position = some x := by
  obtain ⟨o, ho⟩ := Shape.exists_offset? h
  have hlt : o < t.cells.size := by
    rw [t.size_eq]
    exact Shape.offset?_lt ho
  exact ⟨t.cells[o], Tensor.at?_eq_some_iff.mpr ⟨o, ho, Array.getElem?_eq_getElem hlt⟩⟩

namespace Expr

variable {c : EvalContext α} {s : Symbols} {kind : Refusal.Kind}

theorem cellAt_not_refused {name : String} {a : Tensor α} {keys : List Int} {base : Int} :
    cellAt name a keys base ≠ .error (.refusal kind) := by
  unfold cellAt
  by_cases hlength : keys.length = a.rank
  · rw [if_neg (not_not.mpr hlength)]
    dsimp only
    split
    · exact nofun
    · rename_i hnone
      have hinside := (outside_eq_none_iff hlength).mp hnone
      have hposition : List.Forall₂ (· < ·) (keys.map fun k => (k - base).toNat) a.shape := by
        rw [List.forall₂_map_left_iff]
        refine hinside.imp fun k d hk => ?_
        unfold Bounds.isInside at hk
        simp only [Bool.and_eq_true, decide_eq_true_eq] at hk
        omega
      obtain ⟨x, hx⟩ := Tensor.exists_at? hposition
      rw [hx]
      exact nofun
  · rw [if_pos hlength]
    exact nofun

theorem cellNamed_not_refused {name : String} {indices : List Index} :
    cellNamed c s name indices ≠ .error (.refusal kind) := by
  unfold cellNamed
  split
  · exact nofun
  · rw [ne_eq, bind_eq_error]
    rintro (h | ⟨keys, -, h⟩)
    · obtain ⟨before, i, after, -, -, hi⟩ := mapM_eq_error.mp h
      unfold indexValue at hi
      split at hi
      · cases hi
      · split at hi <;> cases hi
    · exact cellAt_not_refused h

variable [Scalar α]

theorem literal_eq_refused {n : Int} {span : Span} :
    (literal (.int n) span).valueAt c s = .error (.refusal kind) ↔
      (Scalar.ofInt? n : Option α) = none ∧ kind = .tooLarge := by
  rw [valueAt_literal, Scalar.ofNumber?]
  rcases (Scalar.ofInt? n : Option α) with _ | x <;> simp [eq_comm]

theorem scalarNamed_eq_refused {name : String} : scalarNamed c s name = .error (.refusal kind) ↔
    ∃ k, s.lookup name = some k ∧ (Scalar.ofInt? k : Option α) = none ∧ kind = .tooLarge := by
  unfold scalarNamed
  rcases s.lookup name with _ | k
  · refine iff_of_false (fun h => ?_) (by simp)
    dsimp only at h
    split at h
    · cases h
    · split at h <;> cases h
  · rcases h : (Scalar.ofInt? k : Option α) with _ | x
    · simp [h, eq_comm]
    · simp [h]

/-! ## Operations -/

omit [Scalar α] in
theorem checked_domain {p : Prop} [Decidable p] {v : DomainViolation α} {x : α} :
    (if p then .error (.domain v) else .ok x : Except (EvalFailure α) α) ≠
      .error (.refusal kind) := by
  split <;> exact nofun

/-- An operator is never refused: its operands may be outside of its domain. -/
theorem applyOperator_not_refused {op : Operator} {left right : α} :
    applyOperator op left right ≠ .error (.refusal kind) := by
  cases op with
  | add => exact checked_domain
  | sub => exact checked_domain
  | mul => exact checked_domain
  | div => exact checked_domain
  | pow =>
    unfold applyOperator power
    dsimp only
    split
    · exact nofun
    · split
      · exact nofun
      · exact checked_domain

/-- The largest and the smallest of a single number are refused, and with the counts of arguments
that a function accepts, nothing else. -/
theorem applyBuiltin_eq_refused {function : Builtin} {xs : List α}
    (hcount : function.accepts xs.length = true) :
    applyBuiltin function xs = .error (.refusal kind) ↔
      (function = .max ∨ function = .min) ∧ xs.length = 1 ∧ kind = .badType := by
  match xs with
  | [] => cases function <;> cases hcount
  | [x] =>
    cases function with
    | sqrt | exp | log | sin | cos | tan => exact iff_of_false checked_domain (by simp)
    | abs | sum | prod => exact iff_of_false nofun (by simp)
    | max | min => simp [applyBuiltin, applyUnary, eq_comm]
  | _ :: _ :: _ =>
    cases function with
    | sum | prod | max | min => exact iff_of_false nofun (by simp)
    | sqrt | exp | log | abs | sin | cos | tan =>
      simp [Builtin.accepts, Builtin.isVariadic] at hcount

/-! ## Expressions -/

/-- A part of an expression is refused itself: what it is made of has values. -/
inductive Refused (c : EvalContext Float) (s : Symbols) : Expr → Refusal.Kind → Prop
  | literal {n span} (h : Decimal.limit ≤ n.natAbs) :
    Refused c s (.literal (.int n) span) .tooLarge
  | symbol {name span k} (h : s.lookup name = some k) (hk : Decimal.limit ≤ k.natAbs) :
    Refused c s (.ref name [] span) .tooLarge
  | lone {function arg span x} (hfunction : function = .max ∨ function = .min)
    (harg : arg.valueAt c s = .ok x) : Refused c s (.call function [arg] span) .badType

section

variable {c : EvalContext Float} {span : Span}

theorem refused_literal {value : Number} :
    (literal value span).valueAt c s = .error (.refusal kind) ↔
      Refused c s (.literal value span) kind := by
  cases value with
  | float x => exact iff_of_false nofun nofun
  | int n =>
    rw [literal_eq_refused]
    constructor
    · rintro ⟨hnone, rfl⟩
      exact .literal (Decimal.ofInt?_eq_none_iff.mp hnone)
    · rintro (hlarge | _ | _)
      exact ⟨Decimal.ofInt?_eq_none_iff.mpr hlarge, rfl⟩

theorem refused_ref {name : String} {indices : List Index} :
    (ref name indices span).valueAt c s = .error (.refusal kind) ↔
      Refused c s (.ref name indices span) kind := by
  cases indices with
  | nil =>
    rw [valueAt_name, scalarNamed_eq_refused]
    constructor
    · rintro ⟨k, hk, hnone, rfl⟩
      exact .symbol hk (Decimal.ofInt?_eq_none_iff.mp hnone)
    · rintro (_ | ⟨hk, hlarge⟩ | _)
      exact ⟨_, hk, Decimal.ofInt?_eq_none_iff.mpr hlarge, rfl⟩
  | cons first rest =>
    rw [valueAt_cell]
    exact iff_of_false cellNamed_not_refused nofun

theorem refused_call {function : Builtin} {args : List Expr}
    (hcount : function.accepts args.length = true) : Refused c s (.call function args span) kind ↔
      ∃ xs, args.mapM (valueAt c s) = .ok xs ∧
        applyBuiltin function xs = .error (.refusal kind) := by
  constructor
  · rintro (_ | _ | @⟨_, arg, _, x, hfunction, harg⟩)
    have hone : function.accepts [x].length = true := hcount
    refine ⟨[x], mapM_eq_ok.mpr (.cons harg .nil), ?_⟩
    exact (applyBuiltin_eq_refused hone).mpr ⟨hfunction, rfl, rfl⟩
  · rintro ⟨xs, hxs, h⟩
    have hall := mapM_eq_ok.mp hxs
    rw [hall.length_eq] at hcount
    obtain ⟨hfunction, hlength, rfl⟩ := (applyBuiltin_eq_refused hcount).mp h
    obtain ⟨x, rfl⟩ := List.length_eq_one_iff.mp hlength
    obtain ⟨arg, rest, harg, hrest, rfl⟩ := List.forall₂_cons_right_iff.mp hall
    cases hrest
    exact .lone hfunction harg

end

/-- Where all calls have arguments that they accept, an evaluation is refused exactly if it comes
to a part that is refused itself. -/
theorem valueAt_eq_refused {P : Number → Prop} {c : EvalContext Float} {e : Expr}
    (h : Legible P e) {s : Symbols} : e.valueAt c s = .error (.refusal kind) ↔
      Meets c (fun t part => Refused c t part kind) s e := by
  induction h generalizing s with
  | literal => rw [meets_literal, refused_literal]
  | ref => rw [meets_ref, refused_ref]
  | @reduction fold symbol body span _ _ _ ih =>
    rw [valueAt_reduction, meets_reduction]
    have hself : ¬ Refused c s (.reduction fold symbol body span) kind := nofun
    rcases hdomain : c.domains.lookup symbol with _ | domain
    · refine iff_of_false nofun ?_
      rintro (h | ⟨_, _, _, h, -⟩)
      · exact hself h
      · cases h
    · dsimp only
      simp only [map_eq_error, mapM_eq_error, ih, hself, false_or, Option.some.injEq]
  | @call function args span _ hcount _ ih =>
    rw [valueAt_call, bind_eq_error, mapM_eq_error, meets_call, refused_call hcount, or_comm]
    refine or_congr_right ⟨?_, ?_⟩
    · rintro ⟨before, a, after, rfl, hbefore, h⟩
      exact ⟨before, a, after, rfl, hbefore, (ih a (by simp)).mp h⟩
    · rintro ⟨before, a, after, rfl, hbefore, h⟩
      exact ⟨before, a, after, rfl, hbefore, (ih a (by simp)).mpr h⟩
  | @binary op left right span _ _ ihleft ihright =>
    rw [valueAt_binary, meets_binary]
    have hself : ¬ Refused c s (.binary op left right span) kind := nofun
    simp only [bind_eq_error, ihleft, ihright, applyOperator_not_refused, hself, and_false,
      exists_false, or_false, false_or]
  | @negate operand span _ ih =>
    rw [valueAt_negate, meets_negate]
    have hself : ¬ Refused c s (.negate operand span) kind := nofun
    simp only [bind_eq_error, ih, hself, false_or, reduceCtorEq, and_false, exists_false, or_false]

end Expr

namespace Formula

/-- The evaluation of an accepted formula gives a number, or fails by an operation outside of its
domain or by a look-up, exactly if it comes to no part that is refused itself; and it is refused as
such a part is. -/
theorem refused_iff {v : Value} {arity : Arity} {f : Formula} (h : ofValue v arity = .ok f)
    (c : EvalContext Float) (s : Symbols) :
    (((∃ x, f.body.valueAt c s = .ok x) ∨ (∃ d, f.body.valueAt c s = .error (.domain d)) ∨
        ∃ l, f.body.valueAt c s = .error (.lookup l)) ↔
      ∀ t part kind, Expr.Visits c t part s f.body → ¬ Expr.Refused c t part kind) ∧
    ∀ kind, f.body.valueAt c s = .error (.refusal kind) ↔
      ∃ t part, Expr.Visits c t part s f.body ∧ Expr.Refused c t part kind := by
  have hrefused : ∀ kind, f.body.valueAt c s = .error (.refusal kind) ↔
      ∃ t part, Expr.Visits c t part s f.body ∧ Expr.Refused c t part kind :=
    fun kind => Expr.valueAt_eq_refused (legible_of_ofValue h)
  refine ⟨?_, hrefused⟩
  constructor
  · intro hdeclared t part kind hvisits hpart
    rw [(hrefused kind).mpr ⟨t, part, hvisits, hpart⟩] at hdeclared
    rcases hdeclared with ⟨x, hx⟩ | ⟨d, hd⟩ | ⟨l, hl⟩
    · cases hx
    · cases hd
    · cases hl
  · intro hnone
    rcases hvalue : f.body.valueAt c s with (d | l | kind) | x
    · exact Or.inr (Or.inl ⟨d, rfl⟩)
    · exact Or.inr (Or.inr ⟨l, rfl⟩)
    · obtain ⟨t, part, hvisits, hpart⟩ := (hrefused kind).mp hvalue
      exact absurd hpart (hnone t part kind hvisits)
    · exact Or.inl ⟨x, rfl⟩

/-- The largest of a single number is accepted, and its evaluation is refused. -/
theorem refused_iff_lone : ∃ f, ofValue (.text "max(x)") .unspecified = .ok f ∧
    f.body.valueAt ⟨[("x", Tensor.scalar 2.5)], 0, []⟩ [] = .error (.refusal .badType) := by
  have hcall : Expr.ofTokens 0 [⟨.name, "max", 0, 3⟩, ⟨.openParen, "(", 3, 4⟩, ⟨.name, "x", 4, 5⟩,
      ⟨.closeParen, ")", 5, 6⟩] = .ok (.call .max [.ref "x" [] ⟨4, 5⟩] ⟨0, 6⟩) := by cbv
  have hparse : Expr.parse "max(x)" = .ok (.call .max [.ref "x" [] ⟨4, 5⟩] ⟨0, 6⟩) :=
    Expr.parse_of_derives (by with_unfolding_all rfl) (Expr.ofTokens_eq_ok.mp hcall)
  have h : ofValue (.text "max(x)") .unspecified =
      .ok ⟨"max(x)", .call .max [.ref "x" [] ⟨4, 5⟩] ⟨0, 6⟩, .unspecified⟩ :=
    mapError_eq_ok.mpr (ofText_unspecified hparse)
  have hx : (Expr.ref "x" [] ⟨4, 5⟩).valueAt ⟨[("x", Tensor.scalar 2.5)], 0, []⟩ [] = .ok 2.5 := by
    rw [Expr.valueAt_name]
    rfl
  exact ⟨_, h, ((refused_iff h _ _).2 _).mpr ⟨[], _, .here, .lone (Or.inl rfl) hx⟩⟩

end Formula

end EnergyGraph
