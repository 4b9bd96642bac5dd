-- The plain reading of expressions. What a symbol stands for is told by an environment that
-- is never changed: a reduction reads its body in the environment around it, extended by the
-- present value of its symbol. The evaluation, which writes into one table instead and puts
-- back what it has overwritten, comes to the same value or to the same first failure, and
-- its table is in the end what it was before.
import EnergyGraph.Proofs.Steps
import EnergyGraph.Proofs.Values

namespace EnergyGraph

variable {α : Type}

/-! ## Environments -/

/-- Symbols with their values, the innermost first. A symbol that is bound again hides what it
stood for further out. -/
abbrev Environment := List (String × Int)

/-- Writing a symbol into a table is extending the environment, as far as looking up goes. -/
theorem Symbols.agrees_extend {env : Environment} {s : Symbols} (h : Agrees env s)
    (symbol : String) (k : Int) : Agrees ((symbol, k) :: env) (s.set symbol k) := by
  intro name
  by_cases hname : name = symbol
  · rw [hname, lookup_set_self, List.lookup_cons_self]
  · rw [lookup_set_ne hname, lookup_cons_of_ne hname]
    exact h name

namespace Expr

variable [Scalar α] {c : EvalContext α} {s t : Symbols}

mutual

/-- The value of an expression in an environment, or the first failure on the way to it. -/
def denote (c : EvalContext α) (env : Environment) : Expr → Except (EvalFailure α) α
  | .literal value _ =>
    match Scalar.ofNumber? value with
    | some x => .ok x
    | none => .error (.refusal .tooLarge)
  | .ref name [] _ => scalarNamed c env name
  | .ref name indices _ => cellNamed c env name indices
  | .reduction fold symbol body _ =>
    match c.domains.lookup symbol with
    | none => .error (.lookup (.noDomain symbol))
    | some domain =>
      domain.foldlM (fun acc k => do .ok (step fold acc (← body.denote c ((symbol, k) :: env))))
        (start fold)
  | .call function args _ => do applyBuiltin function (← denoteAll c env args)
  | .binary op left right _ => do
    let a ← left.denote c env
    let b ← right.denote c env
    applyOperator op a b
  | .negate operand _ => do .ok (-(← operand.denote c env))

def denoteAll (c : EvalContext α) (env : Environment) :
    List Expr → Except (EvalFailure α) (List α)
  | [] => .ok []
  | e :: rest => do
    let a ← e.denote c env
    let others ← denoteAll c env rest
    .ok (a :: others)

end

theorem denoteAll_eq (env : Environment) (args : List Expr) :
    denoteAll c env args = args.mapM (denote c env) := by
  induction args with
  | nil => rfl
  | cons e rest ih =>
    rw [denoteAll, List.mapM_cons, ih]
    rfl

/-! ## Tables and environments -/

theorem scalarNamed_congr (h : s.Agrees t) (name : String) :
    scalarNamed c t name = scalarNamed c s name := by
  unfold scalarNamed
  rw [h name]

omit [Scalar α] in
theorem indexValue_congr (h : s.Agrees t) (i : Index) :
    indexValue (α := α) t i = indexValue s i := by
  cases i with
  | literal n span => rfl
  | symbol name span =>
    simp only [indexValue, h name]

omit [Scalar α] in
theorem cellNamed_congr (h : s.Agrees t) (name : String) (indices : List Index) :
    cellNamed c t name indices = cellNamed c s name indices := by
  unfold cellNamed
  rw [mapM_congr fun i _ => indexValue_congr h i]

/-- The values of a table are those of any environment in which its symbols stand for the same. -/
theorem valueAt_eq_denote {env : Environment} (h : Symbols.Agrees env s) (e : Expr) :
    e.valueAt c s = e.denote c env := by
  -- The table and the environment drift apart in the body of a reduction, and agree all the same.
  induction e generalizing s env with
  | literal value span => exact valueAt_literal.trans (denote.eq_1 c env value span).symm
  | ref name indices span =>
    cases indices with
    | nil => rw [valueAt_name, denote, scalarNamed_congr h]
    | cons first rest =>
      rw [valueAt_cell, denote, cellNamed_congr h]
      exact List.cons_ne_nil first rest
  | reduction fold symbol body span ih =>
    rw [valueAt_reduction, denote]
    cases c.domains.lookup symbol with
    | none => rfl
    | some domain =>
      have hbody : ∀ k, body.valueAt c (s.set symbol k) = body.denote c ((symbol, k) :: env) :=
        fun k => ih (Symbols.agrees_extend h symbol k)
      dsimp only
      rw [foldl_mapM]
      simp only [hbody]
  | call function args span ih =>
    rw [valueAt_call, denote, denoteAll_eq, mapM_congr fun a ha => ih a ha h]
  | binary op left right span ihl ihr => rw [valueAt_binary, denote, ihl h, ihr h]
  | negate operand span ih => rw [valueAt_negate, denote, ih h]

/-! ## Evaluation -/

/-- An evaluation has the value of the plain reading, or its first failure, and leaves the table
of symbols as it was, whatever happened on the way. -/
theorem evaluate_eq_denote (e : Expr) (c : EvalContext α) (s : Symbols) :
    e.evaluate c s = (e.denote c s, s) := by
  have hvalue : e.valueAt c s = e.denote c s := valueAt_eq_denote (Symbols.Agrees.refl s) e
  rw [← hvalue]
  exact gives_eval e s

end Expr

end EnergyGraph
