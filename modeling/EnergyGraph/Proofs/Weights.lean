-- When the evaluation of a weight misses a cell. A weight has no symbols, so that its value
-- follows the structure of the expression with nothing to carry along. The check of a weight
-- goes by the names alone: it looks at no index, and what stands behind an indexed name is
-- found out when the evaluation comes to it.
import EnergyGraph.Proofs.Progress
import EnergyGraph.Proofs.Values

namespace EnergyGraph

/-! ## Failed look-ups -/

section

variable {α β γ : Type}

/-- A result is a failed look-up. -/
def Misses (x : Except (EvalFailure α) β) : Prop := ∃ v, x = .error (.lookup v)

theorem not_misses {x : Except (EvalFailure α) β} (h : ∀ e, x = .error e → e.isLookup = false) :
    ¬ Misses x := by
  rintro ⟨v, rfl⟩
  cases h _ rfl

theorem misses_bind {x : Except (EvalFailure α) β} {f : β → Except (EvalFailure α) γ} :
    Misses (x >>= f) ↔ Misses x ∨ ∃ b, x = .ok b ∧ Misses (f b) := by
  simp only [Misses, bind_eq_error, exists_or]
  exact or_congr_right ⟨fun ⟨v, b, hb, h⟩ => ⟨b, hb, v, h⟩, fun ⟨b, hb, v, h⟩ => ⟨v, b, hb, h⟩⟩

/-- A list of steps fails by the look-up of one of them, those before it being fine. -/
theorem misses_mapM {f : β → Except (EvalFailure α) γ} {xs : List β} :
    Misses (xs.mapM f) ↔ ∃ before x after, xs = before ++ x :: after ∧
      (∀ y ∈ before, ∃ c, f y = .ok c) ∧ Misses (f x) := by
  constructor
  · rintro ⟨v, h⟩
    obtain ⟨before, x, after, rfl, hbefore, h⟩ := mapM_eq_error.mp h
    exact ⟨before, x, after, rfl, hbefore, v, h⟩
  · rintro ⟨before, x, after, rfl, hbefore, v, h⟩
    exact ⟨v, mapM_eq_error.mpr ⟨before, x, after, rfl, hbefore, h⟩⟩

end

namespace Expr

variable {α : Type} [Scalar α] {arrays : Arrays α} {base : Int}

/-- There are no symbols, and a name that stands alone is that of an array with one cell. -/
inductive Plain (arrays : Arrays α) : Expr → Prop
  | literal {value span} : Plain arrays (.literal value span)
  | single {name span t} (h : arrays.lookup name = some t) (hsize : t.cells.size = 1) :
    Plain arrays (.ref name [] span)
  | cell {name first rest span} (h : ∀ i ∈ first :: rest, i.symbol? = none) :
    Plain arrays (.ref name (first :: rest) span)
  | call {function args span} (h : ∀ e ∈ args, Plain arrays e) :
    Plain arrays (.call function args span)
  | binary {op left right span} (hleft : Plain arrays left) (hright : Plain arrays right) :
    Plain arrays (.binary op left right span)
  | negate {operand span} (h : Plain arrays operand) : Plain arrays (.negate operand span)

/-- What a part of a plain expression is. -/
def PlainPart (arrays : Arrays α) : Part → Prop
  | .expr (.ref name [] _) => ∃ t, arrays.lookup name = some t ∧ t.cells.size = 1
  | .expr (.ref _ (first :: rest) _) => ∀ i ∈ first :: rest, i.symbol? = none
  | .expr (.reduction ..) => False
  | _ => True

omit [Scalar α] in
theorem plain_of_parts {e : Expr} (h : ∀ p ∈ e.walk, PlainPart arrays p) : Plain arrays e := by
  induction e with
  | literal value span => exact .literal
  | ref name indices span =>
    rw [walk_ref] at h
    cases indices with
    | nil =>
      obtain ⟨t, ht, hsize⟩ := h _ List.mem_cons_self
      exact .single ht hsize
    | cons first rest => exact .cell (h _ List.mem_cons_self)
  | reduction fold symbol body span _ =>
    rw [walk_reduction] at h
    cases h _ List.mem_cons_self
  | call function args span ih =>
    rw [walk_call] at h
    refine .call fun a ha => ih a ha fun p hp => ?_
    exact h p (List.mem_cons_of_mem _ (List.mem_flatMap.mpr ⟨a, ha, hp⟩))
  | binary op left right span ihl ihr =>
    rw [walk_binary] at h
    exact .binary
      (ihl fun p hp => h p (List.mem_cons_of_mem _ (List.mem_append_left _ hp)))
      (ihr fun p hp => h p (List.mem_cons_of_mem _ (List.mem_append_right _ hp)))
  | negate operand span ih =>
    rw [walk_negate] at h
    exact .negate (ih fun p hp => h p (List.mem_cons_of_mem _ hp))

/-! ## Values without symbols -/

section

variable {function : Builtin} {args : List Expr} {op : Operator} {left right operand : Expr}
  {span : Span}

theorem evaluateScalar_name {name : String} :
    (ref name [] span).evaluateScalar arrays base = scalarNamed ⟨arrays, base, []⟩ [] name :=
  valueAt_name

theorem evaluateScalar_cell {name : String} {first : Index} {rest : List Index} :
    (ref name (first :: rest) span).evaluateScalar arrays base =
      cellNamed ⟨arrays, base, []⟩ [] name (first :: rest) :=
  valueAt_cell

theorem evaluateScalar_call : (call function args span).evaluateScalar arrays base =
    args.mapM (fun a => a.evaluateScalar arrays base) >>= applyBuiltin function :=
  valueAt_call

theorem evaluateScalar_binary : (binary op left right span).evaluateScalar arrays base =
    left.evaluateScalar arrays base >>= fun a =>
      right.evaluateScalar arrays base >>= applyOperator op a :=
  valueAt_binary

theorem evaluateScalar_negate : (negate operand span).evaluateScalar arrays base =
    operand.evaluateScalar arrays base >>= fun a => .ok (-a) :=
  valueAt_negate

end

/-! ## Cells -/

/-- A position that is a number, and lies within its axis. -/
def IsInside (base : Int) (i : Index) (dimension : Nat) : Prop :=
  ∃ n span, i = .literal n span ∧ Bounds.isInside base dimension n = true

omit [Scalar α] in
theorem misses_cellAt {name : String} {a : Tensor α} {keys : List Int}
    (h : ¬ List.Forall₂ (fun k d => Bounds.isInside base d k = true) keys a.shape) :
    Misses (cellAt name a keys base) := by
  unfold cellAt
  by_cases hlength : keys.length = a.rank
  · rw [if_neg (not_not.mpr hlength)]
    dsimp only
    split
    · exact ⟨_, rfl⟩
    · rename_i hnone
      exact absurd ((outside_eq_none_iff hlength).mp hnone) h
  · rw [if_pos hlength]
    exact ⟨_, rfl⟩

omit [Scalar α] in
/-- Numbers in an index list stand for themselves. -/
theorem keys_of_literals {indices : List Index} (h : ∀ i ∈ indices, i.symbol? = none) :
    ∃ keys, indices.mapM (indexValue (α := α) []) = .ok keys ∧
      List.Forall₂ (fun i k => ∃ span, i = Index.literal k span) indices keys := by
  induction indices with
  | nil => exact ⟨[], rfl, .nil⟩
  | cons i rest ih =>
    obtain ⟨keys, hkeys, hall⟩ := ih fun j hj => h j (List.mem_cons_of_mem i hj)
    cases i with
    | symbol name span => cases h _ List.mem_cons_self
    | literal n span =>
      refine ⟨n :: keys, ?_, .cons ⟨span, rfl⟩ hall⟩
      rw [List.mapM_cons, hkeys]
      rfl

omit [Scalar α] in
/-- The look-up of a cell fails exactly if the array has no such cell, or is not there. -/
theorem misses_cellNamed {c : EvalContext α} {name : String} {indices : List Index}
    (h : ∀ i ∈ indices, i.symbol? = none) :
    Misses (cellNamed c [] name indices) ↔
      ¬ ∃ t, c.arrays.lookup name = some t ∧ List.Forall₂ (IsInside c.base) indices t.shape := by
  constructor
  · rintro hmiss ⟨t, ht, hinside⟩
    refine not_misses (fun e he => ?_) hmiss
    have hfits : List.Forall₂ (IndexFits (fun _ _ => False) c.base) indices t.shape := by
      apply hinside.imp
      rintro i d ⟨n, span, rfl, hn⟩
      exact hn
    have hknown : AllKnown [] indices := by
      intro name span hmem
      cases h _ hmem
    have hbound : Bound (fun _ _ => False) [] [] := by
      intro name hname
      cases hname
    exact cellNamed_of_fits ht hbound hknown hfits he
  · intro hnone
    unfold cellNamed
    rcases hlookup : c.arrays.lookup name with _ | t
    · exact ⟨_, rfl⟩
    · obtain ⟨keys, hkeys, hall⟩ := keys_of_literals (α := α) h
      simp only [hkeys]
      refine misses_cellAt fun hinside => hnone ⟨t, hlookup, ?_⟩
      apply forall₂_comp hall hinside
      rintro i k d ⟨span, rfl⟩ hk
      exact ⟨k, span, rfl, hk⟩

/-! ## Where an evaluation gets to -/

/-- The evaluation of an expression comes to a part of it: all that is evaluated before has a
value. -/
inductive Reaches (arrays : Arrays α) (base : Int) (part : Expr) : Expr → Prop
  | here : Reaches arrays base part part
  | argument {function before arg after span}
    (hbefore : ∀ a ∈ before, ∃ x, a.evaluateScalar arrays base = .ok x)
    (h : Reaches arrays base part arg) :
    Reaches arrays base part (.call function (before ++ arg :: after) span)
  | left {op left right span} (h : Reaches arrays base part left) :
    Reaches arrays base part (.binary op left right span)
  | right {op left right span x} (hleft : left.evaluateScalar arrays base = .ok x)
    (h : Reaches arrays base part right) : Reaches arrays base part (.binary op left right span)
  | operand {operand span} (h : Reaches arrays base part operand) :
    Reaches arrays base part (.negate operand span)

theorem Reaches.mem_walk {part e : Expr} (h : Reaches arrays base part e) :
    .expr part ∈ e.walk := by
  induction h with
  | here =>
    rw [walk_eq]
    exact List.mem_cons_self
  | argument _ _ ih =>
    rw [walk_call]
    exact List.mem_cons_of_mem _ (List.mem_flatMap.mpr ⟨_, by simp, ih⟩)
  | left _ ih =>
    rw [walk_binary]
    exact List.mem_cons_of_mem _ (List.mem_append_left _ ih)
  | right _ _ ih =>
    rw [walk_binary]
    exact List.mem_cons_of_mem _ (List.mem_append_right _ ih)
  | operand _ ih =>
    rw [walk_negate]
    exact List.mem_cons_of_mem _ ih

/-- The evaluation comes to a reference by indices, and there is no cell for it. -/
def ReachesNoCell (arrays : Arrays α) (base : Int) (e : Expr) : Prop :=
  ∃ name first rest span, Reaches arrays base (.ref name (first :: rest) span) e ∧
    ¬ ∃ t, arrays.lookup name = some t ∧ List.Forall₂ (IsInside base) (first :: rest) t.shape

section

variable {e : Expr} {name : String} {first : Index} {rest : List Index} {function : Builtin}
  {args : List Expr} {op : Operator} {left right operand : Expr} {value : Number} {span : Span}

theorem not_reachesNoCell_literal : ¬ ReachesNoCell arrays base (.literal value span) := by
  rintro ⟨name, first, rest, span, hreaches, -⟩
  cases hreaches

theorem not_reachesNoCell_name : ¬ ReachesNoCell arrays base (.ref name [] span) := by
  rintro ⟨name, first, rest, span, hreaches, -⟩
  cases hreaches

theorem reachesNoCell_cell : ReachesNoCell arrays base (.ref name (first :: rest) span) ↔
    ¬ ∃ t, arrays.lookup name = some t ∧ List.Forall₂ (IsInside base) (first :: rest) t.shape := by
  constructor
  · rintro ⟨name, first, rest, span, hreaches, hnone⟩
    cases hreaches
    exact hnone
  · exact fun hnone => ⟨name, first, rest, span, .here, hnone⟩

/-- The arguments of a call are gone through from left to right. -/
theorem reachesNoCell_call : ReachesNoCell arrays base (.call function args span) ↔
    ∃ before a after, args = before ++ a :: after ∧
      (∀ b ∈ before, ∃ x, b.evaluateScalar arrays base = .ok x) ∧ ReachesNoCell arrays base a := by
  constructor
  · rintro ⟨name, first, rest, span, hreaches, hnone⟩
    cases hreaches with
    | argument hbefore hreaches =>
      exact ⟨_, _, _, rfl, hbefore, name, first, rest, span, hreaches, hnone⟩
  · rintro ⟨before, a, after, rfl, hbefore, name, first, rest, span, hreaches, hnone⟩
    exact ⟨name, first, rest, span, .argument hbefore hreaches, hnone⟩

theorem reachesNoCell_binary : ReachesNoCell arrays base (.binary op left right span) ↔
    ReachesNoCell arrays base left ∨
      ∃ x, left.evaluateScalar arrays base = .ok x ∧ ReachesNoCell arrays base right := by
  constructor
  · rintro ⟨name, first, rest, span, hreaches, hnone⟩
    cases hreaches with
    | left hreaches => exact Or.inl ⟨name, first, rest, span, hreaches, hnone⟩
    | right hx hreaches => exact Or.inr ⟨_, hx, name, first, rest, span, hreaches, hnone⟩
  · rintro (⟨name, first, rest, span, hreaches, hnone⟩ |
      ⟨x, hx, name, first, rest, span, hreaches, hnone⟩)
    · exact ⟨name, first, rest, span, .left hreaches, hnone⟩
    · exact ⟨name, first, rest, span, .right hx hreaches, hnone⟩

theorem reachesNoCell_negate : ReachesNoCell arrays base (.negate operand span) ↔
    ReachesNoCell arrays base operand := by
  constructor
  · rintro ⟨name, first, rest, span, hreaches, hnone⟩
    cases hreaches with
    | operand hreaches => exact ⟨name, first, rest, span, hreaches, hnone⟩
  · rintro ⟨name, first, rest, span, hreaches, hnone⟩
    exact ⟨name, first, rest, span, .operand hreaches, hnone⟩

/-- A plain expression fails by a look-up exactly if its evaluation comes to a missing cell. -/
theorem misses_iff (h : Plain arrays e) :
    Misses (e.evaluateScalar arrays base) ↔ ReachesNoCell arrays base e := by
  induction h with
  | literal =>
    refine iff_of_false ?_ not_reachesNoCell_literal
    rintro ⟨v, hv⟩
    unfold evaluateScalar evaluate eval at hv
    split at hv <;> cases hv
  | single ht hsize =>
    rw [evaluateScalar_name]
    refine iff_of_false (not_misses fun _ he => ?_) not_reachesNoCell_name
    exact scalarNamed_of_single ht hsize he
  | cell hliterals => rw [evaluateScalar_cell, misses_cellNamed hliterals, reachesNoCell_cell]
  | @call function args span _ ih =>
    have hbuiltin : ∀ xs : List α, ¬ Misses (applyBuiltin function xs) := fun xs =>
      not_misses fun _ => applyBuiltin_not_lookup
    rw [evaluateScalar_call, misses_bind, misses_mapM, reachesNoCell_call]
    simp only [hbuiltin, and_false, exists_false, or_false]
    constructor
    · rintro ⟨before, a, after, rfl, hbefore, hmiss⟩
      exact ⟨before, a, after, rfl, hbefore, (ih a (by simp)).mp hmiss⟩
    · rintro ⟨before, a, after, rfl, hbefore, hmiss⟩
      exact ⟨before, a, after, rfl, hbefore, (ih a (by simp)).mpr hmiss⟩
  | @binary op left right span _ _ ihl ihr =>
    have hoperator : ∀ x y : α, ¬ Misses (applyOperator op x y) := fun x y =>
      not_misses fun _ => applyOperator_not_lookup
    rw [evaluateScalar_binary, misses_bind, reachesNoCell_binary, ihl]
    simp only [misses_bind, hoperator, and_false, exists_false, or_false, ihr]
  | @negate operand span _ ih =>
    have hok : ∀ x : α, ¬ Misses (.ok (-x) : Except (EvalFailure α) α) := by
      rintro x ⟨v, h⟩
      cases h
    rw [evaluateScalar_negate, misses_bind, reachesNoCell_negate, ih]
    simp only [hok, and_false, exists_false, or_false]

end

end Expr

/-! ## Weights of a graph -/

namespace Graph

variable {d : Document} {s : Surroundings} {dataShapes : List (String × Shape)} {asm : Assembly}
  {g : Graph} {w : Formula}

/-- Indices point at a cell of the array that a name of the graph stands for. -/
def HasCell (g : Graph) (data : Lookup) (name : String) (indices : List Index) : Prop :=
  ∃ shape, g.shapeOf? data name = some shape ∧ List.Forall₂ (Expr.IsInside g.base) indices shape

/-- A weight of the graph is that of a use in the document, and was accepted. -/
theorem Assembled.weight (hg : Assembled d s dataShapes asm g) (hw : w ∈ g.weights) :
    ∃ u : Formula, w = u.substitute s.parameters [] ∧
      WeightOk (scopeOf s g.vars dataShapes) w := by
  rcases List.mem_append.mp hw with hw | hw
  · obtain ⟨n, hn, hw⟩ := List.mem_flatMap.mp hw
    obtain ⟨r, hr, rfl⟩ := List.mem_map.mp hw
    obtain ⟨h, -, hstores⟩ := exists_of_mem_right hg.hamiltonians hn
    obtain ⟨u, -, hrefers⟩ := exists_of_mem_right hstores.refs hr
    exact ⟨u.weight, hrefers.weight, hrefers.weight_ok⟩
  · obtain ⟨r, hr, rfl⟩ := List.mem_map.mp hw
    obtain ⟨u, -, hrefers⟩ := exists_of_mem_right hg.ensemble hr
    exact ⟨u.weight, hrefers.weight, hrefers.weight_ok⟩

/-- The weight of a component in a hamiltonian of the document is one of the graph's. -/
theorem Assembled.weight_of_use (hg : Assembled d s dataShapes asm g) {h : HamiltonianDecl}
    (hh : h ∈ d.hamiltonians) {u : WeightedUse} (hu : u ∈ h.components) :
    u.weight.substitute s.parameters [] ∈ g.weights := by
  obtain ⟨n, hn, hstores⟩ := exists_of_mem_left hg.hamiltonians hh
  obtain ⟨r, hr, hrefers⟩ := exists_of_mem_left hstores.refs hu
  refine List.mem_append_left _ (List.mem_flatMap.mpr ⟨n, hn, ?_⟩)
  exact List.mem_map.mpr ⟨r, hr, hrefers.weight⟩

theorem WeightOk.symbol?_eq {scope : Scope} (h : WeightOk scope w) {name : String}
    {indices : List Index} {span : Span} (hpart : .expr (.ref name indices span) ∈ w.body.walk)
    {i : Index} (hi : i ∈ indices) : i.symbol? = none := by
  cases i with
  | literal n span => rfl
  | symbol symbol span =>
    have hmem : symbol ∈ w.body.indexSymbols := Expr.mem_indexSymbols.mpr ⟨_, _, _, _, hpart, hi⟩
    rw [h.indexSymbols] at hmem
    cases hmem

/-- The weights of a graph are plain, whatever values the graph is evaluated with. -/
theorem Supplied.plain {values : Arrays Float} (hvalues : Supplied g s.data values)
    (hg : Assembled d s dataShapes asm g) (hw : w ∈ g.weights) : Expr.Plain values w.body := by
  obtain ⟨u, rfl, hok⟩ := hg.weight hw
  refine Expr.plain_of_parts fun part hpart => ?_
  match part with
  | .expr (.ref name [] span) =>
    have hnames : name ∈ (u.substitute s.parameters []).body.names :=
      Expr.mem_names.mpr ⟨_, _, hpart⟩
    have hkept : name ∉ [] ++ u.body.reductionSymbols := by
      intro hmem
      have hstays : name ∈ (u.substitute s.parameters []).body.reductionSymbols :=
        Expr.reductionSymbols_replace.mpr hmem
      rw [hok.reductionSymbols] at hstays
      cases hstays
    exact hvalues.single hg (mem_referencedArrays (List.mem_append_right _ hw) hpart)
      (hok.names name hnames) hkept (Expr.replacement?_of_mem_walk hpart)
  | .expr (.ref name (first :: rest) span) => exact fun i hi => hok.symbol?_eq hpart hi
  | .expr (.reduction fold symbol body span) =>
    have hmem : symbol ∈ (u.substitute s.parameters []).body.reductionSymbols :=
      Expr.mem_reductionSymbols.mpr ⟨_, _, _, hpart⟩
    rw [hok.reductionSymbols] at hmem
    cases hmem
  | .expr (.literal ..) | .expr (.call ..) | .expr (.binary ..) | .expr (.negate ..) | .index _ =>
    trivial

section

variable {e : Energy.Evaluation Float} {path : List String}

theorem lookup_of_weightValue :
    (∃ diag, Energy.weightValue e w path = .error (.diagnostic diag) ∧ diag.code ∈ lookupCodes) ↔
      Misses (w.body.evaluateScalar e.arrays e.graph.base) := by
  unfold Energy.weightValue
  rcases w.body.evaluateScalar e.arrays e.graph.base with f | x
  · cases f with
    | domain v =>
      constructor
      · rintro ⟨diag, h, hcode⟩
        cases h
        exact absurd hcode (by decide : Energy.domainCode ∉ lookupCodes)
      · rintro ⟨v, h⟩
        cases h
    | lookup v => exact ⟨fun _ => ⟨v, rfl⟩, fun _ => ⟨_, rfl, v.code_mem⟩⟩
    | refusal kind =>
      constructor
      · rintro ⟨diag, h, -⟩
        cases h
      · rintro ⟨v, h⟩
        cases h
  · constructor
    · rintro ⟨diag, h, -⟩
      cases h
    · rintro ⟨v, h⟩
      cases h

/-- A weight fails by an operation outside of its domain, or by a look-up. -/
theorem code_of_weightValue {diag : Diagnostic}
    (h : Energy.weightValue e w path = .error (.diagnostic diag)) :
    diag.code = Energy.domainCode ∨ diag.code ∈ lookupCodes := by
  unfold Energy.weightValue at h
  rcases hrun : w.body.evaluateScalar e.arrays e.graph.base with f | x
  · rw [hrun] at h
    cases f with
    | domain v =>
      cases h
      exact Or.inl rfl
    | lookup v =>
      cases h
      exact Or.inr v.code_mem
    | refusal kind => cases h
  · rw [hrun] at h
    cases h

end

/-- A cell is missing from the arrays exactly if the graph has none. -/
theorem Supplied.reachesNoCell_iff {data : Lookup} {values : Arrays Float}
    (hvalues : Supplied g data values) (hw : w ∈ g.weights) :
    Expr.ReachesNoCell values g.base w.body ↔ ∃ name first rest span,
      Expr.Reaches values g.base (.ref name (first :: rest) span) w.body ∧
        ¬ g.HasCell data name (first :: rest) := by
  have hsame : ∀ {name first rest span},
      Expr.Reaches values g.base (.ref name (first :: rest) span) w.body →
        ((∃ t, values.lookup name = some t ∧
          List.Forall₂ (Expr.IsInside g.base) (first :: rest) t.shape) ↔
            g.HasCell data name (first :: rest)) := by
    intro name first rest span hreaches
    have hname : name ∈ g.referencedArrays :=
      mem_referencedArrays (List.mem_append_right _ hw) hreaches.mem_walk
    unfold HasCell
    rw [← hvalues.shape_eq hname]
    constructor
    · rintro ⟨t, ht, hinside⟩
      exact ⟨t.shape, by rw [ht]; rfl, hinside⟩
    · rintro ⟨shape, hshape, hinside⟩
      obtain ⟨t, ht, rfl⟩ := Option.map_eq_some_iff.mp hshape
      exact ⟨t, ht, hinside⟩
  constructor
  · rintro ⟨name, first, rest, span, hreaches, hnone⟩
    exact ⟨name, first, rest, span, hreaches, fun h => hnone ((hsame hreaches).mpr h)⟩
  · rintro ⟨name, first, rest, span, hreaches, hnone⟩
    exact ⟨name, first, rest, span, hreaches, fun h => hnone ((hsame hreaches).mp h)⟩

/-- A weight of a graph that was built fails by a look-up exactly if its evaluation comes to a
reference by indices to a cell that the graph does not have. Apart from that, the only mistake of a
weight is an operation outside of its domain. -/
theorem weight_fails_iff {d : Document} {o : BuildOptions} {data : Lookup}
    {e : Energy.Evaluation Float} (h : build d o = .ok e.graph) (hdata : o.dataFor d = .ok data)
    (hvalues : Supplied e.graph data e.arrays) :
    ∀ w ∈ e.graph.weights, ∀ path,
      ((∃ diag, Energy.weightValue e w path = .error (.diagnostic diag) ∧
          diag.code ∈ lookupCodes) ↔
        ∃ name first rest span,
          Expr.Reaches e.arrays e.graph.base (.ref name (first :: rest) span) w.body ∧
            ¬ e.graph.HasCell data name (first :: rest)) ∧
      ∀ diag, Energy.weightValue e w path = .error (.diagnostic diag) →
        diag.code = Energy.domainCode ∨ diag.code ∈ lookupCodes := by
  obtain ⟨parameters, data', -, hdata', hclean⟩ := build_eq_ok.mp h
  rw [hdata] at hdata'
  cases hdata'
  obtain ⟨dataShapes, asm, hg⟩ := assembled_of_clean hclean
  intro w hw path
  refine ⟨?_, fun _ => code_of_weightValue⟩
  rw [lookup_of_weightValue, Expr.misses_iff (hvalues.plain hg hw), hvalues.reachesNoCell_iff hw]

/-- The sample with a second variable of one cell, and a weight that asks for its sixth. -/
def beyond : Document :=
  { sample with
    vars := sample.vars ++ [⟨"q", .continuous, [.size 1], .null, .null⟩]
    hamiltonians := [⟨"H",
      [⟨"total", ⟨"q[5]", .ref "q" [.literal 5 ⟨2, 3⟩] ⟨0, 4⟩, .unspecified⟩⟩], [], none⟩] }

/-- The graph is built, and its weight fails by a look-up. -/
theorem weight_fails_beyond : ∃ (e : Energy.Evaluation Float) (w : Formula) (diag : Diagnostic),
    build beyond withoutData = .ok e.graph ∧ w ∈ e.graph.weights ∧
      Energy.weightValue e w ["hamiltonians", "H", "components", "0"] =
        .error (.diagnostic diag) ∧ diag.code ∈ lookupCodes := by
  let x : Tensor Float := ⟨[3], #[1.0, 2.0, 3.0], rfl⟩
  let q : Tensor Float := ⟨[1], #[2.0], rfl⟩
  let a : Assignment Float := fun name =>
    if name = "x" then some (.ok x) else if name = "q" then some (.ok q) else none
  obtain ⟨e, hg, hsupplied⟩ := exists_supplied (d := beyond) (a := a) (by decide +kernel)
  have hshape : (build beyond withoutData).toOption.map (·.shapeOf? Lookup.nothing "q") =
      some (some [1]) := by decide +kernel
  have hbase : (build beyond withoutData).toOption.map (·.base) = some 0 := by decide +kernel
  rw [hg] at hshape hbase
  have hshape : e.graph.shapeOf? Lookup.nothing "q" = some [1] := Option.some.inj hshape
  have hbase : e.graph.base = 0 := Option.some.inj hbase
  obtain ⟨parameters, data, -, -, hclean⟩ := build_eq_ok.mp hg
  obtain ⟨dataShapes, asm, hassembled⟩ := assembled_of_clean hclean
  have hw := hassembled.weight_of_use List.mem_cons_self List.mem_cons_self
  have hnone : ¬ e.graph.HasCell Lookup.nothing "q" [.literal 5 ⟨2, 3⟩] := by
    rintro ⟨shape, hfound, hinside⟩
    rw [hshape] at hfound
    cases hfound
    obtain ⟨⟨n, span, hn, hinside⟩, -⟩ := List.forall₂_cons.mp hinside
    cases hn
    rw [hbase] at hinside
    cases hinside
  obtain ⟨⟨-, hfails⟩, -⟩ := weight_fails_iff hg rfl hsupplied _ hw _
  obtain ⟨diag, hdiag, hcode⟩ := hfails ⟨"q", _, [], ⟨0, 4⟩, .here, hnone⟩
  exact ⟨e, _, diag, hg, hw, hdiag, hcode⟩

end Graph

end EnergyGraph
