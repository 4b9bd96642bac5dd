-- The energy of a graph whose indices count from another number. The two evaluations go
-- side by side: points, symbols and domains have moved in one of them, and the values are
-- the same in both. Failures tell of other indices, but have the same code and path.
import EnergyGraph.Proofs.Enumeration
import EnergyGraph.Proofs.IndexShift
import EnergyGraph.Proofs.Memoization

namespace EnergyGraph

/-! ## Two computations side by side -/

/-- The same failure, or diagnostics that differ at most in their words and in their context. -/
inductive SameCode : Failure → Failure → Prop
  | refl (e : Failure) : SameCode e e
  | diagnostic {d d' : Diagnostic} (category : d'.category = d.category) (code : d'.code = d.code)
    (path : d'.path = d.path) : SameCode (.diagnostic d) (.diagnostic d')

/-- The second computation has the image of the first one's result, or fails with the same code. -/
inductive Follows {β γ : Type} (image : β → γ) : Except Failure β → Except Failure γ → Prop
  | ok (b : β) : Follows image (.ok b) (.ok (image b))
  | error {e e' : Failure} (same : SameCode e e') : Follows image (.error e) (.error e')

namespace Follows

variable {β γ β' γ' ι κ : Type} {image : β → γ} {image' : β' → γ'} {x : Except Failure β}
  {y : Except Failure γ}

theorem of_map (h : y = x.map image) : Follows image x y := by
  subst h
  cases x with
  | ok b => exact .ok b
  | error e => exact .error (.refl e)

theorem eq_ok {b : β} (h : Follows image (.ok b) y) : y = .ok (image b) := by
  cases h
  rfl

theorem refl (x : Except Failure β) : Follows id x x := by
  cases x with
  | ok b => exact .ok b
  | error e => exact .error (.refl e)

theorem bind {f : β → Except Failure β'} {g : γ → Except Failure γ'} (h : Follows image x y)
    (hrest : ∀ b, Follows image' (f b) (g (image b))) : Follows image' (x >>= f) (y >>= g) := by
  cases h with
  | ok b => exact hrest b
  | error same => exact .error same

theorem map {f : β → β'} {g : γ → γ'} (h : Follows image x y)
    (hfg : ∀ b, g (image b) = image' (f b)) : Follows image' (x.map f) (y.map g) := by
  cases h with
  | ok b =>
    change Follows image' (.ok (f b)) (.ok (g (image b)))
    rw [hfg]
    exact .ok (f b)
  | error same => exact .error same

/-- A traversal follows another one when its steps do. -/
theorem mapM {move : ι → κ} {f : ι → Except Failure β} {g : κ → Except Failure γ} {xs : List ι}
    (h : ∀ a ∈ xs, Follows image (f a) (g (move a))) :
    Follows (List.map image) (xs.mapM f) ((xs.map move).mapM g) := by
  induction xs with
  | nil => exact .ok []
  | cons a rest ih =>
    rw [List.map_cons, List.mapM_cons, List.mapM_cons]
    refine (h a List.mem_cons_self).bind fun b => ?_
    exact (ih fun a ha => h a (List.mem_cons_of_mem _ ha)).bind fun bs => .ok (b :: bs)

end Follows

/-! ## Audits of what has moved -/

namespace Audit

variable {α : Type}

/-- A value at an index that has moved. -/
def Instance.shift (k : Int) (i : Instance α) : Instance α := { i with index := moved k i.index }

def Component.shift (k : Int) (c : Component α) : Component α :=
  { c with instances := c.instances.map (·.shift k) }

/-- The same audit, but for the indices of the instances. -/
def Tree.shift (k : Int) (t : Tree α) : Tree α :=
  { t with components := t.components.map (·.shift k) }

end Audit

namespace Energy

variable {α : Type} [Scalar α] {k : Int}

/-! ## Terms -/

def Evaluation.shift (k : Int) (e : Evaluation α) : Evaluation α :=
  { e with graph := e.graph.shift k }

omit [Scalar α] in
theorem Evaluation.shift_graph (e : Evaluation α) : (e.shift k).graph = e.graph.shift k := rfl

/-- A point whose index, symbols and domains have moved. -/
def Point.shift (k : Int) (p : Point) : Point :=
  ⟨moved k p.index, p.group, p.symbols.shift k, shiftDomains k p.domains⟩

theorem sameCode_failureOf {tell tell' : Violation → Fault}
    (h : ∀ v v', v'.code = v.code → SameCode (.diagnostic (tell v).diagnostic)
      (.diagnostic (tell' v').diagnostic)) (f : EvalFailure α) :
    SameCode (failureOf tell f) (failureOf tell' (f.shift k)) := by
  cases f with
  | domain v => exact h _ _ rfl
  | lookup v => exact h _ _ (v.code_shift k)
  | refusal r => exact .refl _

theorem sameCode_badInstance (s : Site) (symbols symbols' : Symbols) {v v' : Violation}
    (h : v'.code = v.code) : SameCode (.diagnostic (Fault.badInstance s symbols v).diagnostic)
      (.diagnostic (Fault.badInstance s symbols' v').diagnostic) :=
  .diagnostic rfl h rfl

variable {e : Evaluation α} {s : Site} {c : EvalContext α} {symbols : Symbols} {bound : List String}

/-- The symbols that are bound and the symbols of reductions are among the bound ones, none of
which stands alone in some expressions. -/
structure Placed (bound : List String) (c : EvalContext α) (symbols : Symbols) (exprs : List Expr) :
    Prop where
  domains : ∀ p ∈ c.domains, p.1 ∈ bound
  symbols : ∀ p ∈ symbols, p.1 ∈ bound
  exprs : ∀ expr ∈ exprs, ∀ name ∈ bound, ¬ expr.StandsAlone name

theorem evalExpr_eq (expr : Expr) : evalExpr s c symbols expr =
    (expr.valueAt c symbols).mapError (failureOf (Fault.badInstance s symbols)) := by
  have hrun : expr.evaluate c symbols = (expr.valueAt c symbols, symbols) :=
    Expr.gives_eval expr symbols
  unfold evalExpr
  rw [hrun]
  cases expr.valueAt c symbols <;> rfl

theorem evalArgs_eq (exprs : List Expr) : evalArgs s c symbols exprs =
    ((exprs.mapM (Expr.valueAt c symbols)).map fun values => (values, symbols)).mapError
      (failureOf (Fault.badInstance s symbols)) := by
  have hrun : (Expr.evalAll c exprs).run.run symbols =
      (exprs.mapM (Expr.valueAt c symbols), symbols) :=
    Expr.gives_evalAll fun expr _ => Expr.gives_eval expr symbols
  unfold evalArgs
  rw [hrun]
  cases exprs.mapM (Expr.valueAt c symbols) <;> rfl

theorem follows_evalExpr {expr : Expr} (h : Placed bound c symbols [expr]) :
    Follows id (evalExpr s c symbols expr)
      (evalExpr s (c.shift k) (symbols.shift k) (expr.shift k)) := by
  rw [evalExpr_eq, evalExpr_eq,
    Expr.valueAt_shift h.domains h.symbols (h.exprs expr List.mem_cons_self)]
  cases expr.valueAt c symbols with
  | ok x => exact .ok x
  | error f =>
    exact .error (sameCode_failureOf (fun _ _ hv => sameCode_badInstance s _ _ hv) f)

theorem follows_evalArgs {exprs : List Expr} (h : Placed bound c symbols exprs) :
    Follows (Prod.map id (·.shift k)) (evalArgs s c symbols exprs)
      (evalArgs s (c.shift k) (symbols.shift k) (exprs.map (·.shift k))) := by
  have hargs : (exprs.map (·.shift k)).mapM (Expr.valueAt (c.shift k) (symbols.shift k)) =
      (exprs.mapM (Expr.valueAt c symbols)).mapError (EvalFailure.shift k) :=
    mapM_mapError_id fun expr hexpr =>
      Expr.valueAt_shift h.domains h.symbols (h.exprs expr hexpr)
  rw [evalArgs_eq, evalArgs_eq, hargs]
  cases exprs.mapM (Expr.valueAt c symbols) with
  | ok values => exact .ok (values, symbols)
  | error f =>
    exact .error (sameCode_failureOf (fun _ _ hv => sameCode_badInstance s _ _ hv) f)

omit [Scalar α] in
/-- A function sees its arguments only; the symbols are told when it fails. -/
theorem follows_callFunction (registry : Option (Registry α)) (function : String) (args : List α)
    (symbols' : Symbols) :
    Follows id (callFunction registry s function args symbols)
      (callFunction registry s function args symbols') := by
  unfold callFunction
  cases registry with
  | none => exact .error (.refl _)
  | some call =>
    dsimp only
    cases call function args with
    | ok x => exact .ok x
    | error r => exact .error (.diagnostic rfl rfl rfl)

theorem follows_termValue {t : Graph.TermNode}
    (h : Placed bound c symbols (t.formulas.map (·.body))) :
    Follows id (termValue e s t c symbols)
      (termValue (e.shift k) s (t.shift k) (c.shift k) (symbols.shift k)) := by
  unfold termValue
  rw [Graph.TermNode.shift_kind, Graph.TermNode.shift_expr]
  by_cases hkind : t.kind = .functional
  · rw [if_pos hkind, if_pos hkind]
    have hargs : Placed bound c symbols (t.args.map (·.body)) := by
      refine ⟨h.domains, h.symbols, fun expr hexpr => h.exprs expr ?_⟩
      unfold Graph.TermNode.formulas
      rw [List.map_append]
      exact List.mem_append_right _ hexpr
    have hshift : (t.shift k).args.map (·.body) = (t.args.map (·.body)).map (·.shift k) := by
      change (t.args.map (·.shift k)).map (·.body) = _
      rw [List.map_map, List.map_map]
      rfl
    rw [hshift]
    refine (follows_evalArgs hargs).bind ?_
    rintro ⟨args, after⟩
    exact follows_callFunction e.registry _ args _
  · rw [if_neg hkind, if_neg hkind]
    cases hexpr : t.expr with
    | none => exact .error (.refl _)
    | some f =>
      have hplaced : Placed bound c symbols [f.body] := by
        refine ⟨h.domains, h.symbols, fun expr hmem => h.exprs expr ?_⟩
        rw [List.mem_singleton.mp hmem]
        unfold Graph.TermNode.formulas
        rw [hexpr]
        simp
      exact follows_evalExpr hplaced

/-! ## Points -/

/-- The symbols that the points of an interaction have values for; a matrix binds one. -/
def boundSymbols (i : Interaction) : List String :=
  match i.domain with
  | .factor _ => [i.symbols.headD ""]
  | _ => i.symbols

theorem reductionDomains_shift (i : Interaction) (reductions : List String) :
    reductionDomains (i.shift k) reductions =
      (reductionDomains i reductions).map (shiftDomains k) := by
  apply mapM_image
  intro symbol _
  rw [Interaction.rangeOf_shift]
  cases i.rangeOf symbol with
  | error e => rfl
  | ok r => exact congrArg (fun ks => Except.ok (symbol, ks)) (Range.values_shift r)

theorem zip_shift (symbols : List String) (ks : List Int) :
    symbols.zip (moved k ks) = Symbols.shift k (symbols.zip ks) := by
  unfold moved Symbols.shift
  rw [List.zip_map_right]
  rfl

theorem tupleSymbols_shift (i : Interaction) (free : List String) :
    tupleSymbols (i.shift k) free = tupleSymbols i free := by
  obtain ⟨id, symbols, domain, base⟩ := i
  cases domain <;> rfl

/-- The points of an interaction without groups are its tuples, each with all domains. -/
theorem points_eq {i : Interaction} (h : i.kind ≠ .groups) (free reductions : List String) :
    points i free reductions = (do
      let domains ← reductionDomains i reductions
      let tuples ← i.tuples (tupleSymbols i free)
      .ok (tuples.map fun ks => ⟨ks, none, (tupleSymbols i free).zip ks, domains⟩)) := by
  unfold points
  split
  · rename_i members hdomain
    exact absurd (by rw [Interaction.kind, hdomain]; rfl) h
  · rfl

/-- The points of a list of groups. -/
theorem points_groups {i : Interaction} {members : List (List Int)}
    (h : i.domain = .groups members) (free reductions : List String) :
    points i free reductions = .ok (members.zipIdx.map fun (ks, g) =>
      ⟨ks, some g, [], (i.symbols.take 1).map fun s => (s, ks)⟩) := by
  unfold points
  rw [h]

theorem points_shift (i : Interaction) (free reductions : List String) :
    points (i.shift k) free reductions = (points i free reductions).map (List.map (·.shift k)) := by
  by_cases hgroups : ∃ members, i.domain = .groups members
  · obtain ⟨members, hdomain⟩ := hgroups
    have hshift : (i.shift k).domain = .groups (members.map (moved k)) :=
      congrArg (Interaction.Domain.shift k) hdomain
    rw [points_groups hdomain, points_groups hshift]
    refine congrArg Except.ok ?_
    rw [List.zipIdx_map, List.map_map, List.map_map]
    refine List.map_congr_left fun p _ => ?_
    simp only [Function.comp_apply, Point.shift, shiftDomains, List.map_map]
    rfl
  · have hkind : i.kind ≠ .groups := by
      intro h
      cases hdomain : i.domain with
      | groups members => exact hgroups ⟨members, hdomain⟩
      | _ =>
        rw [Interaction.kind, hdomain] at h
        cases h
    rw [points_eq hkind, points_eq (i.kind_shift ▸ hkind), reductionDomains_shift,
      tupleSymbols_shift, Interaction.tuples_shift]
    cases reductionDomains i reductions with
    | error e => rfl
    | ok domains =>
      cases i.tuples (tupleSymbols i free) with
      | error e => rfl
      | ok tuples =>
        refine congrArg Except.ok ?_
        rw [List.map_map, List.map_map]
        refine List.map_congr_left fun ks _ => ?_
        simp only [Function.comp_apply, Point.shift, zip_shift]

/-- All points of an interaction move with the base. -/
theorem allPoints_shift (base : Int) (i : Interaction) (free reductions : List String) :
    allPoints (base + k) (i.shift k) free reductions =
      (allPoints base i free reductions).map (List.map (·.shift k)) := by
  have hrest := points_shift (k := k) i free reductions
  obtain ⟨id, symbols, domain, ibase⟩ := i
  cases domain with
  | factor matrix =>
    refine congrArg Except.ok ?_
    unfold columnPoints
    rw [List.map_map]
    refine List.map_congr_left fun n _ => ?_
    simp only [Function.comp_apply, Point.shift, moved, Symbols.shift, shiftDomains, List.map_cons,
      List.map_nil, Interaction.shift, Int.add_right_comm]
  | _ => exact hrest

/-! ## Where points have their symbols from -/

theorem fst_mem_of_zip {symbols : List String} {ks : List Int} :
    ∀ p ∈ symbols.zip ks, p.1 ∈ symbols := by
  rintro ⟨symbol, n⟩ hp
  exact (List.of_mem_zip hp).1

theorem symbol_of_rangeOf {i : Interaction} {symbol : String} {r : Range}
    (h : i.rangeOf symbol = .ok r) : symbol ∈ i.symbols := by
  unfold Interaction.rangeOf at h
  cases hplace : i.symbols.findIdx? (· == symbol) with
  | none =>
    rw [hplace] at h
    cases h
  | some place =>
    obtain ⟨hlt, heq, -⟩ := List.findIdx?_eq_some_iff_getElem.mp hplace
    rw [← eq_of_beq heq]
    exact List.getElem_mem hlt

theorem symbols_of_tuples {i : Interaction} {free : List String} {tuples : List (List Int)}
    (h : i.tuples (tupleSymbols i free) = .ok tuples) : tupleSymbols i free ⊆ i.symbols := by
  cases hdomain : i.domain with
  | ranges bounds =>
    have hsymbols : tupleSymbols i free = free := by
      unfold tupleSymbols
      rw [hdomain]
    rw [hsymbols] at h ⊢
    unfold Interaction.tuples at h
    rw [hdomain] at h
    obtain ⟨ranges, hranges, -⟩ := bind_eq_ok.mp h
    intro symbol hsymbol
    obtain ⟨r, -, hr⟩ := exists_of_mem_left (mapM_eq_ok.mp hranges) hsymbol
    exact symbol_of_rangeOf (rangeOf_of_countable hr)
  | _ =>
    unfold tupleSymbols
    rw [hdomain]
    exact List.Subset.refl _

theorem keys_of_reductionDomains {i : Interaction} {reductions : List String}
    {domains : List (String × List Int)} (h : reductionDomains i reductions = .ok domains) :
    ∀ q ∈ domains, q.1 ∈ i.symbols := by
  intro q hq
  obtain ⟨symbol, -, hsymbol⟩ := exists_of_mem_right (mapM_eq_ok.mp h) hq
  obtain ⟨r, hr, hpair⟩ := bind_eq_ok.mp hsymbol
  cases hpair
  exact symbol_of_rangeOf hr

/-- Every symbol that has a value or a domain at a point is bound by the interaction. -/
theorem bound_of_allPoints {base : Int} {i : Interaction} {free reductions : List String}
    {ps : List Point} (h : allPoints base i free reductions = .ok ps) {p : Point} (hp : p ∈ ps) :
    (∀ q ∈ p.symbols, q.1 ∈ boundSymbols i) ∧ ∀ q ∈ p.domains, q.1 ∈ boundSymbols i := by
  cases hdomain : i.domain with
  | factor matrix =>
    unfold allPoints at h
    rw [hdomain] at h
    cases h
    obtain ⟨n, -, rfl⟩ := List.mem_map.mp hp
    unfold boundSymbols
    rw [hdomain]
    exact ⟨by simp, by simp⟩
  | groups members =>
    unfold allPoints at h
    rw [hdomain] at h
    change points i free reductions = .ok ps at h
    rw [points_groups hdomain] at h
    cases h
    obtain ⟨⟨ks, g⟩, -, rfl⟩ := List.mem_map.mp hp
    unfold boundSymbols
    rw [hdomain]
    refine ⟨by simp, fun q hq => ?_⟩
    obtain ⟨symbol, hsymbol, rfl⟩ := List.mem_map.mp hq
    exact List.mem_of_mem_take hsymbol
  | _ =>
    have hbound : boundSymbols i = i.symbols := by
      unfold boundSymbols
      rw [hdomain]
    have hkind : i.kind ≠ .groups := by
      rw [Interaction.kind, hdomain]
      exact fun h => by cases h
    unfold allPoints at h
    rw [hdomain] at h
    obtain ⟨ks, tuples, htuples, -, hsymbols, hdomains⟩ := mem_points hkind h hp
    rw [hbound, hsymbols]
    refine ⟨fun q hq => symbols_of_tuples htuples (fst_mem_of_zip q hq), ?_⟩
    exact keys_of_reductionDomains hdomains

/-! ## Instances -/

/-- The symbols that an interaction binds stand alone in no formula of a term. -/
def IndexOnly (i : Interaction) (t : Graph.TermNode) : Prop :=
  ∀ f ∈ t.formulas, ∀ name ∈ boundSymbols i, ¬ f.body.StandsAlone name

theorem follows_valueAt {i : Interaction} {t : Graph.TermNode} {free reductions : List String}
    {ps : List Point} (hi : IndexOnly i t)
    (h : allPoints e.graph.base i free reductions = .ok ps) {p : Point} (hp : p ∈ ps) :
    Follows id (valueAt e s t p) (valueAt (e.shift k) s (t.shift k) (p.shift k)) := by
  obtain ⟨hsymbols, hdomains⟩ := bound_of_allPoints h hp
  have hplaced : Placed (boundSymbols i) (contextAt e p.domains) p.symbols
      (t.formulas.map (·.body)) := by
    refine ⟨hdomains, hsymbols, ?_⟩
    rintro expr hexpr
    obtain ⟨f, hf, rfl⟩ := List.mem_map.mp hexpr
    exact hi f hf
  exact follows_termValue (e := e) hplaced

section

variable {e' : Evaluation α} {t t' : Graph.TermNode} {ps : List Point} {move : Point → Point}
  {image : Audit.Instance α → Audit.Instance α}

/-- Points that have moved have the images of the instances, if the values at them follow. -/
theorem follows_pointInstances
    (himage : ∀ p x, image ⟨p.index, x, p.group⟩ = ⟨(move p).index, x, (move p).group⟩)
    (h : ∀ p ∈ ps, Follows id (valueAt e s t p) (valueAt e' s t' (move p))) :
    Follows (List.map image) (pointInstances e s t ps) (pointInstances e' s t' (ps.map move)) := by
  apply Follows.mapM
  intro p hp
  refine (h p hp).bind fun x => ?_
  rw [id_eq, ← himage]
  exact .ok _

theorem follows_rowInstances {i i' : Interaction} (matrix : Tensor Float)
    (hcompat : t'.compat = t.compat) (hid : i'.id = i.id)
    (himage : ∀ (row : Nat) x,
      image ⟨[e.graph.base + row], x, none⟩ = ⟨[e'.graph.base + row], x, none⟩)
    (h : ∀ p ∈ ps, Follows id (valueAt e s t p) (valueAt e' s t' (move p))) :
    Follows (List.map image) (rowInstances e s t i matrix ps)
      (rowInstances e' s t' i' matrix (ps.map move)) := by
  unfold rowInstances
  rw [hcompat, hid]
  split
  · exact .error (.refl _)
  · refine (Follows.mapM h).bind fun values => ?_
    rw [List.map_id_fun, id_eq]
    apply Follows.of_map
    refine congrArg Except.ok ?_
    rw [List.map_map]
    exact List.map_congr_left fun row _ => (himage row _).symm

end

/-- The instances of a component are those of the original, at indices that have moved. -/
theorem follows_instances {n : Graph.ComponentNode} {t : Graph.TermNode} {i : Interaction}
    (hi : IndexOnly i t) :
    Follows (List.map (·.shift k)) (instances e n t i)
      (instances (e.shift k) n (t.shift k) (i.shift k)) := by
  have hpoints : (e.shift k).graph.base = e.graph.base + k := rfl
  have hall := allPoints_shift (k := k) e.graph.base i n.free n.reductions
  have hvalues : ∀ ps, allPoints e.graph.base i n.free n.reductions = .ok ps → ∀ p ∈ ps,
      Follows id (valueAt e ⟨n.id, t.id⟩ t p)
        (valueAt (e.shift k) ⟨n.id, t.id⟩ (t.shift k) (p.shift k)) :=
    fun ps hps p hp => follows_valueAt hi hps hp
  unfold instances
  rw [hpoints, hall]
  cases hdomain : i.domain with
  | factor matrix =>
    have hshift : (i.shift k).domain = .factor matrix :=
      congrArg (Interaction.Domain.shift k) hdomain
    rw [hshift]
    cases hps : allPoints e.graph.base i n.free n.reductions with
    | error err => exact .error (.refl err)
    | ok ps =>
      refine follows_rowInstances matrix rfl rfl (fun row x => ?_) (hvalues ps hps)
      simp only [Audit.Instance.shift, moved, List.map_cons, List.map_nil, hpoints,
        Int.add_right_comm]
  | _ =>
    have hshift := congrArg (Interaction.Domain.shift k) hdomain
    change (i.shift k).domain = _ at hshift
    rw [hshift]
    cases hps : allPoints e.graph.base i n.free n.reductions with
    | error err => exact .error (.refl err)
    | ok ps => exact follows_pointInstances (fun _ _ => rfl) (hvalues ps hps)

/-! ## Components -/

theorem follows_evalComponent {n : Graph.ComponentNode} {t : Graph.TermNode} {i : Interaction}
    (hi : IndexOnly i t) :
    Follows (·.shift k) (evalComponent e n t i)
      (evalComponent (e.shift k) n (t.shift k) (i.shift k)) := by
  unfold evalComponent
  refine (follows_instances hi).bind fun found => ?_
  have hvalues : (found.map (·.shift k)).map (·.value) = found.map (·.value) := by
    rw [List.map_map]
    rfl
  rw [hvalues]
  refine (Follows.refl _).bind fun value => Follows.of_map ?_
  refine congrArg Except.ok ?_
  simp only [Audit.Component.shift, List.length_map, List.map_take]
  rfl

end Energy

/-- In every component the bound symbols stand in index lists only. -/
def Graph.IndexOnly (g : Graph) : Prop :=
  ∀ n ∈ g.components, ∀ t i, g.terms[n.term]? = some t →
    g.interactions[n.interaction]? = some i → Energy.IndexOnly i t

namespace Energy

variable {α : Type} [Scalar α] {k : Int} {e : Evaluation α}

theorem follows_componentAt (hg : e.graph.IndexOnly) (place : Nat) :
    Follows (·.shift k) (componentAt e place) (componentAt (e.shift k) place) := by
  unfold componentAt
  rw [Evaluation.shift_graph, Graph.shift_components, Graph.shift_terms, Graph.shift_interactions]
  cases hn : e.graph.components[place]? with
  | none => exact .error (.refl _)
  | some n =>
    simp only [Option.bind_eq_bind, Option.bind_some, List.getElem?_map]
    cases ht : e.graph.terms[n.term]? with
    | none => exact .error (.refl _)
    | some t =>
      cases hi : e.graph.interactions[n.interaction]? with
      | none => exact .error (.refl _)
      | some i => exact follows_evalComponent (hg n (List.mem_of_getElem? hn) t i ht hi)

/-! ## What is kept -/

/-- The audits that are kept, at indices that have moved. -/
def shiftKept (k : Int) (kept : Kept α) : Kept α := kept.map fun p => (p.1, p.2.shift k)

omit [Scalar α] in
theorem lookup_shiftKept (kept : Kept α) (place : Nat) :
    (shiftKept k kept).lookup place = (kept.lookup place).map (·.shift k) := by
  induction kept with
  | nil => rfl
  | cons p rest ih =>
    rw [shiftKept, List.map_cons, List.lookup_cons, List.lookup_cons]
    cases place == p.1 with
    | true => rfl
    | false => exact ih

section

variable {β γ β' γ' ι κ : Type} {image : β → γ} {image' : β' → γ'}

/-- The second evaluation follows the first, and so does what it keeps. -/
def Tracks (k : Int) (image : β → γ) (x : Keeping α β) (y : Keeping α γ) : Prop :=
  ∀ kept : Kept α, Follows (fun r => (image r.1, shiftKept k r.2)) (x.run kept)
    (y.run (shiftKept k kept))

omit [Scalar α] in
theorem tracks_pure (b : β) : Tracks (α := α) k image (pure b) (pure (image b)) :=
  fun kept => .ok (b, kept)

omit [Scalar α] in
theorem tracks_lift {x : Except Failure β} {y : Except Failure γ} (h : Follows image x y) :
    Tracks (α := α) k image (liftM x) (liftM y) := by
  intro kept
  cases h with
  | ok b => exact .ok (b, kept)
  | error same => exact .error same

omit [Scalar α] in
theorem tracks_bind {x : Keeping α β} {y : Keeping α γ} {f : β → Keeping α β'}
    {g : γ → Keeping α γ'} (h : Tracks k image x y)
    (hrest : ∀ b, Tracks k image' (f b) (g (image b))) : Tracks k image' (x >>= f) (y >>= g) := by
  intro kept
  rw [StateT.run_bind, StateT.run_bind]
  refine (h kept).bind ?_
  rintro ⟨b, kept⟩
  exact hrest b kept

omit [Scalar α] in
theorem tracks_mapM {move : ι → κ} {f : ι → Keeping α β} {g : κ → Keeping α γ} {xs : List ι}
    (h : ∀ a ∈ xs, Tracks k image (f a) (g (move a))) :
    Tracks k (List.map image) (xs.mapM f) ((xs.map move).mapM g) := by
  induction xs with
  | nil => exact tracks_pure []
  | cons a rest ih =>
    rw [List.map_cons, List.mapM_cons, List.mapM_cons]
    refine tracks_bind (h a List.mem_cons_self) fun b => ?_
    exact tracks_bind (ih fun a ha => h a (List.mem_cons_of_mem _ ha)) fun bs =>
      tracks_pure (b :: bs)

omit [Scalar α] in
theorem tracks_foldlM {move : ι → κ} {f : β → ι → Keeping α β} {g : β → κ → Keeping α β}
    {xs : List ι} (h : ∀ a ∈ xs, ∀ b, Tracks k id (f b a) (g b (move a))) (b : β) :
    Tracks k id (xs.foldlM f b) ((xs.map move).foldlM g b) := by
  induction xs generalizing b with
  | nil => exact tracks_pure b
  | cons a rest ih =>
    rw [List.map_cons, List.foldlM_cons, List.foldlM_cons]
    refine tracks_bind (h a List.mem_cons_self b) fun b => ?_
    exact ih (fun a ha => h a (List.mem_cons_of_mem _ ha)) b

end

theorem tracks_component (hg : e.graph.IndexOnly) (place : Nat) :
    Tracks k (·.shift k) (component e place) (component (e.shift k) place) := by
  intro kept
  rw [run_component, run_component, lookup_shiftKept]
  cases kept.lookup place with
  | some audit => exact .ok (audit, kept)
  | none =>
    refine (follows_componentAt (k := k) hg place).map fun audit => ?_
    simp only [shiftKept, List.map_append, List.map_cons, List.map_nil]

/-! ## Weights and sums -/

theorem sameCode_badWeight (path : List String) (source : String) {v v' : Violation}
    (h : v'.code = v.code) : SameCode (.diagnostic (Fault.badWeight path source v).diagnostic)
      (.diagnostic (Fault.badWeight path source v').diagnostic) :=
  .diagnostic rfl h rfl

/-- A weight has no symbols, and its literal indices move with the base. -/
theorem follows_weightValue (w : Formula) (path : List String) :
    Follows id (weightValue e w path) (weightValue (e.shift k) (w.shift k) path) := by
  have hvalue : (w.body.shift k).evaluateScalar e.arrays (e.graph.base + k) =
      (w.body.evaluateScalar e.arrays e.graph.base).mapError (EvalFailure.shift k) :=
    @Expr.valueAt_shift α k _ [] ⟨e.arrays, e.graph.base, []⟩ w.body []
      (fun _ h => nomatch h) (fun _ h => nomatch h) (fun _ h => nomatch h)
  unfold weightValue
  change Follows id _ (((w.body.shift k).evaluateScalar e.arrays (e.graph.base + k)).mapError
    (failureOf (Fault.badWeight path w.source)))
  rw [hvalue]
  cases w.body.evaluateScalar e.arrays e.graph.base with
  | ok x => exact .ok x
  | error f => exact .error (sameCode_failureOf (fun _ _ hv => sameCode_badWeight path _ hv) f)

theorem tracks_contributions (hg : e.graph.IndexOnly) (h : Graph.HamiltonianNode) :
    Tracks k id (contributions e h) (contributions (e.shift k) (h.shift k)) := by
  have hzip : (h.shift k).components.zipIdx =
      h.components.zipIdx.map (Prod.map (Graph.WeightedRef.shift k) id) :=
    List.zipIdx_map ..
  rw [contributions_eq, contributions_eq, hzip, ← List.map_id_fun]
  apply tracks_mapM
  rintro ⟨use, place⟩ -
  refine tracks_bind (tracks_lift (follows_weightValue use.weight _)) fun weight => ?_
  exact tracks_bind (tracks_component hg use.index) fun audit =>
    tracks_pure (⟨audit.id, weight, audit.value⟩ : Audit.Contribution α)

theorem tracks_evalHamiltonian (hg : e.graph.IndexOnly) (h : Graph.HamiltonianNode) :
    Tracks k id (evalHamiltonian e h) (evalHamiltonian (e.shift k) (h.shift k)) := by
  unfold evalHamiltonian
  exact tracks_bind (tracks_contributions hg h) fun cs =>
    tracks_pure (⟨h.id, h.type, sumOf cs, cs, h.couples⟩ : Audit.Hamiltonian α)

theorem tracks_evalUse (hg : e.graph.IndexOnly) (before : List (Audit.Hamiltonian α))
    (use : Graph.WeightedRef) (place : Nat) :
    Tracks k id (evalUse e before use place) (evalUse (e.shift k) before (use.shift k) place) := by
  unfold evalUse
  rw [Evaluation.shift_graph, Graph.shift_hamiltonians, Graph.WeightedRef.shift_index,
    List.getElem?_map]
  cases e.graph.hamiltonians[use.index]? with
  | none => exact fun kept => .error (.refl _)
  | some h =>
    have hrest : ∀ r : Audit.Hamiltonian α × List (Audit.Hamiltonian α), Tracks (α := α) k id
        (do
          let weight ← weightValue e use.weight ["ensemble", toString place]
          pure (r.2, (⟨h.id, weight, r.1.value⟩ : Audit.Contribution α)))
        (do
          let weight ← weightValue (e.shift k) (use.shift k).weight ["ensemble", toString place]
          pure (r.2, (⟨h.id, weight, r.1.value⟩ : Audit.Contribution α))) :=
      fun r => tracks_bind (tracks_lift (follows_weightValue use.weight _)) fun weight =>
        tracks_pure (r.2, (⟨h.id, weight, r.1.value⟩ : Audit.Contribution α))
    dsimp only [Option.map_some]
    rw [Graph.HamiltonianNode.shift_id]
    cases before.find? fun x => x.id == h.id with
    | some audit => exact hrest (audit, before)
    | none =>
      refine tracks_bind (tracks_evalHamiltonian hg h) fun audit => ?_
      have hkept : Tracks (α := α) k id (pure (audit, before ++ [audit]))
          (pure (audit, before ++ [audit])) := tracks_pure _
      exact tracks_bind hkept hrest

theorem tracks_evalEnsemble (hg : e.graph.IndexOnly) :
    Tracks k id (evalEnsemble e) (evalEnsemble (e.shift k)) := by
  have hzip : (e.shift k).graph.ensemble.zipIdx =
      e.graph.ensemble.zipIdx.map (Prod.map (Graph.WeightedRef.shift k) id) :=
    List.zipIdx_map ..
  unfold evalEnsemble
  rw [hzip]
  apply tracks_foldlM
  rintro ⟨use, place⟩ - ⟨hs, cs⟩
  refine tracks_bind (tracks_evalUse hg hs use place) ?_
  rintro ⟨hs, c⟩
  exact tracks_pure (hs, cs ++ [c])

/-! ## The whole evaluation -/

theorem follows_run (hg : e.graph.IndexOnly) :
    Follows (·.shift k) (run e) (run (e.shift k)) := by
  unfold run
  refine (tracks_evalEnsemble hg []).bind ?_
  rintro ⟨⟨hamiltonians, ensemble⟩, kept⟩
  apply Follows.of_map
  refine congrArg Except.ok ?_
  have hsorted : (shiftKept k kept).mergeSort (fun a b => a.1 ≤ b.1) =
      shiftKept k (kept.mergeSort fun a b => a.1 ≤ b.1) := by
    unfold shiftKept
    rw [List.map_mergeSort]
    exact fun _ _ _ _ => rfl
  dsimp only [id_eq]
  rw [hsorted, shiftKept, List.map_map, Audit.Tree.shift, List.map_map]
  rfl

/-- An evaluation follows that of the original graph: the assignment, the data and the functions
have nothing to do with the base. -/
theorem follows_evaluate {g : Graph} (hg : g.IndexOnly) (a : Assignment α) (data : DataFeed α)
    (registry : Option (Registry α)) (o : Options) :
    Follows (·.shift k) (evaluate g a data registry o)
      (evaluate (g.shift k) a data registry o) := by
  have hdata : loadData (g.shift k) data = loadData g data := by
    unfold loadData
    rw [Graph.referencedArrays_shift]
    rfl
  have hloaded : ∀ vars, Follows (·.shift k)
      (do
        let arrays ← loadData g data
        run ⟨g, vars ++ arrays, registry, o.instanceCap⟩)
      (do
        let arrays ← loadData (g.shift k) data
        run ⟨g.shift k, vars ++ arrays, registry, o.instanceCap⟩) := by
    intro vars
    rw [hdata]
    exact (Follows.refl (loadData g data)).bind fun arrays =>
      follows_run (e := ⟨g, vars ++ arrays, registry, o.instanceCap⟩) hg
  unfold evaluate
  refine (Follows.refl (normalize g a)).bind fun vars => ?_
  by_cases hcheck : o.checkBounds = true
  · simp only [hcheck, if_true]
    exact (Follows.refl (checkVariables g vars)).bind fun _ => hloaded vars
  · simp only [hcheck]
    exact hloaded vars

end Energy

namespace Graph

/-- A graph whose indices count from a base, and the same graph counted from a base that is larger
by `k`: the bounds check of a component accepts both or none, for all shapes of the arrays, and an
evaluation has the same total, component values and instance values, at indices larger by `k`, or
fails with the same code. -/
theorem shift_invariant (g : Graph) (k : Int) (hg : g.IndexOnly) :
    (∀ n ∈ g.components, ∀ t i, g.terms[n.term]? = some t →
      g.interactions[n.interaction]? = some i → ∀ shapes : List (String × Shape),
        ((Bounds.check (t.formulas.map (·.body)) i shapes g.base).isOk ↔
          (Bounds.check ((t.shift k).formulas.map (·.body)) (i.shift k) shapes
            (g.shift k).base).isOk)) ∧
    ∀ {α : Type} [Scalar α] (a : Assignment α) (data : Energy.DataFeed α)
      (registry : Option (Registry α)) (o : Energy.Options),
      Follows (Audit.Tree.shift k) (Energy.evaluate g a data registry o)
        (Energy.evaluate (g.shift k) a data registry o) := by
  refine ⟨?_, fun a data registry o => Energy.follows_evaluate hg a data registry o⟩
  intro n _ t i _ _ shapes
  have hbodies : (t.shift k).formulas.map (·.body) =
      (t.formulas.map (·.body)).map (Expr.shift k) := by
    rw [TermNode.formulas_shift, List.map_map, List.map_map]
    rfl
  rw [hbodies]
  change _ ↔ (Bounds.check _ _ shapes (g.base + k)).isOk = true
  rw [Bounds.check_shift]
  cases Bounds.check (t.formulas.map (·.body)) i shapes g.base <;> rfl

/-- The sum of `x[i] * x[0]` over three places that count from zero. -/
def counted : Graph where
  name := "counted"
  version := "1.0.0"
  base := 0
  parameters := []
  vars := [⟨"x", .continuous, [3], .number (-10.0), .number 10.0⟩]
  dataNames := []
  terms := [⟨"pair", .analytic, some ⟨"x[i] * x[0]", .binary .mul
    (.ref "x" [.symbol "i" ⟨2, 3⟩] ⟨0, 4⟩) (.ref "x" [.literal 0 ⟨9, 10⟩] ⟨7, 11⟩) ⟨0, 11⟩,
    .unspecified⟩, none, [], []⟩]
  interactions := [⟨"all", ["i"], .ranges [⟨0, 2⟩], 0⟩]
  components := [⟨"total", 0, 0, .ofKind .sum, ["i"], []⟩]
  hamiltonians := [⟨"H", .subsystem, [⟨0, .ofNumber (.int 1) .unspecified⟩], []⟩]
  ensemble := [⟨0, .ofNumber (.int 1) .unspecified⟩]

theorem indexOnly_counted : counted.IndexOnly := by
  intro n hn t i ht hi f hf name hname
  obtain rfl : n = _ := List.mem_singleton.mp hn
  cases ht
  cases hi
  obtain rfl : f = _ := List.mem_singleton.mp hf
  obtain rfl : name = "i" := List.mem_singleton.mp hname
  rintro ⟨span, hspan⟩
  simp [Expr.walk_binary, Expr.walk_ref] at hspan

/-- Counted from one, the three places are those after the first three. -/
theorem shift_invariant_counted : ∃ tree : Audit.Tree Float,
    Energy.evaluate counted Energy.threeNumbers (Energy.feedOf Lookup.nothing) none .usual =
        .ok tree ∧
      Energy.evaluate (counted.shift 1) Energy.threeNumbers (Energy.feedOf Lookup.nothing) none
        .usual = .ok (tree.shift 1) ∧
      (tree.shift 1).components.map (fun c => c.instances.map (·.index)) = [[[1], [2], [3]]] := by
  have hindices : ((Energy.evaluate counted Energy.threeNumbers (Energy.feedOf Lookup.nothing) none
      .usual).toOption.map fun tree => (tree.shift 1).components.map fun c =>
        c.instances.map (·.index)) = some [[[1], [2], [3]]] := by
    decide +kernel
  have hfollows := (shift_invariant counted 1 indexOnly_counted).2 Energy.threeNumbers
    (Energy.feedOf Lookup.nothing) none .usual
  rcases htree : Energy.evaluate counted Energy.threeNumbers (Energy.feedOf Lookup.nothing) none
    .usual with e | tree
  · rw [htree] at hindices
    cases hindices
  · rw [htree] at hindices hfollows
    exact ⟨tree, rfl, hfollows.eq_ok, Option.some.inj hindices⟩

end Graph

end EnergyGraph
