-- Components under other names of their symbols. The two components list the same points,
-- each with its values under other names, and a term that was renamed along with its
-- interaction has the same value at each of them; so the audits are the same. A renaming is
-- told of the bound symbols only. To speak of all names at once, it is extended to a
-- permutation of all names that agrees with it on the names that occur.
import EnergyGraph.Proofs.Extents
import EnergyGraph.Proofs.Footprint
import EnergyGraph.Proofs.Progress
import EnergyGraph.Proofs.RenamedInteractions
import EnergyGraph.Proofs.ShiftedEnergy
import Mathlib.Logic.Equiv.Fintype

namespace EnergyGraph

/-! ## Terms -/

def Graph.TermNode.rename (σ : String → String) (t : TermNode) : TermNode :=
  { t with expr := t.expr.map (·.rename σ), args := t.args.map (·.rename σ) }

theorem Graph.formulas_rename (σ : String → String) (t : TermNode) :
    (t.rename σ).formulas = t.formulas.map (·.rename σ) := by
  unfold TermNode.formulas TermNode.rename
  cases t.expr <;> simp

/-- The node of a renamed term is the renamed node. -/
theorem Graph.termNode_rename {σ : String → String} (hσ : Function.Injective σ) (numbers : Numbers)
    {t : TermDecl} {bound : List String}
    (h : ∀ f ∈ termFormulas t, f.body.Fixes σ bound) :
    termNode numbers (t.rename σ) (bound.map σ) = (termNode numbers t bound).rename σ := by
  have hargs : (t.args.map (·.rename σ)).map (·.substitute numbers (bound.map σ)) =
      (t.args.map (·.substitute numbers bound)).map (·.rename σ) := by
    rw [List.map_map, List.map_map]
    exact List.map_congr_left fun f hf =>
      Formula.substitute_rename hσ (h f (List.mem_append_right _ hf)) numbers
  have hexpr : (t.expr.map (·.rename σ)).map (·.substitute numbers (bound.map σ)) =
      (t.expr.map (·.substitute numbers bound)).map (·.rename σ) := by
    cases hsome : t.expr with
    | none => rfl
    | some f =>
      have hmem : f ∈ termFormulas t := by simp [termFormulas, hsome]
      exact congrArg some (Formula.substitute_rename hσ (h f hmem) numbers)
  unfold termNode TermDecl.rename TermNode.rename
  dsimp only
  rw [hargs, hexpr]

/-- The same component, with its symbols under other names. -/
def Graph.ComponentNode.rename (σ : String → String) (n : ComponentNode) : ComponentNode :=
  { n with free := n.free.map σ, reductions := n.reductions.map σ }

theorem Graph.bodies_rename (σ : String → String) (fs : List Formula) :
    bodies (fs.map (·.rename σ)) = (bodies fs).map (·.rename σ) := by
  rw [bodies, bodies, List.map_map, List.map_map]
  rfl

theorem TermDecl.bindTo_rename {σ : String → String} (hσ : Function.Injective σ) (t : TermDecl)
    {i : Interaction} (hfits : i.domain.Fits i.symbols) (aggregator : Option (Aggregator Float)) :
    (t.rename σ).bindTo (i.rename σ) aggregator =
      ((t.bindTo i aggregator).map (·.rename σ)).mapError (Binding.Fault.rename σ) := by
  unfold bindTo
  rw [formulas_rename, Graph.bodies_rename]
  exact Binding.bind_rename hσ hfits _ t.arity t.compat

theorem Graph.boundOf_rename {σ : String → String} (hσ : Function.Injective σ) (t : TermDecl)
    (i : Interaction) : boundOf (t.rename σ) (i.rename σ) = (boundOf t i).map σ := by
  unfold boundOf reductionsOf
  rw [TermDecl.formulas_rename, bodies_rename, Interaction.symbols_rename, Usage.ofExprs_rename hσ,
    List.map_append]
  rfl

theorem TermDecl.nodeOver_rename {σ : String → String} (hσ : Function.Injective σ) {t : TermDecl}
    {i : Interaction} (h : ∀ f ∈ Graph.termFormulas t, f.body.Fixes σ i.symbols)
    (numbers : Numbers) :
    (t.rename σ).nodeOver numbers (i.rename σ) = (t.nodeOver numbers i).rename σ := by
  unfold nodeOver
  rw [Graph.boundOf_rename hσ]
  exact Graph.termNode_rename hσ numbers fun f hf name hname hbound =>
    h f hf name hname fun hsymbol => hbound (List.mem_append_left _ hsymbol)

/-- The indices of a renamed term are let through if those of the term are. -/
theorem TermDecl.check_rename {σ : String → String} (hσ : Function.Injective σ) {t : TermDecl}
    {i : Interaction} (h : ∀ f ∈ Graph.termFormulas t, f.body.Fixes σ i.symbols)
    (numbers : Numbers) (shapes : List (String × Shape)) (base : Int) :
    Bounds.check (Graph.bodies ((t.rename σ).nodeOver numbers (i.rename σ)).formulas)
      (i.rename σ) shapes base =
    Bounds.check (Graph.bodies (t.nodeOver numbers i).formulas) i shapes base := by
  rw [nodeOver_rename hσ h, Graph.formulas_rename, Graph.bodies_rename]
  exact Bounds.check_rename hσ _ i shapes base

namespace Energy

variable {α : Type} {σ : String → String}

/-! ## Points -/

/-- The same point, with the symbols under other names. -/
def Point.rename (σ : String → String) (p : Point) : Point :=
  ⟨p.index, p.group, p.symbols.rename σ, p.domains.map fun q => (σ q.1, q.2)⟩

theorem zip_rename (symbols : List String) (ks : List Int) :
    (symbols.map σ).zip ks = Symbols.rename σ (symbols.zip ks) := by
  rw [List.zip_map_left]
  rfl

theorem tupleSymbols_rename (i : Interaction) (free : List String) :
    tupleSymbols (i.rename σ) (free.map σ) = (tupleSymbols i free).map σ := by
  obtain ⟨id, symbols, domain, base⟩ := i
  cases domain <;> rfl

section

variable (hσ : Function.Injective σ)

include hσ

theorem rangeOf_rename (i : Interaction) (symbol : String) :
    (i.rename σ).rangeOf (σ symbol) = i.rangeOf symbol := by
  have hplace : (i.symbols.map σ).findIdx? (· == σ symbol) = i.symbols.findIdx? (· == symbol) := by
    rw [List.findIdx?_map]
    refine congrArg (fun p => List.findIdx? p i.symbols) (funext fun s => ?_)
    rw [Function.comp_apply, Bool.eq_iff_iff, beq_iff_eq, beq_iff_eq, hσ.eq_iff]
  unfold Interaction.rangeOf
  rw [Interaction.symbols_rename, hplace]
  rfl

theorem rangesOf_rename (i : Interaction) (symbols : List String) :
    (i.rename σ).rangesOf (symbols.map σ) = i.rangesOf symbols := by
  unfold Interaction.rangesOf
  rw [List.mapM_map]
  refine mapM_congr fun symbol _ => ?_
  rw [Function.comp_apply, rangeOf_rename hσ]

theorem tuples_rename (i : Interaction) (symbols : List String) :
    (i.rename σ).tuples (symbols.map σ) = i.tuples symbols := by
  have hranges := rangesOf_rename hσ i symbols
  unfold Interaction.tuples
  rw [hranges]
  rfl

theorem reductionDomains_rename (i : Interaction) (reductions : List String) :
    reductionDomains (i.rename σ) (reductions.map σ) =
      (reductionDomains i reductions).map (List.map fun q => (σ q.1, q.2)) := by
  unfold reductionDomains
  rw [List.mapM_map]
  apply mapM_image
  intro symbol _
  rw [Function.comp_apply, rangeOf_rename hσ]
  cases i.rangeOf symbol <;> rfl

theorem points_rename (i : Interaction) (free reductions : List String) :
    points (i.rename σ) (free.map σ) (reductions.map σ) =
      (points i free reductions).map (List.map (·.rename σ)) := by
  by_cases hgroups : ∃ members, i.domain = .groups members
  · obtain ⟨members, hdomain⟩ := hgroups
    have hrenamed : (i.rename σ).domain = .groups members := hdomain
    rw [points_groups hdomain, points_groups hrenamed, Interaction.symbols_rename, ← List.map_take]
    refine congrArg Except.ok ?_
    rw [List.map_map]
    refine List.map_congr_left fun p _ => ?_
    simp only [Function.comp_apply, Point.rename, List.map_map]
    rfl
  · have hkind : i.kind ≠ .groups := by
      intro h
      cases hdomain : i.domain with
      | groups members => exact hgroups ⟨members, hdomain⟩
      | _ =>
        rw [Interaction.kind, hdomain] at h
        cases h
    have hrenamed : (i.rename σ).kind ≠ .groups := hkind
    rw [points_eq hkind, points_eq hrenamed, reductionDomains_rename hσ,
      tupleSymbols_rename, tuples_rename hσ]
    cases reductionDomains i reductions with
    | error e => rfl
    | ok domains =>
      cases i.tuples (tupleSymbols i free) with
      | error e => rfl
      | ok tuples =>
        refine congrArg Except.ok ?_
        rw [List.map_map]
        refine List.map_congr_left fun ks _ => ?_
        rw [zip_rename]
        rfl

/-- All points of an interaction are those of the original, under other names. -/
theorem allPoints_rename (base : Int) {i : Interaction} (hfits : i.domain.Fits i.symbols)
    (free reductions : List String) :
    allPoints base (i.rename σ) (free.map σ) (reductions.map σ) =
      (allPoints base i free reductions).map (List.map (·.rename σ)) := by
  have hrest := points_rename hσ i free reductions
  obtain ⟨id, symbols, domain, ibase⟩ := i
  cases domain with
  | factor matrix =>
    obtain ⟨column, rfl⟩ := List.length_eq_one_iff.mp hfits
    refine congrArg Except.ok ?_
    unfold columnPoints
    rw [List.map_map]
    rfl
  | _ => exact hrest

end

/-- At a point every free symbol has a value, from whatever number the points count. -/
theorem valued_of_allPoints {base : Int} {i : Interaction} {u : Usage} {ps : List Point}
    (hfits : i.domain.Fits i.symbols) (hu : Binding.Allowed u i)
    (h : allPoints base i (i.symbols.filter (· ∈ u.free)) u.reductions = .ok ps) {p : Point}
    (hp : p ∈ ps) : Expr.Valued u.free p.symbols := by
  have hserves : p.Serves i u ∨ ∃ matrix, i.domain = .factor matrix := by
    by_cases hfactor : ∃ matrix, i.domain = .factor matrix
    · exact .inr hfactor
    · refine .inl (serves_of_mem hfits hu ?_ hp)
      unfold allPoints at h ⊢
      cases hdomain : i.domain with
      | factor matrix => exact absurd ⟨matrix, hdomain⟩ hfactor
      | _ =>
        rw [hdomain] at h
        exact h
  intro name hname
  rcases hserves with hserves | ⟨matrix, hdomain⟩
  · obtain ⟨k, hk, -⟩ := hserves.bound name hname
    exact ⟨k, hk⟩
  · unfold allPoints at h
    rw [hdomain] at h hfits
    cases h
    obtain ⟨column, hcolumn⟩ := List.length_eq_one_iff.mp hfits
    obtain ⟨k, -, rfl⟩ := List.mem_map.mp hp
    have hsame := hu.free name hname
    rw [hcolumn, List.mem_singleton] at hsame
    exact ⟨base + k, by simp [hcolumn, hsame]⟩

/-! ## Values of terms -/

/-- Every name of an expression that changes is that of a symbol with a value. -/
structure Answered (σ : String → String) (u : Usage) (bound : List String) (e : Expr) : Prop where
  covers : Usage.Covers u bound [] e
  fixes : e.Fixes σ bound

section

variable [Scalar α] (hσ : Function.Injective σ) {e : Evaluation α} {s : Site} {c : EvalContext α}
  {symbols : Symbols} {u : Usage} {bound : List String} {t : Graph.TermNode}

omit hσ in
theorem sameCode_badInstance_rename (symbols symbols' : Symbols) (f : EvalFailure α) :
    SameCode (failureOf (Fault.badInstance s symbols) f)
      (failureOf (Fault.badInstance s symbols') (f.rename σ)) := by
  cases f with
  | domain v => exact .diagnostic rfl rfl rfl
  | lookup v => exact sameCode_badInstance s symbols symbols' v.code_rename
  | refusal r => exact .refl _

include hσ

theorem valueAt_answered {expr : Expr} (h : Answered σ u bound expr)
    (hs : Expr.Valued u.free symbols) :
    (expr.rename σ).valueAt (c.rename σ) (symbols.rename σ) =
      (expr.valueAt c symbols).mapError (EvalFailure.rename σ) :=
  Expr.valueAt_rename hσ h.covers h.fixes hs

theorem follows_evalExpr_rename {expr : Expr} (h : Answered σ u bound expr)
    (hs : Expr.Valued u.free symbols) :
    Follows (fun x => x) (evalExpr s c symbols expr)
      (evalExpr s (c.rename σ) (symbols.rename σ) (expr.rename σ)) := by
  rw [evalExpr_eq, evalExpr_eq, valueAt_answered hσ h hs]
  cases expr.valueAt c symbols with
  | ok x => exact .ok x
  | error f => exact .error (sameCode_badInstance_rename _ _ f)

theorem follows_evalArgs_rename {exprs : List Expr} (h : ∀ x ∈ exprs, Answered σ u bound x)
    (hs : Expr.Valued u.free symbols) :
    Follows (Prod.map id (·.rename σ)) (evalArgs s c symbols exprs)
      (evalArgs s (c.rename σ) (symbols.rename σ) (exprs.map (·.rename σ))) := by
  have hargs : (exprs.map (·.rename σ)).mapM (Expr.valueAt (c.rename σ) (symbols.rename σ)) =
      (exprs.mapM (Expr.valueAt c symbols)).mapError (EvalFailure.rename σ) :=
    mapM_mapError_id fun x hx => valueAt_answered hσ (h x hx) hs
  rw [evalArgs_eq, evalArgs_eq, hargs]
  cases exprs.mapM (Expr.valueAt c symbols) with
  | ok values => exact .ok (values, symbols)
  | error f => exact .error (sameCode_badInstance_rename _ _ f)

theorem follows_termValue_rename (h : ∀ f ∈ evaluated t, Answered σ u bound f.body)
    (hs : Expr.Valued u.free symbols) :
    Follows (fun x => x) (termValue e s t c symbols)
      (termValue e s (t.rename σ) (c.rename σ) (symbols.rename σ)) := by
  have hkind : (t.rename σ).kind = t.kind := rfl
  have hexpr : (t.rename σ).expr = t.expr.map (·.rename σ) := rfl
  unfold evaluated at h
  unfold termValue
  rw [hkind, hexpr]
  by_cases hfunctional : t.kind = .functional
  · rw [if_pos hfunctional] at h
    rw [if_pos hfunctional, if_pos hfunctional]
    have hargs : (t.rename σ).args.map (·.body) = (t.args.map (·.body)).map (·.rename σ) := by
      change (t.args.map (·.rename σ)).map (·.body) = _
      rw [List.map_map, List.map_map]
      rfl
    rw [hargs]
    refine (follows_evalArgs_rename hσ (List.forall_mem_map.mpr h) hs).bind ?_
    rintro ⟨args, after⟩
    exact follows_callFunction e.registry _ args _
  · rw [if_neg hfunctional] at h
    rw [if_neg hfunctional, if_neg hfunctional]
    cases hsome : t.expr with
    | none => exact .error (.refl _)
    | some f => exact follows_evalExpr_rename hσ (h f (by simp [hsome])) hs

/-! ## Components -/

theorem follows_valueAt_rename (h : ∀ f ∈ evaluated t, Answered σ u bound f.body) {p : Point}
    (hp : Expr.Valued u.free p.symbols) :
    Follows (fun x => x) (valueAt e s t p) (valueAt e s (t.rename σ) (p.rename σ)) :=
  follows_termValue_rename hσ h hp

/-- The instances of a component have the same indices and the same values under other names. -/
theorem follows_instances_rename {i : Interaction} (hfits : i.domain.Fits i.symbols)
    (hu : Binding.Allowed u i) (h : ∀ f ∈ evaluated t, Answered σ u bound f.body)
    {n : Graph.ComponentNode} (hfree : n.free = i.symbols.filter (· ∈ u.free))
    (hreductions : n.reductions = u.reductions) :
    Follows (fun x => x) (instances e n t i)
      (instances e (n.rename σ) (t.rename σ) (i.rename σ)) := by
  have hall : allPoints e.graph.base (i.rename σ) (n.rename σ).free (n.rename σ).reductions =
      (allPoints e.graph.base i n.free n.reductions).map (List.map (·.rename σ)) :=
    allPoints_rename hσ e.graph.base hfits n.free n.reductions
  have hsite : (⟨(n.rename σ).id, (t.rename σ).id⟩ : Site) = ⟨n.id, t.id⟩ := rfl
  have hdomain : (i.rename σ).domain = i.domain := rfl
  have hvalues : ∀ ps, allPoints e.graph.base i n.free n.reductions = .ok ps → ∀ p ∈ ps,
      Follows (fun x => x) (valueAt e ⟨n.id, t.id⟩ t p)
        (valueAt e ⟨n.id, t.id⟩ (t.rename σ) (p.rename σ)) := by
    rw [hfree, hreductions]
    exact fun ps hps p hp =>
      follows_valueAt_rename hσ h (valued_of_allPoints hfits hu hps hp)
  unfold instances
  dsimp only
  change Follows id _ _
  rw [hsite, hall, hdomain, ← List.map_id_fun']
  cases i.domain with
  | factor matrix =>
    cases hps : allPoints e.graph.base i n.free n.reductions with
    | error err => exact .error (.refl err)
    | ok ps => exact follows_rowInstances matrix rfl rfl (fun _ _ => rfl) (hvalues ps hps)
  | _ =>
    cases hps : allPoints e.graph.base i n.free n.reductions with
    | error err => exact .error (.refl err)
    | ok ps => exact follows_pointInstances (fun _ _ => rfl) (hvalues ps hps)

end

/-- The audit of a component has the same count, instances and value under other names of its
symbols, or it fails with the same code. -/
theorem follows_evalComponent_rename [Scalar α] (hσ : Function.Injective σ) {t : TermDecl}
    {i : Interaction} (hfits : i.domain.Fits i.symbols)
    (hfixes : ∀ f ∈ Graph.termFormulas t, f.body.Fixes σ i.symbols) {n : Graph.ComponentNode}
    {aggregator : Option (Aggregator Float)} (hn : t.bindTo i aggregator = .ok n.binding)
    (e : Evaluation α) (numbers : Numbers) :
    Follows (fun audit => audit) (evalComponent e n (t.nodeOver numbers i) i)
      (evalComponent e (n.rename σ) ((t.nodeOver numbers i).rename σ) (i.rename σ)) := by
  obtain ⟨hu, hfree, hreductions⟩ := Binding.allowed_of_bind hn
  have hanswered : ∀ f ∈ evaluated (t.nodeOver numbers i),
      Answered σ (Usage.ofExprs (Graph.bodies t.formulas) i.symbols) i.symbols f.body := by
    intro f hf
    obtain ⟨-, f', hf', rfl⟩ := Graph.mem_formulas_of_evaluated hf
    have hbody : f'.body ∈ Graph.bodies t.formulas := List.mem_map_of_mem hf'
    exact ⟨(Usage.covers_ofExprs hbody).replace numbers _,
      (hfixes f' (Graph.formulas_subset t hf')).replace numbers _⟩
  have hinstances := follows_instances_rename hσ (e := e) hfits hu hanswered hfree hreductions
  unfold evalComponent
  exact hinstances.bind fun found => Follows.refl _

end Energy

/-! ## Renaming the bound symbols -/

/-- The bound names have new names; all others stay. -/
def onBound (bound : List String) (ρ : String → String) (name : String) : String :=
  if name ∈ bound then ρ name else name

theorem onBound_of_mem {bound : List String} {ρ : String → String} {name : String}
    (h : name ∈ bound) : onBound bound ρ name = ρ name := if_pos h

theorem onBound_of_not_mem {bound : List String} {ρ : String → String} {name : String}
    (h : name ∉ bound) : onBound bound ρ name = name := if_neg h

/-- A renaming that keeps some names apart agrees on them with a permutation of all names. -/
theorem exists_permutation {σ : String → String} {names : List String}
    (h : ∀ a ∈ names, ∀ b ∈ names, σ a = σ b → a = b) :
    ∃ τ : Equiv.Perm String, ∀ a ∈ names, τ a = σ a := by
  obtain ⟨τ, hτ⟩ := Equiv.Perm.exists_extending_pair
    (fun a : {a // a ∈ names} => a.1) (fun a : {a // a ∈ names} => σ a.1)
    Subtype.val_injective (fun a b hab => Subtype.ext (h a.1 a.2 b.1 b.2 hab))
  exact ⟨τ, fun a ha => hτ ⟨a, ha⟩⟩

section

variable {σ τ : String → String} {i : Interaction} {t : TermDecl}

theorem Formula.rename_congr {f : Formula} (h : ∀ name ∈ f.body.symbolNames, σ name = τ name) :
    f.rename σ = f.rename τ := by
  rw [rename, rename, Expr.rename_congr h]

theorem TermDecl.rename_congr
    (h : ∀ f ∈ Graph.termFormulas t, ∀ name ∈ f.body.symbolNames, σ name = τ name) :
    t.rename σ = t.rename τ := by
  have hargs : t.args.map (·.rename σ) = t.args.map (·.rename τ) :=
    List.map_congr_left fun f hf => Formula.rename_congr (h f (List.mem_append_right _ hf))
  have hexpr : t.expr.map (·.rename σ) = t.expr.map (·.rename τ) :=
    Option.map_congr fun f hf =>
      Formula.rename_congr (h f (List.mem_append_left _ (Option.mem_toList.mpr hf)))
  rw [rename, rename, hargs, hexpr]

theorem Interaction.rename_congr (h : ∀ name ∈ i.symbols, σ name = τ name) :
    i.rename σ = i.rename τ := by
  rw [rename, rename, List.map_congr_left h]

theorem Graph.ComponentNode.rename_congr {n : ComponentNode}
    (hfree : ∀ name ∈ n.free, σ name = τ name)
    (hreductions : ∀ name ∈ n.reductions, σ name = τ name) : n.rename σ = n.rename τ := by
  rw [rename, rename, List.map_congr_left hfree, List.map_congr_left hreductions]

/-- The symbols of a component are bound by its interaction. -/
theorem TermDecl.rename_congr_of_bindTo {n : Graph.ComponentNode}
    {aggregator : Option (Aggregator Float)} (hn : t.bindTo i aggregator = .ok n.binding)
    (h : ∀ name ∈ i.symbols, σ name = τ name) : n.rename σ = n.rename τ := by
  obtain ⟨hu, hfree, hreductions⟩ := Binding.allowed_of_bind hn
  have hn_free : n.free = _ := hfree
  have hn_reductions : n.reductions = _ := hreductions
  refine Graph.ComponentNode.rename_congr (fun name hname => h name ?_) fun name hname => h name ?_
  · rw [hn_free] at hname
    exact List.mem_of_mem_filter hname
  · rw [hn_reductions] at hname
    exact hu.reductions name hname

end

/-- New names of bound symbols keep all names apart, if no name that is not bound is among them. -/
theorem onBound_injOn {bound names : List String} {ρ : String → String}
    (hρ : ∀ a ∈ bound, ∀ b ∈ bound, ρ a = ρ b → a = b)
    (hfresh : ∀ a ∈ bound, ρ a ∈ names → ρ a ∈ bound) :
    ∀ a ∈ bound ++ names, ∀ b ∈ bound ++ names,
      onBound bound ρ a = onBound bound ρ b → a = b := by
  have hmixed : ∀ a ∈ bound, ∀ b ∈ bound ++ names, b ∉ bound → ρ a ≠ b := by
    rintro a ha b hb hbound rfl
    rcases List.mem_append.mp hb with hb | hb
    · exact hbound hb
    · exact hbound (hfresh a ha hb)
  intro a ha b hb heq
  by_cases habound : a ∈ bound <;> by_cases hbbound : b ∈ bound
  · rw [onBound_of_mem habound, onBound_of_mem hbbound] at heq
    exact hρ a habound b hbbound heq
  · rw [onBound_of_mem habound, onBound_of_not_mem hbbound] at heq
    exact absurd heq (hmixed a habound b hb hbbound)
  · rw [onBound_of_not_mem habound, onBound_of_mem hbbound] at heq
    exact absurd heq.symm (hmixed b hbbound a ha habound)
  · rwa [onBound_of_not_mem habound, onBound_of_not_mem hbbound] at heq

/-- The names of bound symbols do not matter. If the symbols that a declaration binds have other
names, no two the same and none of them a name that the term uses for something else, then the
declaration has the same domain, the term is bound as before with its symbols under their new
names, its indices are let through as before, and the audit of the component is the same: its
count, its instances and its value, or the code of its failure. -/
theorem Graph.rename_invariant {s : Surroundings} {d : InteractionDecl} {bound : List String}
    {i : Interaction} (hbind : d.bind = some bound) (hi : Interaction.resolve s d = .ok i)
    (t : TermDecl) (aggregator : Option (Aggregator Float)) (ρ : String → String)
    (hρ : ∀ a ∈ bound, ∀ b ∈ bound, ρ a = ρ b → a = b)
    (hfresh : ∀ a ∈ bound, ∀ f ∈ termFormulas t, ρ a ∈ f.body.symbolNames → ρ a ∈ bound) :
    let σ := onBound bound ρ
    Interaction.resolve s (d.rename σ) = .ok (i.rename σ) ∧
    (∀ f, t.bindTo i aggregator = .error f →
      ∃ f', (t.rename σ).bindTo (i.rename σ) aggregator = .error f' ∧ f'.code = f.code) ∧
    ∀ n : ComponentNode, t.bindTo i aggregator = .ok n.binding →
      (t.rename σ).bindTo (i.rename σ) aggregator = .ok (n.rename σ).binding ∧
      ∀ numbers,
        (∀ shapes base,
          Bounds.check (bodies ((t.rename σ).nodeOver numbers (i.rename σ)).formulas)
            (i.rename σ) shapes base =
          Bounds.check (bodies (t.nodeOver numbers i).formulas) i shapes base) ∧
        ∀ {α : Type} [Scalar α] (e : Energy.Evaluation α),
          Follows (fun audit => audit) (Energy.evalComponent e n (t.nodeOver numbers i) i)
            (Energy.evalComponent e (n.rename σ) ((t.rename σ).nodeOver numbers (i.rename σ))
              (i.rename σ)) := by
  intro σ
  have hsymbols : i.symbols = bound :=
    (Interaction.resolve_rename hbind (fun a _ b _ h => h) hi).1
  have hinj := onBound_injOn hρ fun a ha
      (hmem : ρ a ∈ (termFormulas t).flatMap (·.body.symbolNames)) => by
    obtain ⟨f, hf, hname⟩ := List.mem_flatMap.mp hmem
    exact hfresh a ha f hf hname
  obtain ⟨τ, hτ⟩ := exists_permutation hinj
  have hagree : ∀ name ∈ bound, σ name = τ name := fun name hname =>
    (hτ name (List.mem_append_left _ hname)).symm
  have hnames : ∀ f ∈ termFormulas t, ∀ name ∈ f.body.symbolNames, σ name = τ name :=
    fun f hf name hname =>
      (hτ name (List.mem_append_right _ (List.mem_flatMap.mpr ⟨f, hf, hname⟩))).symm
  have hfixes : ∀ f ∈ termFormulas t, f.body.Fixes τ i.symbols := by
    intro f hf name hname hnot
    rw [hsymbols] at hnot
    rw [← hnames f hf name hname]
    exact onBound_of_not_mem hnot
  have hterm : t.rename σ = t.rename τ := TermDecl.rename_congr hnames
  have hinteraction : i.rename σ = i.rename τ :=
    Interaction.rename_congr (by rw [hsymbols]; exact hagree)
  have hfits : i.domain.Fits i.symbols := (Interaction.fits_of_resolve hi).1
  refine ⟨?_, ?_, ?_⟩
  · exact (Interaction.resolve_rename hbind
      (fun a ha b hb => hinj a (List.mem_append_left _ ha) b (List.mem_append_left _ hb)) hi).2
  · intro f hf
    have hfault := TermDecl.bindTo_rename τ.injective t hfits aggregator
    rw [hf] at hfault
    rw [hterm, hinteraction]
    exact ⟨f.rename τ, hfault, f.code_rename⟩
  · intro n hn
    have hcomponent : n.rename σ = n.rename τ :=
      TermDecl.rename_congr_of_bindTo hn (by rw [hsymbols]; exact hagree)
    rw [hterm, hinteraction, hcomponent]
    refine ⟨?_, fun numbers => ⟨fun shapes base => ?_, fun e => ?_⟩⟩
    · rw [TermDecl.bindTo_rename τ.injective t hfits, hn]
      rfl
    · exact TermDecl.check_rename τ.injective hfixes numbers shapes base
    · rw [TermDecl.nodeOver_rename τ.injective hfixes]
      exact Energy.follows_evalComponent_rename τ.injective hfits hfixes hn e numbers

/-- The cells of a table with two rows and three columns. -/
def cellsDecl : InteractionDecl :=
  ⟨"cells", .allIndices, some ["i", "j"],
    [("ranges", .object [("i", .list [.int 0, .int 1]), ("j", .list [.int 0, .int 2])])], false⟩

def cells : Interaction := ⟨"cells", ["i", "j"], .ranges [⟨0, 1⟩, ⟨0, 2⟩], 0⟩

/-- The sums of the rows of a table. -/
def rowSums : TermDecl :=
  let cell : Expr := .ref "a" [.symbol "i" ⟨8, 9⟩, .symbol "j" ⟨11, 12⟩] ⟨6, 13⟩
  ⟨"rows", .analytic, .unspecified,
    some ⟨"sum_j(a[i, j])", .reduction .sum "j" cell ⟨0, 14⟩, .unspecified⟩, none, [], [], false⟩

/-- The symbols of the table, written out. -/
def inWords (symbol : String) : String := if symbol = "i" then "row" else "column"

/-- The sums of rows, by other names: the table is the same, and so is the term. -/
theorem Graph.rename_invariant_row :
    Interaction.resolve Interaction.noData cellsDecl = .ok cells ∧
    (∃ j, Interaction.resolve Interaction.noData (cellsDecl.rename (onBound ["i", "j"] inWords)) =
      .ok j ∧ j.symbols = ["row", "column"] ∧
      (rowSums.rename (onBound ["i", "j"] inWords)).bindTo j (some (Aggregator.ofKind .sum)) =
        .ok ⟨["row"], ["column"], Aggregator.ofKind .sum⟩) := by
  have hresolved : Interaction.resolve Interaction.noData cellsDecl = .ok cells := by
    with_unfolding_all rfl
  have hfresh : ∀ a ∈ ["i", "j"], ∀ f ∈ termFormulas rowSums,
      inWords a ∈ f.body.symbolNames → inWords a ∈ ["i", "j"] := by decide +kernel
  obtain ⟨hrenamed, -, hbound⟩ := rename_invariant (show cellsDecl.bind = some ["i", "j"] from rfl)
    hresolved rowSums (some (Aggregator.ofKind .sum)) inWords (by decide) hfresh
  obtain ⟨hsame, -⟩ := hbound ⟨"c", 0, 0, Aggregator.ofKind .sum, ["i"], ["j"]⟩ rfl
  exact ⟨hresolved, _, hrenamed, rfl, hsame⟩

end EnergyGraph
