-- What the value of an expression depends on. A scan gives every name a role by the reductions
-- around it, which it can see; an evaluation goes by a table that these reductions write into,
-- and looks there before it looks among the arrays. Both come to the same: two contexts that
-- answer alike for the names with a role give the same value or the same failure.
import EnergyGraph.Proofs.Coverage
import EnergyGraph.Proofs.LexicalScope

namespace EnergyGraph

variable {α : Type}

namespace Usage

/-! ## Contexts that agree -/

/-- A table for the terms of a usage: their free symbols are bound, and no others than may be. -/
structure Binds (u : Usage) (bound : List String) (s : Symbols) : Prop where
  within : ∀ name ∈ s.map (·.1), name ∈ bound
  free : ∀ name ∈ u.free, name ∈ s.map (·.1)

/-- Two contexts that count from the same base, with the same domains for the reductions of a
usage and the same arrays for its names. -/
structure AgreeOn (u : Usage) (c c' : EvalContext α) : Prop where
  base : c.base = c'.base
  domains : ∀ symbol ∈ u.reductions, c.domains.lookup symbol = c'.domains.lookup symbol
  scalars : ∀ name ∈ u.scalars, c.arrays.lookup name = c'.arrays.lookup name
  arrays : ∀ name ∈ u.arrays.map (·.1), c.arrays.lookup name = c'.arrays.lookup name

/-- Two environments inside of some reductions: their symbols and the free ones stand for the same
in both, and what is not to be bound is in neither. -/
structure SameSymbols (u : Usage) (bound scope : List String) (env env' : Environment) : Prop where
  known : ∀ name ∈ scope ++ u.free, ∃ k, env.lookup name = some k ∧ env'.lookup name = some k
  others : ∀ name, name ∉ scope → name ∉ bound → env.lookup name = none ∧ env'.lookup name = none

section

variable {u : Usage} {bound scope : List String} {env env' : Environment} {c c' : EvalContext α}
  {s s' : Symbols} {name : String}

theorem Binds.sameSymbols (hs : u.Binds bound s) (hs' : u.Binds bound s')
    (hfree : ∀ name ∈ u.free, s.lookup name = s'.lookup name) : SameSymbols u bound [] s s' := by
  refine ⟨fun name hname => ?_, fun name _ hbound => ⟨?_, ?_⟩⟩
  · obtain ⟨k, hk⟩ := Option.ne_none_iff_exists'.mp
      (lookup_eq_none_iff.not_left.mpr (hs.free name hname))
    exact ⟨k, hk, (hfree name hname).symm.trans hk⟩
  · exact lookup_eq_none_iff.mpr fun hname => hbound (hs.within name hname)
  · exact lookup_eq_none_iff.mpr fun hname => hbound (hs'.within name hname)

/-- One step of a reduction takes both environments to the same value of its symbol. -/
theorem SameSymbols.extend (h : SameSymbols u bound scope env env') (symbol : String) (k : Int) :
    SameSymbols u bound (symbol :: scope) ((symbol, k) :: env) ((symbol, k) :: env') := by
  refine ⟨fun name hname => ?_, fun name hscope hbound => ?_⟩
  · by_cases hsymbol : name = symbol
    · rw [hsymbol]
      exact ⟨k, List.lookup_cons_self, List.lookup_cons_self⟩
    · rw [List.cons_append, List.mem_cons] at hname
      rw [lookup_cons_of_ne hsymbol, lookup_cons_of_ne hsymbol]
      exact h.known name (hname.resolve_left hsymbol)
  · obtain ⟨hsymbol, hscope⟩ := not_or.mp (List.mem_cons.not.mp hscope)
    rw [lookup_cons_of_ne hsymbol, lookup_cons_of_ne hsymbol]
    exact h.others name hscope hbound

/-! ## The two runs -/

theorem SameSymbols.indexValue_eq (h : SameSymbols u bound scope env env') {indices : List Index}
    (hindices : Expr.AllKnown (scope ++ u.free) indices) {i : Index} (hi : i ∈ indices) :
    Expr.indexValue (α := α) env i = Expr.indexValue env' i := by
  cases i with
  | literal n span => rfl
  | symbol name span =>
    obtain ⟨k, hk, hk'⟩ := h.known name (hindices name span hi)
    rw [Expr.indexValue, Expr.indexValue, hk, hk']

theorem SameSymbols.cellNamed_eq (h : SameSymbols u bound scope env env') (hc : u.AgreeOn c c')
    (hname : name ∈ u.arrays.map (·.1)) {indices : List Index}
    (hindices : Expr.AllKnown (scope ++ u.free) indices) :
    Expr.cellNamed c env name indices = Expr.cellNamed c' env' name indices := by
  unfold Expr.cellNamed
  rw [hc.arrays name hname, mapM_congr fun i hi => h.indexValue_eq hindices hi, hc.base]

variable [Scalar α]

/-- A name without indices has one value: that of its symbol, and else that of its array. -/
theorem SameSymbols.scalarNamed_eq (h : SameSymbols u bound scope env env') (hc : u.AgreeOn c c')
    (hname : name ∈ scope ∨ name ∈ u.free ∨ name ∉ bound ∧ name ∈ u.scalars) :
    Expr.scalarNamed c env name = Expr.scalarNamed c' env' name := by
  unfold Expr.scalarNamed
  by_cases hknown : name ∈ scope ++ u.free
  · obtain ⟨k, hk, hk'⟩ := h.known name hknown
    rw [hk, hk']
  · obtain ⟨hscope, hfree⟩ := not_or.mp (List.mem_append.not.mp hknown)
    obtain ⟨hbound, hscalar⟩ := (hname.resolve_left hscope).resolve_left hfree
    obtain ⟨hnone, hnone'⟩ := h.others name hscope hbound
    rw [hnone, hnone', hc.scalars name hscalar]

/-- What a usage covers has one value in both. -/
theorem Covers.denote_eq {e : Expr} (h : Covers u bound scope e) (hc : u.AgreeOn c c')
    (hs : SameSymbols u bound scope env env') : e.denote c env = e.denote c' env' := by
  -- Both environments grow alike on the way into the reductions, so the induction leaves them open.
  induction h generalizing env env' with
  | literal => rw [Expr.denote, Expr.denote]
  | name h =>
    rw [Expr.denote, Expr.denote]
    exact hs.scalarNamed_eq hc h
  | @cell scope name first rest span harray hindices =>
    rw [Expr.denote, Expr.denote]
    · exact hs.cellNamed_eq hc harray hindices
    · exact List.cons_ne_nil first rest
    · exact List.cons_ne_nil first rest
  | @reduction scope fold symbol body span h _ ih =>
    rw [Expr.denote, Expr.denote, hc.domains symbol h]
    cases c'.domains.lookup symbol with
    | none => rfl
    | some domain =>
      have hbody : ∀ k, body.denote c ((symbol, k) :: env) = body.denote c' ((symbol, k) :: env') :=
        fun k => ih (hs.extend symbol k)
      simp only [hbody]
  | call _ ih =>
    rw [Expr.denote, Expr.denote, Expr.denoteAll_eq, Expr.denoteAll_eq,
      mapM_congr fun a ha => ih a ha hs]
  | binary _ _ ihl ihr => rw [Expr.denote, Expr.denote, ihl hs, ihr hs]
  | negate _ ih => rw [Expr.denote, Expr.denote, ih hs]

end

end Usage

namespace Expr

/-! ## Other arrays -/

section

variable {c : EvalContext α} {arrays : Arrays α} {env : Environment} {name : String}

theorem cellNamed_arrays (h : c.arrays.lookup name = arrays.lookup name) (indices : List Index) :
    cellNamed { c with arrays } env name indices = cellNamed c env name indices := by
  unfold cellNamed
  rw [h]

/-- The names that a part refers to are answered alike among other arrays. -/
def Part.SameArrays (c : EvalContext α) (arrays : Arrays α) : Part → Prop
  | .expr (.ref name _ _) => c.arrays.lookup name = arrays.lookup name
  | _ => True

theorem sameArrays_of_names {e : Expr}
    (h : ∀ name ∈ e.names, c.arrays.lookup name = arrays.lookup name) :
    ∀ p ∈ e.walk, p.SameArrays c arrays := by
  intro p hp
  cases p with
  | index i => trivial
  | expr part =>
    cases part with
    | ref name indices span => exact h name (mem_names.mpr ⟨indices, span, hp⟩)
    | _ => trivial

variable [Scalar α]

theorem scalarNamed_arrays (h : c.arrays.lookup name = arrays.lookup name) :
    scalarNamed { c with arrays } env name = scalarNamed c env name := by
  unfold scalarNamed
  rw [h]

/-- Other arrays give the same value if they answer alike wherever a name is referred to. -/
theorem denote_arrays {e : Expr} (h : ∀ p ∈ e.walk, p.SameArrays c arrays) :
    e.denote { c with arrays } env = e.denote c env := by
  induction e generalizing env with
  | literal value span => rw [denote, denote]
  | ref name indices span =>
    rw [walk_ref] at h
    have hname : c.arrays.lookup name = arrays.lookup name := h _ List.mem_cons_self
    cases indices with
    | nil =>
      rw [denote, denote]
      exact scalarNamed_arrays hname
    | cons first rest =>
      rw [denote, denote]
      · exact cellNamed_arrays hname (first :: rest)
      · exact List.cons_ne_nil first rest
      · exact List.cons_ne_nil first rest
  | reduction fold symbol body span ih =>
    rw [walk_reduction] at h
    have hbody : ∀ k, body.denote { c with arrays } ((symbol, k) :: env) =
        body.denote c ((symbol, k) :: env) := fun k =>
      ih fun p hp => h p (List.mem_cons_of_mem _ hp)
    rw [denote, denote]
    simp only [hbody]
  | call function args span ih =>
    rw [walk_call] at h
    have hargs : ∀ a ∈ args, a.denote { c with arrays } env = a.denote c env := fun a ha =>
      ih a ha fun p hp => h p (List.mem_cons_of_mem _ (List.mem_flatMap.mpr ⟨a, ha, hp⟩))
    rw [denote, denote, denoteAll_eq, denoteAll_eq, mapM_congr hargs]
  | binary op left right span ihl ihr =>
    rw [walk_binary] at h
    rw [denote, denote, ihl fun p hp => h p (List.mem_cons_of_mem _ (List.mem_append_left _ hp)),
      ihr fun p hp => h p (List.mem_cons_of_mem _ (List.mem_append_right _ hp))]
  | negate operand span ih =>
    rw [walk_negate] at h
    rw [denote, denote, ih fun p hp => h p (List.mem_cons_of_mem _ hp)]

end

end Expr

namespace Usage

/-- A scan finds all that its expressions depend on. Under tables that bind the free symbols, and
none that may not be bound, two contexts that agree on the usage give every expression the same
value or the same failure. Of the arrays alone, an expression depends on those of its names. -/
theorem evaluate_determined [Scalar α] (exprs : List Expr) (bound : List String) :
    (∀ (c c' : EvalContext α) (s s' : Symbols), (ofExprs exprs bound).Binds bound s →
      (ofExprs exprs bound).Binds bound s' →
      (∀ name ∈ (ofExprs exprs bound).free, s.lookup name = s'.lookup name) →
      (ofExprs exprs bound).AgreeOn c c' →
        ∀ e ∈ exprs, (e.evaluate c s).1 = (e.evaluate c' s').1) ∧
    ∀ (e : Expr) (c : EvalContext α) (arrays : Arrays α) (s : Symbols),
      (∀ name ∈ e.names, c.arrays.lookup name = arrays.lookup name) →
        e.evaluate { c with arrays } s = e.evaluate c s := by
  refine ⟨fun c c' s s' hs hs' hfree hc e he => ?_, fun e c arrays s h => ?_⟩
  · rw [Expr.evaluate_eq_denote, Expr.evaluate_eq_denote]
    exact (covers_ofExprs he).denote_eq hc (hs.sameSymbols hs' hfree)
  · rw [Expr.evaluate_eq_denote, Expr.evaluate_eq_denote,
      Expr.denote_arrays (Expr.sameArrays_of_names h)]

/-- The expression `i * x[i] + sum_j(w * j)`. -/
def blended : Expr :=
  .binary .add
    (.binary .mul (.ref "i" [] ⟨0, 1⟩) (.ref "x" [.symbol "i" ⟨6, 7⟩] ⟨4, 8⟩) ⟨0, 8⟩)
    (.reduction .sum "j" (.binary .mul (.ref "w" [] ⟨17, 18⟩) (.ref "j" [] ⟨21, 22⟩) ⟨17, 22⟩)
      ⟨11, 23⟩) ⟨0, 23⟩

/-- The arrays and the domain that the expression needs. -/
def sparing : EvalContext Float :=
  ⟨[("x", ⟨[2], #[1.5, 2.5], rfl⟩), ("w", ⟨[], #[0.5], rfl⟩)], 0, [("j", [1, 2])]⟩

/-- The same, with arrays and a domain that it does not need: some are called like its symbols. -/
def crowded : EvalContext Float :=
  ⟨[("j", ⟨[], #[7.5], rfl⟩), ("w", ⟨[], #[0.5], rfl⟩), ("i", ⟨[3], #[0.5, 1.5, 2.5], rfl⟩),
    ("x", ⟨[2], #[1.5, 2.5], rfl⟩)], 0, [("i", [4]), ("j", [1, 2])]⟩

theorem usage_blended : ofExprs [blended] ["i", "j", "k"] = ⟨["i"], ["j"], ["w"], [("x", 1)]⟩ := by
  decide +kernel

/-- Neither an array that is called like a symbol counts, nor a bound symbol that is not used. -/
theorem evaluate_determined_crowded :
    (blended.evaluate sparing [("i", 1)]).1 = (blended.evaluate crowded [("k", 3), ("i", 1)]).1 ∧
    blended.evaluate { sparing with arrays := sparing.arrays ++ [("k", ⟨[], #[1.5], rfl⟩)] }
      [("i", 1)] = blended.evaluate sparing [("i", 1)] := by
  obtain ⟨hruns, harrays⟩ := evaluate_determined (α := Float) [blended] ["i", "j", "k"]
  rw [usage_blended] at hruns
  have hagree : AgreeOn ⟨["i"], ["j"], ["w"], [("x", 1)]⟩ sparing crowded :=
    ⟨rfl, by decide, List.forall_mem_singleton.mpr rfl, List.forall_mem_singleton.mpr rfl⟩
  have hnames : blended.names = ["i", "x", "w", "j"] := by decide +kernel
  refine ⟨hruns sparing crowded _ _ ⟨by decide, by decide⟩ ⟨by decide, by decide⟩ (by decide)
    hagree blended List.mem_cons_self, harrays blended sparing _ _ ?_⟩
  rw [hnames]
  simp only [List.forall_mem_cons]
  exact ⟨rfl, rfl, rfl, rfl, List.forall_mem_nil _⟩

end Usage

end EnergyGraph
