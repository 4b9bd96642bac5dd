-- Well-formed graphs do not get stuck. A build checks the symbols, the names and the
-- indices of each component in three passes; together they answer every look-up that an
-- evaluation makes, at every point of every kind of interaction.
import EnergyGraph.Proofs.Completeness
import EnergyGraph.Proofs.Denotation
import EnergyGraph.Proofs.Enumeration
import EnergyGraph.Proofs.Shapes

namespace EnergyGraph

/-! ## Failures that are no failed look-ups -/

/-- The codes of failed look-ups. -/
def lookupCodes : List String :=
  ["UnboundSymbol", "UnresolvedReference", "IndexOutOfBounds", "ShapeMismatch"]

theorem LookupViolation.code_mem (v : LookupViolation) : v.code ∈ lookupCodes := by
  cases v <;> simp [code, lookupCodes]

/-- No diagnostic tells of a failed look-up. -/
def NeverLookup {β : Type} (x : Except Failure β) : Prop :=
  ∀ d, x = .error (.diagnostic d) → d.code ∉ lookupCodes

section

variable {β γ : Type}

theorem neverLookup_ok (b : β) : NeverLookup (.ok b) := fun _ h => nomatch h

theorem neverLookup_refusal (r : Refusal) : NeverLookup (.error (.refusal r) : Except Failure β) :=
  fun _ h => nomatch h

theorem neverLookup_bind {x : Except Failure β} {f : β → Except Failure γ} (hx : NeverLookup x)
    (hf : ∀ b, x = .ok b → NeverLookup (f b)) : NeverLookup (x >>= f) := by
  cases x with
  | ok b => exact hf b rfl
  | error e =>
    intro d hd
    cases hd
    exact hx d rfl

theorem neverLookup_mapM {f : β → Except Failure γ} {xs : List β}
    (h : ∀ x ∈ xs, NeverLookup (f x)) : NeverLookup (xs.mapM f) := by
  induction xs with
  | nil => exact neverLookup_ok []
  | cons x rest ih =>
    rw [List.mapM_cons]
    refine neverLookup_bind (h x List.mem_cons_self) fun _ _ => ?_
    exact neverLookup_bind (ih fun y hy => h y (List.mem_cons_of_mem _ hy)) fun _ _ =>
      neverLookup_ok _

end

namespace Energy

variable {α : Type} [Scalar α]

theorem neverLookup_fail {β : Type} {f : Fault} (h : f.code ∉ lookupCodes) :
    NeverLookup (fail f : Except Failure β) := by
  intro d hd
  cases hd
  exact h

theorem neverLookup_failureOf {β : Type} {tell : Violation → Fault} {e : EvalFailure α}
    (htell : ∀ v, (tell v).code = v.code) (h : e.isLookup = false) :
    NeverLookup (.error (failureOf tell e) : Except Failure β) := by
  intro d hd
  cases e with
  | domain v =>
    cases hd
    change (tell ⟨domainCode, v.message⟩).code ∉ lookupCodes
    rw [htell]
    exact (by decide : domainCode ∉ lookupCodes)
  | lookup v => cases h
  | refusal r => cases hd

/-! ## The value of a term -/

variable {c : EvalContext α} {range : String → Int → Prop} {known : List String}
  {symbols : Symbols} {s : Site}

theorem neverLookup_evalExpr {e : Expr} (he : Expr.Ready c range known e)
    (hs : Expr.Bound range known symbols) : NeverLookup (evalExpr s c symbols e) := by
  have hkeeps := Expr.keeps_eval he hs symbols (Symbols.Agrees.refl symbols)
  unfold evalExpr Expr.evaluate
  rcases hrun : (e.eval c).run.run symbols with ⟨f | x, after⟩
  · rw [hrun] at hkeeps
    exact neverLookup_failureOf (fun _ => rfl) hkeeps
  · exact neverLookup_ok x

theorem neverLookup_evalArgs {exprs : List Expr} (he : ∀ e ∈ exprs, Expr.Ready c range known e)
    (hs : Expr.Bound range known symbols) : NeverLookup (evalArgs s c symbols exprs) := by
  have hkeeps := Expr.keeps_evalAll (fun e hmem => Expr.keeps_eval (he e hmem) hs) symbols
    (Symbols.Agrees.refl symbols)
  unfold evalArgs
  rcases hrun : (Expr.evalAll c exprs).run.run symbols with ⟨f | xs, after⟩
  · rw [hrun] at hkeeps
    exact neverLookup_failureOf (fun _ => rfl) hkeeps
  · exact neverLookup_ok _

omit [Scalar α] in
theorem neverLookup_callFunction (registry : Option (Registry α)) (s : Site) (function : String)
    (args : List α) (symbols : Symbols) :
    NeverLookup (callFunction registry s function args symbols) := by
  unfold callFunction
  cases registry with
  | none => exact neverLookup_fail (by simp [Fault.code, lookupCodes])
  | some call =>
    intro d hd
    dsimp only at hd
    rcases hcall : call function args with r | x
    · rw [hcall] at hd
      cases hd
      change "FunctionFailure" ∉ lookupCodes
      decide
    · rw [hcall] at hd
      cases hd

/-- The formulas that count for the value of a term. -/
def evaluated (t : Graph.TermNode) : List Formula :=
  if t.kind = .functional then t.args else t.expr.toList

/-- A term whose formulas are ready never fails by a look-up, whatever its functions do. -/
theorem neverLookup_termValue {e : Evaluation α} {t : Graph.TermNode}
    (he : ∀ f ∈ evaluated t, Expr.Ready c range known f.body)
    (hs : Expr.Bound range known symbols) : NeverLookup (termValue e s t c symbols) := by
  unfold evaluated at he
  unfold termValue
  by_cases hkind : t.kind = .functional
  · rw [if_pos hkind] at he ⊢
    refine neverLookup_bind (neverLookup_evalArgs (fun e hmem => ?_) hs) fun b _ =>
      neverLookup_callFunction _ _ _ _ _
    obtain ⟨f, hf, rfl⟩ := List.mem_map.mp hmem
    exact he f hf
  · rw [if_neg hkind] at he ⊢
    rcases hexpr : t.expr with _ | f
    · exact neverLookup_refusal _
    · exact neverLookup_evalExpr (he f (by simp [hexpr])) hs

/-! ## The value of a component -/

theorem neverLookup_noAggregate {β : Type} (f : Aggregator.Fault) :
    NeverLookup (Aggregator.fail f : Except Failure β) := by
  intro d hd
  cases hd
  cases f <;> simp [Aggregator.Fault.diagnostic, Aggregator.Fault.code, evalError, lookupCodes]

theorem neverLookup_cvar (values : List α) (alpha : α) :
    NeverLookup (Aggregator.cvar values alpha) := by
  unfold Aggregator.cvar
  dsimp only
  split
  · exact neverLookup_noAggregate _
  · split
    · exact neverLookup_refusal _
    · have hquotient : ∀ total tail : α, NeverLookup (if Scalar.eq tail Scalar.zero then
          Failure.refuse .divisionByZero else .ok (total / tail)) := by
        intro total tail
        split
        · exact neverLookup_refusal _
        · exact neverLookup_ok _
      split
      · split
        · exact neverLookup_bind (neverLookup_ok _) fun _ _ => hquotient _ _
        · exact neverLookup_bind (neverLookup_refusal _) fun _ _ => hquotient _ _
      · exact neverLookup_bind (neverLookup_ok _) fun _ _ => hquotient _ _

theorem neverLookup_result (acc : Aggregator.Accumulator α) : NeverLookup acc.result := by
  unfold Aggregator.Accumulator.result
  split
  · split
    · exact neverLookup_ok _
    · exact neverLookup_noAggregate _
  · exact neverLookup_ok _
  · exact neverLookup_ok _
  · split
    · exact neverLookup_noAggregate _
    · exact neverLookup_ok _
  · split
    · exact neverLookup_noAggregate _
    · exact neverLookup_ok _
  · split
    · exact neverLookup_noAggregate _
    · split <;> exact neverLookup_ok _
  · exact neverLookup_ok _
  · exact neverLookup_cvar _ _

theorem neverLookup_aggregateOf (s : Site) (i : Interaction) (a : Aggregator α) (values : List α) :
    NeverLookup (aggregateOf s i a values) := by
  have hresult : NeverLookup (a.aggregate values) := neverLookup_result _
  intro d hd
  unfold aggregateOf at hd
  rcases h : a.aggregate values with e | x
  · rw [h] at hd
    cases e with
    | diagnostic reason =>
      cases hd
      exact hresult reason h
    | collected found => cases hd
    | refusal r => cases hd
  · rw [h] at hd
    cases hd

/-! ## The points of a component -/

theorem neverLookup_rangeOf (i : Interaction) (symbol : String) :
    NeverLookup (i.rangeOf symbol) := by
  unfold Interaction.rangeOf
  split
  · exact neverLookup_refusal _
  · split
    · split
      · exact neverLookup_ok _
      · exact neverLookup_refusal _
    · exact neverLookup_refusal _

theorem neverLookup_tuples (i : Interaction) (symbols : List String) :
    NeverLookup (i.tuples symbols) := by
  unfold Interaction.tuples
  split
  · exact neverLookup_ok _
  · refine neverLookup_bind (neverLookup_mapM fun symbol _ => ?_) fun _ _ => neverLookup_ok _
    refine neverLookup_bind (neverLookup_rangeOf i symbol) fun r _ => ?_
    unfold Interaction.countable
    split
    · exact neverLookup_ok _
    · exact neverLookup_refusal _
  · exact neverLookup_ok _
  · exact neverLookup_ok _
  · exact neverLookup_refusal _
  · exact neverLookup_refusal _

theorem neverLookup_allPoints (base : Int) (i : Interaction) (free reductions : List String) :
    NeverLookup (allPoints base i free reductions) := by
  unfold allPoints points
  split
  · exact neverLookup_ok _
  · split
    · exact neverLookup_ok _
    · refine neverLookup_bind (neverLookup_mapM fun symbol _ => ?_) fun _ _ => ?_
      · exact neverLookup_bind (neverLookup_rangeOf i symbol) fun _ _ => neverLookup_ok _
      · exact neverLookup_bind (neverLookup_tuples i _) fun _ _ => neverLookup_ok _

/-- A component never fails by a look-up unless the value of its term does at some point. -/
theorem neverLookup_evalComponent {e : Evaluation α} {n : Graph.ComponentNode}
    {t : Graph.TermNode} {i : Interaction}
    (h : ∀ ps, allPoints e.graph.base i n.free n.reductions = .ok ps →
      ∀ p ∈ ps, NeverLookup (valueAt e ⟨n.id, t.id⟩ t p)) :
    NeverLookup (evalComponent e n t i) := by
  refine neverLookup_bind ?_ fun found _ =>
    neverLookup_bind (neverLookup_aggregateOf _ _ _ _) fun _ _ => neverLookup_ok _
  unfold instances
  dsimp only
  split
  · refine neverLookup_bind (neverLookup_allPoints _ _ _ _) fun ps hps => ?_
    unfold rowInstances
    split
    · exact neverLookup_fail (by simp [Fault.code, lookupCodes])
    · exact neverLookup_bind (neverLookup_mapM (h ps hps)) fun _ _ => neverLookup_ok _
  · refine neverLookup_bind (neverLookup_allPoints _ _ _ _) fun ps hps => ?_
    refine neverLookup_mapM fun p hp => ?_
    exact neverLookup_bind (h ps hps p hp) fun _ _ => neverLookup_ok _

end Energy

/-! ## What the checks of a build ensure -/

namespace Graph

variable {d : Document} {s : Surroundings} {dataShapes : List (String × Shape)} {asm : Assembly}
  {g : Graph} {scope : Scope}

/-- Both ends of an extent are inside of an axis, and so is every value between them. -/
theorem fits_of_candidates {x : Interaction} {base : Int} {i : Index} {dimension : Nat}
    (h : ∀ k ∈ Bounds.candidates x.extents i, Bounds.isInside base dimension k = true) :
    Expr.IndexFits x.Spans base i dimension := by
  cases i with
  | literal n span => exact h n (List.mem_singleton_self n)
  | symbol name span =>
    rintro k ⟨low, high, hextent, hlow, hhigh⟩
    simp only [Bounds.candidates, hextent] at h
    have hfirst := h low (by simp)
    have hlast := h high (by simp)
    unfold Bounds.isInside at *
    simp only [Bool.and_eq_true, decide_eq_true_eq] at *
    omega

/-- An index that passes the check of bounds fits, whatever its symbol stands for. -/
theorem fits_of_checkReference {x : Interaction} {shapes : List (String × Shape)} {base : Int}
    {name : String} {first : Index} {rest : List Index} {span : Span} {shape : Shape}
    (h : Bounds.checkReference x.id x.extents shapes base (.expr (.ref name (first :: rest) span)) =
      .ok ()) (hshape : shapes.lookup name = some shape) :
    List.Forall₂ (Expr.IndexFits x.Spans base) (first :: rest) shape := by
  simp only [Bounds.checkReference, hshape] at h
  split at h
  · cases h
  · rename_i hlength
    split at h
    · cases h
    · rename_i hnone
      refine List.forall₂_iff_zip.mpr ⟨not_not.mp hlength, fun {i dimension} hmem => ?_⟩
      obtain ⟨axis, haxis⟩ := List.mem_iff_getElem?.mp hmem
      unfold Bounds.outside? at hnone
      have hpair := List.findSome?_eq_none_iff.mp hnone _
        (List.mk_mem_zipIdx_iff_getElem?.mpr haxis)
      refine fits_of_candidates fun k hk => ?_
      simpa using List.find?_eq_none.mp (Option.map_eq_none_iff.mp hpair) k hk

theorem mem_referencedArrays {f : Formula} {name : String} {indices : List Index} {span : Span}
    (hf : f ∈ g.formulas) (hpart : .expr (.ref name indices span) ∈ f.body.walk) :
    name ∈ g.referencedArrays := by
  unfold referencedArrays
  rw [Expr.mem_firsts, List.mem_flatMap]
  exact ⟨f, hf, Expr.mem_names.mpr ⟨_, _, hpart⟩⟩

theorem mem_formulas {node : TermNode} {f : Formula} (hnode : node ∈ g.terms)
    (hf : f ∈ node.formulas) : f ∈ g.formulas :=
  List.mem_append_left _ (List.mem_flatMap.mpr ⟨node, hnode, hf⟩)

/-- The values that a graph is evaluated with: an assignment that was accepted, and the same data
that the graph was built with. -/
structure Supplied (g : Graph) (data : Lookup) (values : Arrays Float) : Prop where
  rectangular : data.IsRectangular
  values : ∃ a vars arrays, Energy.normalize g a = .ok vars ∧
    Energy.loadData g (Energy.feedOf data) = .ok arrays ∧ values = vars ++ arrays

/-- The array that a name stands for has the shape that the name has in the graph. -/
theorem Supplied.shape_eq {data : Lookup} {values : Arrays Float} (h : Supplied g data values)
    {name : String} (hname : name ∈ g.referencedArrays) :
    (values.lookup name).map (·.shape) = g.shapeOf? data name := by
  obtain ⟨a, vars, arrays, hvars, harrays, rfl⟩ := h.values
  exact Energy.shape_of_arrays h.rectangular hvars harrays hname

/-- A name that had a shape during the build stands for an array of that shape. -/
theorem Supplied.array {values : Arrays Float} (h : Supplied g s.data values)
    (hg : Assembled d s dataShapes asm g) {name : String} {shape : Shape}
    (hname : name ∈ g.referencedArrays)
    (hshape : (scopeOf s g.vars dataShapes).shapes.lookup name = some shape) :
    ∃ t, values.lookup name = some t ∧ t.shape = shape := by
  have hsame := h.shape_eq hname
  rw [hg.shapeOf?_eq hshape] at hsame
  exact Option.map_eq_some_iff.mp hsame

/-- A name that was accepted, was not replaced and is no symbol stands for an array with a single
cell. -/
theorem Supplied.single {values : Arrays Float} (h : Supplied g s.data values)
    (hg : Assembled d s dataShapes asm g) {kept : List String} {name : String}
    (hname : name ∈ g.referencedArrays)
    (hscalar : (scopeOf s g.vars dataShapes).isScalar name = true) (hkept : name ∉ kept)
    (hnone : Expr.replacement? s.parameters kept name = none) :
    ∃ t, values.lookup name = some t ∧ t.cells.size = 1 := by
  unfold Expr.replacement? at hnone
  rw [if_neg hkept] at hnone
  have hnumbers : (scopeOf s g.vars dataShapes).numbers = s.parameters := rfl
  unfold Scope.isScalar at hscalar
  rw [hnumbers, hnone] at hscalar
  rcases hshape : (scopeOf s g.vars dataShapes).shapes.lookup name with _ | shape
  · simp [hshape] at hscalar
  · obtain ⟨t, ht, rfl⟩ := h.array hg hname hshape
    refine ⟨t, ht, t.size_eq.trans ?_⟩
    simpa [hshape] using hscalar

/-- The checks of a component, for its own term. -/
structure Checked (scope : Scope) (base : Int) (t : TermDecl) (x : Interaction) (node : TermNode) :
    Prop where
  allowed : Binding.Allowed (Usage.ofExprs (bodies t.formulas) x.symbols) x
  scalars : ∀ name ∈ (Usage.ofExprs (bodies t.formulas) x.symbols).scalars,
    scope.isScalar name = true
  arrays : ∀ name ∈ (Usage.ofExprs (bodies t.formulas) x.symbols).arrays.map (·.1),
    ∃ shape, scope.shapes.lookup name = some shape
  inside : ∀ f ∈ node.formulas, ∀ p ∈ f.body.walk,
    Bounds.checkReference x.id x.extents scope.shapes base p = .ok ()

theorem Stands.checks {base : Int} {c : ComponentDecl} {t : TermDecl} {i : InteractionDecl}
    {x : Interaction} {node : TermNode} {n : ComponentNode}
    (h : Stands d scope base asm c t i x node n) : Checked scope base t x node := by
  have hchecked := h.checked
  unfold checkTerm at hchecked
  obtain ⟨_, hnames, hbounds⟩ := bind_eq_ok.mp hchecked
  obtain ⟨_, hscalars, harrays⟩ := bind_eq_ok.mp hnames
  rw [mapError_eq_ok] at hbounds
  refine ⟨(Binding.allowed_of_bind h.bound).1, ?_, ?_, ?_⟩
  · intro name hname
    have hok := forM_eq_ok.mp hscalars name hname
    unfold checkScalar at hok
    split at hok
    · assumption
    · split at hok <;> cases hok
  · intro name hname
    have hok := forM_eq_ok.mp harrays name hname
    unfold checkArray at hok
    split at hok
    · exact Option.isSome_iff_exists.mp ‹_›
    · cases hok
  · intro f hf p hp
    refine forM_eq_ok.mp hbounds p (List.mem_flatMap.mpr ⟨f.body, ?_, hp⟩)
    exact List.mem_map_of_mem hf

theorem mem_formulas_of_evaluated {numbers : Numbers} {t : TermDecl} {bound : List String}
    {f : Formula} (hf : f ∈ Energy.evaluated (termNode numbers t bound)) :
    f ∈ (termNode numbers t bound).formulas ∧
      ∃ f' ∈ t.formulas, f = f'.substitute numbers bound := by
  unfold Energy.evaluated at hf
  unfold TermNode.formulas TermDecl.formulas
  by_cases hkind : t.kind = .functional
  · rw [if_pos hkind]
    rw [termNode, if_pos hkind] at hf
    obtain ⟨f', hf', rfl⟩ := List.mem_map.mp hf
    exact ⟨List.mem_append_right _ hf, f', hf', rfl⟩
  · rw [if_neg hkind]
    rw [termNode, if_neg hkind] at hf
    refine ⟨List.mem_append_left _ hf, ?_⟩
    rcases hexpr : t.expr with _ | f'
    · simp [hexpr] at hf
    · exact ⟨f', by simp, by simpa [hexpr] using hf⟩

/-- The formulas of a checked term are ready at every point that serves it. -/
theorem Checked.ready {t : TermDecl} {x : Interaction} {values : Arrays Float}
    (hg : Assembled d s dataShapes asm g)
    (h : Checked (scopeOf s g.vars dataShapes) g.base t x (termNode s.parameters t (boundOf t x)))
    (hnode : termNode s.parameters t (boundOf t x) ∈ g.terms) (hvalues : Supplied g s.data values)
    {p : Energy.Point} (hp : p.Serves x (Usage.ofExprs (bodies t.formulas) x.symbols))
    {f : Formula} (hf : f ∈ Energy.evaluated (termNode s.parameters t (boundOf t x))) :
    Expr.Ready ⟨values, g.base, p.domains⟩ x.Spans
      (Usage.ofExprs (bodies t.formulas) x.symbols).free f.body := by
  obtain ⟨hformula, f', hf', rfl⟩ := mem_formulas_of_evaluated hf
  have hcovers : Usage.Covers (Usage.ofExprs (bodies t.formulas) x.symbols) x.symbols [] f'.body :=
    Usage.covers_ofExprs (List.mem_map_of_mem hf')
  refine hcovers.ready hp.reduced fun part hpart => ?_
  match part with
  | .expr (.ref name [] span) =>
    intro hbound hscalar
    have hkept : name ∉ boundOf t x ++ f'.body.reductionSymbols := by
      intro hmem
      rcases List.mem_append.mp hmem with hmem | hmem
      · rcases List.mem_append.mp hmem with hmem | hmem
        · exact hbound hmem
        · exact hbound (h.allowed.reductions name hmem)
      · exact hbound (h.allowed.reductions name (hcovers.reductionSymbols hmem))
    exact hvalues.single hg (mem_referencedArrays (mem_formulas hnode hformula) hpart)
      (h.scalars name hscalar) hkept (Expr.replacement?_of_mem_walk hpart)
  | .expr (.ref name (first :: rest) span) =>
    intro harray
    obtain ⟨shape, hshape⟩ := h.arrays name harray
    obtain ⟨t, ht, rfl⟩ :=
      hvalues.array hg (mem_referencedArrays (mem_formulas hnode hformula) hpart) hshape
    exact ⟨t, ht, fits_of_checkReference (h.inside _ hformula _ hpart) hshape⟩
  | .expr (.literal ..) | .expr (.reduction ..) | .expr (.call ..) | .expr (.binary ..)
  | .expr (.negate ..) | .index _ => trivial

/-- What stands at the place of an interaction was resolved, so that its domain goes with its
symbols. -/
theorem Sound.fits {done : List ComponentDecl} (h : Sound d s scope done asm) {id : String}
    {k : Nat} {x : Interaction} (hplace : asm.interactionPlaces.lookup id = some (some k))
    (hx : asm.interactions[k]? = some x) : x.domain.Fits x.symbols ∧ x.base = s.base := by
  obtain ⟨k', y, hk', hy, _, _, _, _, _, hresolved⟩ := h.interactions id _ hplace
  cases hk'
  rw [hx] at hy
  cases hy
  exact Interaction.fits_of_resolve hresolved

/-! ## Progress -/

/-- A component of a graph is evaluated at each of its points, and as a whole, without a failed
look-up. Its points can be listed, unless a range has too many values. -/
structure Proceeds (e : Energy.Evaluation Float) (place : Nat) (n : ComponentNode) (t : TermNode)
    (i : Interaction) : Prop where
  countable : Energy.Countable i e.graph.base n.free n.reductions
  points : ∀ ps, Energy.allPoints e.graph.base i n.free n.reductions = .ok ps →
    ∀ p ∈ ps, NeverLookup (Energy.valueAt e ⟨n.id, t.id⟩ t p)
  component : NeverLookup (Energy.componentAt e place)

theorem Assembled.proceeds {e : Energy.Evaluation Float} (hd : DistinctTerms d)
    (hg : Assembled d s dataShapes asm e.graph) (hbase : s.base = e.graph.base)
    (hvalues : Supplied e.graph s.data e.arrays) {place : Nat} {n : ComponentNode}
    (hn : e.graph.components[place]? = some n) :
    ∃ t i, e.graph.terms[n.term]? = some t ∧ e.graph.interactions[n.interaction]? = some i ∧
      Proceeds e place n t i := by
  obtain ⟨c, hc, t, decl, i, node, hstands⟩ := hg.stands (List.mem_of_getElem? hn)
  obtain rfl := hg.sound.node_eq hd hc hstands
  have hterm : e.graph.terms[n.term]? = some (termNode s.parameters t (boundOf t i)) := by
    rw [hg.terms_eq]
    exact hstands.term_node
  have hinteraction : e.graph.interactions[n.interaction]? = some i := by
    rw [hg.interactions_eq]
    exact hstands.interaction_node
  obtain ⟨hallowed, hfree, hreductions⟩ := Binding.allowed_of_bind hstands.bound
  obtain ⟨hfits, hcount⟩ := hg.sound.fits hstands.interaction_place hstands.interaction_node
  have hchecks := hstands.checks
  have hpoints : ∀ ps, Energy.allPoints e.graph.base i n.free n.reductions = .ok ps →
      ∀ p ∈ ps, NeverLookup
        (Energy.valueAt e ⟨n.id, t.id⟩ (termNode s.parameters t (boundOf t i)) p) := by
    intro ps hps p hp
    dsimp only at hfree hreductions
    rw [hfree, hreductions, ← hbase, ← hcount] at hps
    have hserves := Energy.serves_of_mem hfits hallowed hps hp
    rw [hbase] at hchecks
    exact Energy.neverLookup_termValue
      (fun f hf => hchecks.ready hg (List.mem_of_getElem? hterm) hvalues hserves hf) hserves.bound
  have hcountable : Energy.Countable i e.graph.base n.free n.reductions := by
    dsimp only at hfree hreductions
    rw [hfree, hreductions]
    exact Energy.countable_of_fits hfits hallowed
  refine ⟨_, i, hterm, hinteraction, hcountable, hpoints, ?_⟩
  unfold Energy.componentAt
  simp only [hn, hterm, hinteraction, Option.bind_eq_bind, Option.bind_some]
  exact Energy.neverLookup_evalComponent hpoints

/-- Evaluating a component of a graph that was built never fails by a look-up: not at any point of
its interaction, and not as a whole. -/
theorem components_never_stuck {d : Document} {o : BuildOptions} {data : Lookup}
    {e : Energy.Evaluation Float} (h : build d o = .ok e.graph) (hdata : o.dataFor d = .ok data)
    (hd : DistinctTerms d) (hvalues : Supplied e.graph data e.arrays) :
    ∀ place n, e.graph.components[place]? = some n →
      ∃ t i, e.graph.terms[n.term]? = some t ∧ e.graph.interactions[n.interaction]? = some i ∧
        Proceeds e place n t i := by
  obtain ⟨parameters, data', -, hdata', hclean⟩ := build_eq_ok.mp h
  rw [hdata] at hdata'
  cases hdata'
  obtain ⟨dataShapes, asm, hg⟩ := assembled_of_clean hclean
  exact fun place n hn => hg.proceeds hd hg.base_eq.symm hvalues hn

/-- A document that is built without data is evaluated with any assignment that is accepted. -/
theorem exists_supplied {d : Document} {a : Assignment Float}
    (h : ((build d withoutData).bind fun g => (Energy.normalize g a).bind fun _ =>
      Energy.loadData g (Energy.feedOf Lookup.nothing)).isOk = true) :
    ∃ e : Energy.Evaluation Float, build d withoutData = .ok e.graph ∧
      Supplied e.graph Lookup.nothing e.arrays := by
  obtain ⟨arrays, h⟩ := exists_eq_ok h
  obtain ⟨g, hg, h⟩ := bind_eq_ok.mp h
  obtain ⟨vars, hvars, harrays⟩ := bind_eq_ok.mp h
  refine ⟨⟨g, vars ++ arrays, none, 0⟩, hg, ?_⟩
  exact ⟨fun _ _ h => (nomatch h), a, vars, arrays, hvars, harrays, rfl⟩

/-- The sum of `x[i]` over three places is evaluated without a failed look-up. -/
theorem components_never_stuck_sample : ∃ (e : Energy.Evaluation Float) (n : ComponentNode)
    (t : TermNode) (i : Interaction), build sample withoutData = .ok e.graph ∧
      e.graph.components[0]? = some n ∧ Proceeds e 0 n t i := by
  let x : Tensor Float := ⟨[3], #[1.0, 2.0, 3.0], rfl⟩
  let a : Assignment Float := fun name => if name = "x" then some (.ok x) else none
  obtain ⟨e, hg, hsupplied⟩ := exists_supplied (d := sample) (a := a) (by decide +kernel)
  have hcount : (build sample withoutData).toOption.map (·.components.length) = some 1 := by
    decide +kernel
  rw [hg] at hcount
  obtain ⟨n, hn⟩ := List.length_eq_one_iff.mp (Option.some.inj hcount)
  have hplace : e.graph.components[0]? = some n := by
    rw [hn]
    rfl
  obtain ⟨t, i, -, -, hproceeds⟩ :=
    components_never_stuck hg rfl (by decide : DistinctTerms sample) hsupplied 0 n hplace
  exact ⟨e, n, t, i, hg, hplace, hproceeds⟩

end Graph

end EnergyGraph
