-- A failure names the instance that failed. The index that is told is read from a table of
-- symbols, which reductions have written into before the failure passed through them. They
-- have put the table back at any depth, so that it holds the binding of the instance and
-- nothing else; and instances are evaluated in order, so that it is the first that fails.
import EnergyGraph.Proofs.Progress
import EnergyGraph.Proofs.ShiftedEnergy

namespace EnergyGraph

/-! ## Failed aggregates -/

namespace Aggregator

variable {α : Type} [Scalar α]

/-- Whatever is told is told of the aggregator. -/
def IsTold (err : Failure) : Prop := ∀ d, err = .diagnostic d → ∃ f : Fault, d = f.diagnostic

theorem isTold_fail {β : Type} (f : Fault) : FailsAs IsTold (fail f : Except Failure β) := by
  refine failsAs_error fun d h => ⟨f, ?_⟩
  cases h
  rfl

theorem isTold_refuse {β : Type} (kind : Refusal.Kind) :
    FailsAs IsTold (Failure.refuse kind : Except Failure β) :=
  failsAs_error fun _ h => (nomatch h)

theorem isTold_cvar (values : List α) (alpha : α) : FailsAs IsTold (cvar values alpha) := by
  have hquotient (tail total : α) : FailsAs IsTold
      (if Scalar.eq tail Scalar.zero then Failure.refuse .divisionByZero
        else .ok (total / tail) : Except Failure α) := by
    split
    · exact isTold_refuse _
    · exact failsAs_ok _
  unfold cvar
  dsimp only
  split
  · exact isTold_fail _
  split
  · exact isTold_refuse _
  split
  · split
    · exact failsAs_bind (failsAs_ok _) fun total => hquotient _ total
    · exact failsAs_bind (isTold_refuse _) fun total => hquotient _ total
  · exact failsAs_bind (failsAs_ok _) fun total => hquotient _ total

theorem isTold_result (acc : Accumulator α) : FailsAs IsTold acc.result := by
  have hnone {p : Prop} [Decidable p] (f : Fault) {x : Except Failure α} (hx : FailsAs IsTold x) :
      FailsAs IsTold (if p then fail f else x) := by
    split
    · exact isTold_fail f
    · exact hx
  cases acc with
  | identity n last =>
    rw [Accumulator.result]
    split
    · exact failsAs_ok _
    · exact isTold_fail _
  | sum n total => exact failsAs_ok _
  | prod n total hasZero => exact failsAs_ok _
  | extremum largest n best => exact hnone _ (failsAs_ok _)
  | mean n total => exact hnone _ (failsAs_ok _)
  | logsumexp beta n shift scaled =>
    refine hnone _ ?_
    split <;> exact failsAs_ok _
  | logprod n total => exact failsAs_ok _
  | cvar alpha n latest => exact isTold_cvar latest.reverse alpha

theorem Fault.code_cases (f : Fault) : f.code = "EmptyDomain" ∨ f.code = "ArityMismatch" := by
  cases f with
  | emptyDomain kind => exact Or.inl rfl
  | notSingle count => exact Or.inr rfl
  | notSingleReplayed count => exact Or.inr rfl

end Aggregator

/-! ## Bindings -/

/-- The values of the symbols at the places of an interaction, in order: a matrix has those of its
columns, and groups have none. -/
def Interaction.bindings (i : Interaction) (base : Int) (free : List String) :
    Except Failure (List Symbols) :=
  match i.domain with
  | .groups members => .ok (members.map fun _ => [])
  | .factor matrix => .ok ((List.range (columnCount matrix)).map fun (k : Nat) =>
      [(i.symbols.headD "", base + k)])
  | .ranges _ => do .ok ((← i.tuples free).map (free.zip ·))
  | _ => do .ok ((← i.tuples i.symbols).map (i.symbols.zip ·))

namespace Energy

variable {i : Interaction} {base : Int} {free reductions : List String} {ps : List Point}

theorem bindings_of_allPoints (h : allPoints base i free reductions = .ok ps) :
    i.bindings base free = .ok (ps.map (·.symbols)) := by
  unfold allPoints at h
  unfold Interaction.bindings
  cases hdomain : i.domain with
  | factor matrix =>
    rw [hdomain] at h
    cases h
    unfold columnPoints
    rw [List.map_map]
    rfl
  | groups members =>
    rw [hdomain] at h
    dsimp only at h ⊢
    rw [points_groups hdomain] at h
    cases h
    rw [List.map_map]
    conv_lhs => rw [← List.zipIdx_map_fst 0 members, List.map_map]
    rfl
  | _ =>
    rw [hdomain] at h
    dsimp only at h ⊢
    rw [points_eq (by simp [Interaction.kind, hdomain, Interaction.Domain.kind])] at h
    obtain ⟨domains, -, h⟩ := bind_eq_ok.mp h
    obtain ⟨tuples, htuples, h⟩ := bind_eq_ok.mp h
    cases h
    rw [tupleSymbols, hdomain] at htuples ⊢
    dsimp only at htuples
    rw [htuples, List.map_map]
    rfl

/-- A symbol is used free or in reductions, not both. -/
theorem reduction_not_free {exprs : List Expr} {arity : Arity} {compat : List String}
    {aggregator : Option (Aggregator Float)} {b : Binding}
    (h : Binding.bind exprs arity compat i aggregator = .ok b) {s : String}
    (hs : s ∈ b.reductions) : s ∉ b.free := by
  obtain ⟨-, hfree, hreductions⟩ := Binding.allowed_of_bind h
  unfold Binding.bind at h
  obtain ⟨_, -, h⟩ := bind_eq_ok.mp h
  obtain ⟨_, hchecked, -⟩ := bind_eq_ok.mp h
  have hcheck := forM_eq_ok.mp hchecked s (hreductions ▸ hs)
  unfold Binding.checkReduction at hcheck
  split at hcheck
  · cases hcheck
  split at hcheck
  · cases hcheck
  split at hcheck
  · cases hcheck
  rename_i hnone
  rw [hfree]
  exact fun hmem => hnone (by simpa using (List.mem_filter.mp hmem).2)

/-- At a point the symbols of reductions have no value. -/
theorem lookup_reduction {exprs : List Expr} {arity : Arity} {compat : List String}
    {aggregator : Option (Aggregator Float)} {b : Binding}
    (h : Binding.bind exprs arity compat i aggregator = .ok b)
    (hps : allPoints base i b.free b.reductions = .ok ps) {p : Point} (hp : p ∈ ps) {s : String}
    (hs : s ∈ b.reductions) : p.symbols.lookup s = none := by
  obtain ⟨hallowed, -, hreductions⟩ := Binding.allowed_of_bind h
  have hreducible := hallowed.reducible s (hreductions ▸ hs)
  unfold allPoints at hps
  cases hdomain : i.domain with
  | groups members =>
    rw [hdomain] at hps
    dsimp only at hps
    rw [points_groups hdomain] at hps
    cases hps
    obtain ⟨_, -, rfl⟩ := List.mem_map.mp hp
    rfl
  | ranges bounds =>
    rw [hdomain] at hps
    obtain ⟨ks, _, -, -, hsymbols, -⟩ :=
      mem_points (by simp [Interaction.kind, hdomain, Interaction.Domain.kind]) hps hp
    rw [tupleSymbols, hdomain] at hsymbols
    rw [hsymbols, lookup_eq_none_iff]
    intro hmem
    obtain ⟨q, hq, rfl⟩ := List.mem_map.mp hmem
    exact reduction_not_free h hs (fst_mem_of_zip q hq)
  | _ =>
    rw [Interaction.kind, hdomain] at hreducible
    cases hreducible

/-! ## Failed instances -/

/-- A diagnostic tells where a term failed: of which component, and under which symbols. -/
structure TellsOf (s : Site) (symbols : Symbols) (f : Diagnostic) : Prop where
  component : f.context.get? "component" = some (.text s.component)
  term : f.context.get? "term" = some (.text s.term)
  index : f.context.get? "index" = some symbols.value

variable {α : Type} [Scalar α] {e : Evaluation α} {f : Diagnostic}

/-- A function that is called, or an operation outside of its domain. -/
def IsOfInstance (e : Evaluation α) (f : Diagnostic) : Prop :=
  f.code = domainCode ∨ f.code = "FunctionFailure" ∧ e.registry.isSome = true

omit [Scalar α] in
theorem tellsOf_badInstance (s : Site) (symbols : Symbols) (v : Violation) :
    TellsOf s symbols (Fault.badInstance s symbols v).diagnostic := ⟨rfl, rfl, rfl⟩

omit [Scalar α] in
theorem tellsOf_functionFailed (s : Site) (function : String) (symbols : Symbols)
    (cause : String) :
    TellsOf s symbols (Fault.functionFailed s function symbols cause).diagnostic :=
  ⟨rfl, rfl, rfl⟩

theorem tellsOf_failureOf {s : Site} {symbols : Symbols} {err : EvalFailure α}
    (h : failureOf (Fault.badInstance s symbols) err = .diagnostic f) : TellsOf s symbols f := by
  cases err with
  | domain v =>
    cases h
    exact tellsOf_badInstance s symbols _
  | lookup v =>
    cases h
    exact tellsOf_badInstance s symbols _
  | refusal kind => cases h

omit [Scalar α] in
theorem tellsOf_callFunction {s : Site} {function : String} {args : List α} {symbols : Symbols}
    (h : callFunction e.registry s function args symbols = .error (.diagnostic f))
    (hcode : IsOfInstance e f) : TellsOf s symbols f := by
  unfold callFunction at h
  cases hregistry : e.registry with
  | none =>
    rw [hregistry] at h
    cases h
    rcases hcode with hcode | ⟨-, hsome⟩
    · exact absurd hcode (by simp [Fault.diagnostic, evalError, Fault.code, domainCode])
    · rw [hregistry] at hsome
      cases hsome
  | some call =>
    rw [hregistry] at h
    dsimp only at h
    cases hcall : call function args with
    | ok x =>
      rw [hcall] at h
      cases h
    | error r =>
      rw [hcall] at h
      cases h
      exact tellsOf_functionFailed s function symbols _

/-- Whatever reductions a failure has passed through, the symbols that it tells are those that the
term was evaluated under. -/
theorem tellsOf_termValue {s : Site} {t : Graph.TermNode} {c : EvalContext α} {symbols : Symbols}
    (h : termValue e s t c symbols = .error (.diagnostic f)) (hcode : IsOfInstance e f) :
    TellsOf s symbols f := by
  unfold termValue at h
  split at h
  · rw [evalArgs_eq] at h
    cases hargs : (t.args.map (·.body)).mapM (Expr.valueAt c symbols) with
    | ok args =>
      rw [hargs] at h
      exact tellsOf_callFunction h hcode
    | error err =>
      rw [hargs] at h
      exact tellsOf_failureOf (Except.error.inj h)
  · split at h
    · rename_i expr _
      rw [evalExpr_eq] at h
      cases hvalue : expr.body.valueAt c symbols with
      | ok x =>
        rw [hvalue] at h
        cases h
      | error err =>
        rw [hvalue] at h
        exact tellsOf_failureOf (Except.error.inj h)
    · cases h

/-! ## Failed components -/

/-- A component fails at one of its points, and all points before have a value. -/
structure FailsFirstAt (e : Evaluation α) (n : Graph.ComponentNode) (t : Graph.TermNode)
    (i : Interaction) (f : Diagnostic) (before : List Point) (p : Point) (after : List Point) :
    Prop where
  points : allPoints e.graph.base i n.free n.reductions = .ok (before ++ p :: after)
  earlier : ∀ q ∈ before, ∃ x, valueAt e ⟨n.id, t.id⟩ t q = .ok x
  fails : valueAt e ⟨n.id, t.id⟩ t p = .error (.diagnostic f)

variable {n : Graph.ComponentNode} {t : Graph.TermNode}

theorem failsFirst_of_pointInstances {s : Site} {ps : List Point}
    (h : pointInstances e s t ps = .error (.diagnostic f)) :
    ∃ before p after, ps = before ++ p :: after ∧ (∀ q ∈ before, ∃ x, valueAt e s t q = .ok x) ∧
      valueAt e s t p = .error (.diagnostic f) := by
  obtain ⟨before, p, after, hps, hbefore, hp⟩ := mapM_eq_error.mp h
  refine ⟨before, p, after, hps, fun q hq => ?_, ?_⟩
  · obtain ⟨_, hvalue⟩ := hbefore q hq
    obtain ⟨x, hx, -⟩ := bind_eq_ok.mp hvalue
    exact ⟨x, hx⟩
  · rcases bind_eq_error.mp hp with hp | ⟨x, -, hx⟩
    · exact hp
    · cases hx

theorem failsFirst_of_rowInstances {s : Site} {matrix : Tensor Float} {columns : List Point}
    (h : rowInstances e s t i matrix columns = .error (.diagnostic f))
    (hcode : IsOfInstance e f) :
    ∃ before p after, columns = before ++ p :: after ∧
      (∀ q ∈ before, ∃ x, valueAt e s t q = .ok x) ∧ valueAt e s t p = .error (.diagnostic f) := by
  unfold rowInstances at h
  split at h
  · cases h
    exact absurd hcode (by simp [IsOfInstance, Fault.diagnostic, evalError, Fault.code, domainCode])
  · rcases bind_eq_error.mp h with h | ⟨_, -, h⟩
    · exact mapM_eq_error.mp h
    · cases h

theorem exists_failsFirst_of_instances (hcount : Countable i e.graph.base n.free n.reductions)
    (h : instances e n t i = .error (.diagnostic f)) (hcode : IsOfInstance e f) :
    ∃ before p after, FailsFirstAt e n t i f before p after := by
  unfold instances at h
  rcases hcount with ⟨ps, hps⟩ | hlarge
  · rw [hps] at h
    cases hdomain : i.domain with
    | factor matrix =>
      rw [hdomain] at h
      obtain ⟨before, p, after, rfl, hbefore, hp⟩ := failsFirst_of_rowInstances h hcode
      exact ⟨before, p, after, hps, hbefore, hp⟩
    | _ =>
      rw [hdomain] at h
      obtain ⟨before, p, after, rfl, hbefore, hp⟩ := failsFirst_of_pointInstances h
      exact ⟨before, p, after, hps, hbefore, hp⟩
  · rw [hlarge] at h
    cases hdomain : i.domain <;> rw [hdomain] at h <;> cases h

/-- The aggregate of a component fails in other ways than its term. -/
theorem not_isOfInstance_aggregateOf {s : Site} {a : Aggregator α} {values : List α}
    (h : aggregateOf s i a values = .error (.diagnostic f)) : ¬ IsOfInstance e f := by
  unfold aggregateOf Aggregator.aggregate at h
  have htold := Aggregator.isTold_result (values.foldl Aggregator.Accumulator.push a.start)
  cases hresult : (values.foldl Aggregator.Accumulator.push a.start).result with
  | ok x =>
    rw [hresult] at h
    cases h
  | error err =>
    rw [hresult] at h htold
    cases err with
    | diagnostic d =>
      obtain ⟨fault, rfl⟩ := htold _ rfl d rfl
      cases h
      change ¬ (fault.code = _ ∨ fault.code = _ ∧ _)
      rcases fault.code_cases with hcode | hcode <;> rw [hcode] <;> simp [domainCode]
    | collected ds => cases h
    | refusal r => cases h

theorem exists_failsFirst {place : Nat} (hnodes : nodesAt e.graph place = some (n, t, i))
    (hcount : Countable i e.graph.base n.free n.reductions)
    (h : componentAt e place = .error (.diagnostic f)) (hcode : IsOfInstance e f) :
    ∃ before p after, FailsFirstAt e n t i f before p after := by
  rw [componentAt_eq, hnodes, Option.elim_some] at h
  unfold evalComponent at h
  rcases bind_eq_error.mp h with h | ⟨found, -, h⟩
  · exact exists_failsFirst_of_instances hcount h hcode
  · rcases bind_eq_error.mp h with h | ⟨_, -, h⟩
    · exact absurd hcode (not_isOfInstance_aggregateOf h)
    · cases h

end Energy

/-! ## Graphs that were built -/

namespace Graph

variable {d : Document} {s : Surroundings} {dataShapes : List (String × Shape)} {asm : Assembly}
  {g : Graph} {scope : Scope}

/-- Whatever stands at the place of a component's term has the id of that term. -/
theorem Sound.term_id {base : Int} (h : Sound d s scope d.components asm) {c : ComponentDecl}
    {t : TermDecl} {decl : InteractionDecl} {i : Interaction} {node : TermNode} {n : ComponentNode}
    (hn : Stands d scope base asm c t decl i node n) : node.id = t.id := by
  obtain ⟨_, _, t', _, _, _, _, _, _, _, hslot, hnode⟩ := h.terms _ _ hn.term_place
  rw [hn.term_node] at hnode
  rw [Option.some.inj hnode]
  exact (Prod.mk.inj hslot).1

/-- The points of a component that was built can be listed, unless there are too many. -/
theorem Stands.countable {c : ComponentDecl} {t : TermDecl} {decl : InteractionDecl}
    {i : Interaction} {node : TermNode} {n : ComponentNode} {base : Int}
    (h : Sound d s scope d.components asm) (hn : Stands d scope s.base asm c t decl i node n) :
    Energy.Countable i base n.free n.reductions := by
  obtain ⟨hallowed, hfree, hreductions⟩ := Binding.allowed_of_bind hn.bound
  obtain ⟨hfits, -⟩ := h.fits hn.interaction_place hn.interaction_node
  dsimp only at hfree hreductions
  rw [hfree, hreductions]
  exact Energy.countable_of_fits hfits hallowed

theorem Stands.reductionSymbols {c : ComponentDecl} {t : TermDecl} {decl : InteractionDecl}
    {i : Interaction} {node : TermNode} {n : ComponentNode} {base : Int}
    (hn : Stands d scope base asm c t decl i node n) {f : Formula} (hf : f ∈ t.formulas)
    {symbol : String} (hsymbol : symbol ∈ f.body.reductionSymbols) : symbol ∈ n.reductions := by
  obtain ⟨-, -, hreductions⟩ := Binding.allowed_of_bind hn.bound
  dsimp only at hreductions
  rw [hreductions]
  exact (Usage.covers_ofExprs (List.mem_map_of_mem hf)).reductionSymbols hsymbol

/-- If the term of a component fails by an operation outside of its domain, or by a function, then
the diagnostic names the first instance in the order of the interaction at which it fails. All
instances before have a value; the index is the binding of the instance, and no symbol of a
reduction is left in it; the ids are those of the component and of its term. -/
theorem failure_names_instance {α : Type} [Scalar α] {e : Energy.Evaluation α} {o : BuildOptions}
    (h : build d o = .ok e.graph) {place : Nat} {n : ComponentNode} {t : TermNode}
    {i : Interaction} (hnodes : Energy.nodesAt e.graph place = some (n, t, i)) {f : Diagnostic}
    (hfail : Energy.componentAt e place = .error (.diagnostic f))
    (hcode : f.code = Energy.domainCode ∨ f.code = "FunctionFailure" ∧ e.registry.isSome = true) :
    ∃ before p after,
      Energy.FailsFirstAt e n t i f before p after ∧
      i.bindings e.graph.base n.free = .ok ((before ++ p :: after).map (·.symbols)) ∧
      Energy.TellsOf ⟨n.id, t.id⟩ p.symbols f ∧
      (∀ symbol ∈ n.reductions, p.symbols.lookup symbol = none) ∧
      ∃ c ∈ d.components, ∃ own, termOf? d c = some own ∧ n.id = c.id ∧ t.id = own.id ∧
        (∀ formula ∈ own.formulas, ∀ symbol ∈ formula.body.reductionSymbols,
          p.symbols.lookup symbol = none) ∧
        (DistinctTerms d → ∀ formula ∈ Energy.evaluated t,
          ∀ symbol ∈ formula.body.reductionSymbols, p.symbols.lookup symbol = none) := by
  obtain ⟨parameters, data, -, -, hclean⟩ := build_eq_ok.mp h
  obtain ⟨dataShapes, asm, hg⟩ := assembled_of_clean hclean
  obtain ⟨m, hm, hrest⟩ := Option.bind_eq_some_iff.mp hnodes
  obtain ⟨node, ht, hrest⟩ := Option.bind_eq_some_iff.mp hrest
  obtain ⟨j, hi, hrest⟩ := Option.bind_eq_some_iff.mp hrest
  cases hrest
  obtain ⟨c, hc, own, decl, j, node, hstands⟩ := hg.stands (List.mem_of_getElem? hm)
  rw [hg.terms_eq, hstands.term_node] at ht
  rw [hg.interactions_eq, hstands.interaction_node] at hi
  cases ht
  cases hi
  obtain ⟨before, p, after, hfirst⟩ :=
    Energy.exists_failsFirst hnodes (hstands.countable hg.sound) hfail hcode
  have hp : p ∈ before ++ p :: after := List.mem_append_right _ List.mem_cons_self
  have hunbound : ∀ symbol ∈ n.reductions, p.symbols.lookup symbol = none := fun symbol hsymbol =>
    Energy.lookup_reduction hstands.bound hfirst.points hp hsymbol
  have hown : ∀ formula ∈ own.formulas, ∀ symbol ∈ formula.body.reductionSymbols,
      p.symbols.lookup symbol = none := fun formula hformula symbol hsymbol =>
    hunbound symbol (hstands.reductionSymbols hformula hsymbol)
  refine ⟨before, p, after, hfirst, Energy.bindings_of_allPoints hfirst.points,
    Energy.tellsOf_termValue hfirst.fails hcode, hunbound, c, hc, own, hstands.term, hstands.id_eq,
    hg.sound.term_id hstands, hown, fun hd formula hformula symbol hsymbol => ?_⟩
  rw [hg.sound.node_eq hd hc hstands] at hformula
  obtain ⟨-, formula, hdeclared, rfl⟩ := mem_formulas_of_evaluated hformula
  exact hown formula hdeclared symbol (Expr.reductionSymbols_replace.mp hsymbol)

/-- The sample with the sum of `1 / (x[i] - j)` over `j` in place of `x[i]`. -/
def poles : Document :=
  let gap : Expr := .binary .sub (.ref "x" [.symbol "i" ⟨13, 14⟩] ⟨11, 15⟩) (.ref "j" [] ⟨18, 19⟩)
    ⟨11, 19⟩
  let quotient : Expr := .binary .div (.literal (.int 1) ⟨6, 7⟩) gap ⟨6, 20⟩
  { sample with
    interactions := [⟨"all", .allIndices, some ["i", "j"],
      [("range", .list [.int 0, .int 2])], false⟩]
    terms := [⟨"cell", .analytic, .unspecified, some ⟨"sum_j(1 / (x[i] - j))",
      .reduction .sum "j" quotient ⟨0, 21⟩, .unspecified⟩, none, [], [], false⟩] }

/-- The code of a failure, and the index that it tells. -/
def toldIndex {β : Type} : Except Failure β → Option (String × Option String)
  | .error (.diagnostic f) => some (f.code, (f.context.get? "index").map Value.shown)
  | _ => none

/-- The second of three values is one, so that it fails for `j` equal to one. The index tells of
`i` only. -/
theorem failure_names_instance_poles : ∃ (e : Energy.Evaluation Float) (n : ComponentNode)
    (t : TermNode) (i : Interaction) (f : Diagnostic) (before : List Energy.Point)
    (p : Energy.Point) (after : List Energy.Point),
    build poles alone = .ok e.graph ∧ Energy.nodesAt e.graph 0 = some (n, t, i) ∧
      Energy.componentAt e 0 = .error (.diagnostic f) ∧ f.code = Energy.domainCode ∧
      Energy.FailsFirstAt e n t i f before p after ∧ p.symbols.shown = "\x7b'i': 1\x7d" ∧
      p.symbols.lookup "j" = none := by
  let arrays : Arrays Float := [("x", ⟨[3], #[5.0, 1.0, 0.0], rfl⟩)]
  have htold : (build poles alone).toOption.map (fun g =>
      (toldIndex (Energy.componentAt ⟨g, arrays, none, 0⟩ 0),
        (Energy.nodesAt g 0).map (·.1.reductions))) =
        some (some ("DomainError", some "\x7b'i': 1\x7d"), some ["j"]) := by
    decide +kernel
  rcases hg : build poles alone with _ | g
  · rw [hg] at htold
    cases htold
  · rw [hg] at htold
    obtain ⟨hfail, hreductions⟩ := Prod.mk.inj (Option.some.inj htold)
    rcases hnodes : Energy.nodesAt g 0 with _ | ⟨n, t, i⟩
    · rw [hnodes] at hreductions
      cases hreductions
    · rw [hnodes] at hreductions
      rcases hcomponent : Energy.componentAt ⟨g, arrays, none, 0⟩ 0 with (f | _ | _) | _
      all_goals rw [hcomponent] at hfail
      · obtain ⟨hcode, hindex⟩ := Prod.mk.inj (Option.some.inj hfail)
        obtain ⟨before, p, after, hfirst, -, htells, hunbound, -⟩ :=
          failure_names_instance (e := ⟨g, arrays, none, 0⟩) hg hnodes hcomponent (Or.inl hcode)
        rw [htells.index] at hindex
        have hj : n.reductions = ["j"] := Option.some.inj hreductions
        exact ⟨⟨g, arrays, none, 0⟩, n, t, i, f, before, p, after, rfl, hnodes, hcomponent, hcode,
          hfirst, Option.some.inj hindex, hunbound "j" (hj ▸ List.mem_singleton.mpr rfl)⟩
      all_goals cases hfail

end Graph

end EnergyGraph
