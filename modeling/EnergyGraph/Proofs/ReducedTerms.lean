-- A term under one more reduction. The reduction takes a free symbol of the term away: the
-- scan of the names meets it inside of the reduction and not as a free symbol any more, all
-- other names keep their roles, and the term is bound to the same interaction.
import EnergyGraph.Proofs.Progress

namespace EnergyGraph

/-! ## Names -/

namespace Expr

variable {fold : Fold} {symbol other : String} {body left right operand : Expr} {span : Span}
  {function : Builtin} {args : List Expr} {op : Operator}

theorem mem_reductionSymbols_reduction :
    symbol ∈ (reduction fold other body span).reductionSymbols ↔
      symbol = other ∨ symbol ∈ body.reductionSymbols := by
  simp only [mem_reductionSymbols, walk_reduction, List.mem_cons]
  constructor
  · rintro ⟨f, b, sp, h | h⟩
    · cases h
      exact Or.inl rfl
    · exact Or.inr ⟨f, b, sp, h⟩
  · rintro (rfl | ⟨f, b, sp, h⟩)
    · exact ⟨fold, body, span, Or.inl rfl⟩
    · exact ⟨f, b, sp, Or.inr h⟩

theorem mem_reductionSymbols_call : symbol ∈ (call function args span).reductionSymbols ↔
    ∃ a ∈ args, symbol ∈ a.reductionSymbols := by
  simp only [mem_reductionSymbols, walk_call, List.mem_cons, List.mem_flatMap, reduceCtorEq,
    false_or, Part.expr.injEq]
  grind

theorem mem_reductionSymbols_binary : symbol ∈ (binary op left right span).reductionSymbols ↔
    symbol ∈ left.reductionSymbols ∨ symbol ∈ right.reductionSymbols := by
  simp only [mem_reductionSymbols, walk_binary, List.mem_cons, List.mem_append, reduceCtorEq,
    false_or, Part.expr.injEq, exists_or]

theorem mem_reductionSymbols_negate :
    symbol ∈ (negate operand span).reductionSymbols ↔ symbol ∈ operand.reductionSymbols := by
  simp only [mem_reductionSymbols, walk_negate, List.mem_cons, reduceCtorEq, false_or,
    Part.expr.injEq]

end Expr

namespace Usage

/-- A usage after a symbol that was free has become that of a reduction around everything. -/
def reduce (symbol : String) (u : Usage) : Usage :=
  { u with free := u.free.filter (· ≠ symbol), reductions := symbol :: u.reductions }

variable {symbol name : String} {bound scope inner : List String} {u : Usage}

theorem reduce_addFree_self : (u.addFree symbol).reduce symbol = u.reduce symbol := by
  unfold reduce addFree Expr.insertLast
  split
  · rfl
  · simp

theorem reduce_addFree_ne (h : name ≠ symbol) :
    (u.addFree name).reduce symbol = (u.reduce symbol).addFree name := by
  unfold reduce addFree Expr.insertLast
  dsimp only
  have hmem : name ∈ u.free.filter (· ≠ symbol) ↔ name ∈ u.free := by simp [h]
  by_cases hname : name ∈ u.free
  · rw [if_pos hname, if_pos (hmem.mpr hname)]
  · rw [if_neg hname, if_neg (fun h' => hname (hmem.mp h')), List.filter_append]
    simp [h]

theorem reduce_addReduction (h : name ≠ symbol) :
    (u.addReduction name).reduce symbol = (u.reduce symbol).addReduction name := by
  unfold reduce addReduction Expr.insertLast
  dsimp only
  have hmem : name ∈ symbol :: u.reductions ↔ name ∈ u.reductions := by simp [h]
  by_cases hname : name ∈ u.reductions
  · rw [if_pos hname, if_pos (hmem.mpr hname)]
  · rw [if_neg hname, if_neg (fun h' => hname (hmem.mp h')), List.cons_append]

theorem reduce_addArray (count : Nat) :
    (u.addArray name count).reduce symbol = (u.reduce symbol).addArray name count := by
  unfold addArray
  change reduce symbol (if (u.arrays.lookup name).isSome then _ else _) =
    if (u.arrays.lookup name).isSome then _ else _
  split <;> rfl

section

variable (hinner : ∀ x, x ∈ inner ↔ x = symbol ∨ x ∈ scope)

include hinner

theorem reduce_addIndex (i : Index) :
    (u.addIndex scope i).reduce symbol = (u.reduce symbol).addIndex inner i := by
  cases i with
  | literal n span => rfl
  | symbol name span =>
    unfold addIndex
    dsimp only
    by_cases hname : name = symbol
    · rw [if_pos ((hinner name).mpr (Or.inl hname)), hname]
      split
      · rfl
      · exact reduce_addFree_self
    · have hmem : name ∈ inner ↔ name ∈ scope := (hinner name).trans (or_iff_right hname)
      by_cases hscope : name ∈ scope
      · rw [if_pos hscope, if_pos (hmem.mpr hscope)]
      · rw [if_neg hscope, if_neg (fun h => hscope (hmem.mp h)), reduce_addFree_ne hname]

theorem reduce_addIndices (indices : List Index) (u : Usage) :
    (indices.foldl (addIndex scope) u).reduce symbol =
      indices.foldl (addIndex inner) (u.reduce symbol) := by
  induction indices generalizing u with
  | nil => rfl
  | cons i rest ih => rw [List.foldl_cons, List.foldl_cons, ih, reduce_addIndex hinner]

theorem reduce_addName (hsymbol : symbol ∈ bound) :
    (u.addName scope bound name).reduce symbol = (u.reduce symbol).addName inner bound name := by
  unfold addName
  by_cases hname : name = symbol
  · rw [if_pos ((hinner name).mpr (Or.inl hname)), hname, if_pos hsymbol]
    split
    · rfl
    · exact reduce_addFree_self
  · have hmem : name ∈ inner ↔ name ∈ scope := (hinner name).trans (or_iff_right hname)
    by_cases hscope : name ∈ scope
    · rw [if_pos hscope, if_pos (hmem.mpr hscope)]
    · rw [if_neg hscope, if_neg (fun h => hscope (hmem.mp h))]
      split
      · exact reduce_addFree_ne hname
      · rfl

end

/-- Under a reduction around it, an expression uses the same names; only the symbol of the
reduction is not free. -/
theorem scan_reduce (hsymbol : symbol ∈ bound) {e : Expr} (he : symbol ∉ e.reductionSymbols)
    (hinner : ∀ x, x ∈ inner ↔ x = symbol ∨ x ∈ scope) (u : Usage) :
    scan bound inner (u.reduce symbol) e = (scan bound scope u e).reduce symbol := by
  induction e generalizing scope inner u with
  | literal value span => rfl
  | ref name indices span =>
    cases indices with
    | nil => rw [scan, scan, reduce_addName hinner hsymbol]
    | cons first rest =>
      rw [scan, scan, reduce_addIndices hinner, reduce_addArray]
      all_goals exact List.cons_ne_nil first rest
  | reduction fold other body span ih =>
    rw [Expr.mem_reductionSymbols_reduction, not_or] at he
    have hother : ∀ x, x ∈ other :: inner ↔ x = symbol ∨ x ∈ other :: scope := by
      intro x
      rw [List.mem_cons, List.mem_cons, hinner]
      exact or_left_comm
    rw [scan, scan, ← reduce_addReduction (Ne.symm he.1), ih he.2 hother]
  | call function args span ih =>
    rw [scan, scan, scanAll_eq_foldl, scanAll_eq_foldl]
    rw [Expr.mem_reductionSymbols_call] at he
    induction args generalizing u with
    | nil => rfl
    | cons a rest ihrest =>
      have hfirst : symbol ∉ a.reductionSymbols := fun h => he ⟨a, List.mem_cons_self, h⟩
      have hrest : ¬∃ b ∈ rest, symbol ∈ b.reductionSymbols := by
        rintro ⟨b, hb, h⟩
        exact he ⟨b, List.mem_cons_of_mem a hb, h⟩
      rw [List.foldl_cons, List.foldl_cons, ih a List.mem_cons_self hfirst hinner]
      exact ihrest (fun b hb => ih b (List.mem_cons_of_mem a hb)) hrest _
  | binary op left right span ihl ihr =>
    rw [Expr.mem_reductionSymbols_binary, not_or] at he
    rw [scan, scan, ihl he.1 hinner, ihr he.2 hinner]
  | negate operand span ih =>
    rw [Expr.mem_reductionSymbols_negate] at he
    rw [scan, scan, ih he hinner]

theorem ofExprs_reduction (hsymbol : symbol ∈ bound) {e : Expr} (he : symbol ∉ e.reductionSymbols)
    (fold : Fold) (span : Span) :
    ofExprs [.reduction fold symbol e span] bound = (ofExprs [e] bound).reduce symbol := by
  have hinner : ∀ x, x ∈ [symbol] ↔ x = symbol ∨ x ∈ ([] : List String) := by simp
  exact scan_reduce hsymbol he hinner empty

/-! ### Each name once -/

theorem nodup_addFree (h : u.free.Nodup) : (u.addFree name).free.Nodup := by
  unfold addFree Expr.insertLast
  dsimp only
  split
  · exact h
  · rename_i hname
    exact List.nodup_append.mpr ⟨h, List.nodup_singleton name, by grind⟩

theorem nodup_addIndices (indices : List Index) (h : u.free.Nodup) :
    (indices.foldl (addIndex scope) u).free.Nodup := by
  induction indices generalizing u with
  | nil => exact h
  | cons i rest ih =>
    refine ih ?_
    cases i with
    | literal n span => exact h
    | symbol name span =>
      unfold addIndex
      dsimp only
      split
      · exact h
      · exact nodup_addFree h

theorem nodup_addName (h : u.free.Nodup) : (u.addName scope bound name).free.Nodup := by
  unfold addName
  split
  · exact h
  · split
    · exact nodup_addFree h
    · exact h

theorem nodup_scan (e : Expr) (h : u.free.Nodup) : (scan bound scope u e).free.Nodup := by
  induction e generalizing scope u with
  | literal value span => exact h
  | ref name indices span =>
    cases indices with
    | nil =>
      rw [scan]
      exact nodup_addName h
    | cons first rest =>
      refine nodup_addIndices (first :: rest) ?_
      unfold addArray
      split <;> exact h
  | reduction fold other body span ih => exact ih h
  | call function args span ih =>
    rw [scan, scanAll_eq_foldl]
    clear span
    induction args generalizing u with
    | nil => exact h
    | cons a rest ihrest =>
      exact ihrest (fun b hb => ih b (List.mem_cons_of_mem a hb)) (ih a List.mem_cons_self h)
  | binary op left right span ihl ihr => exact ihr (ihl h)
  | negate operand span ih => exact ih h

/-- A reduction over a free symbol leaves the number of symbols as it is. -/
theorem length_reduce (h : u.free.Nodup) (hsymbol : symbol ∈ u.free) :
    (u.reduce symbol).free.length + (u.reduce symbol).reductions.length =
      u.free.length + u.reductions.length := by
  have hfilter : u.free.filter (· ≠ symbol) = u.free.erase symbol := by
    rw [h.erase_eq_filter]
    exact List.filter_congr fun x _ => Bool.eq_iff_iff.mpr (by simp)
  have hlength := List.length_erase_add_one hsymbol
  change (u.free.filter (· ≠ symbol)).length + (u.reductions.length + 1) = _
  rw [hfilter]
  omega

end Usage

/-! ## Binding -/

namespace Binding

variable {symbol : String} {u : Usage} {i : Interaction} {bound : List String}

theorem checkFree_eq_ok : checkFree u bound = .ok () ↔ ∀ x ∈ u.free, x ∈ bound := by
  unfold checkFree
  cases hfind : u.free.find? (· ∉ bound) with
  | none => simpa using hfind
  | some s =>
    refine iff_of_false nofun fun h => ?_
    have hs := List.find?_some hfind
    exact (of_decide_eq_true hs) (h s (List.mem_of_find?_eq_some hfind))

theorem checkUnused_eq_ok :
    checkUnused u bound = .ok () ↔ ∀ x ∈ bound, x ∈ u.free ∨ x ∈ u.reductions := by
  have hnone : (bound.filter fun s => s ∉ u.free ∧ s ∉ u.reductions) = [] ↔
      ∀ x ∈ bound, x ∈ u.free ∨ x ∈ u.reductions := by
    simp only [List.filter_eq_nil_iff, decide_eq_true_eq, not_and_or, not_not]
  rw [← hnone]
  unfold checkUnused
  cases bound.filter fun s => s ∉ u.free ∧ s ∉ u.reductions with
  | nil => exact iff_of_true rfl rfl
  | cons s rest => exact iff_of_false nofun nofun

theorem checkReduction_ranges (hkind : i.kind = .allIndices) :
    checkReduction u i symbol = .ok () ↔ symbol ∈ i.symbols ∧ symbol ∉ u.free := by
  unfold checkReduction isReducible
  rw [hkind]
  by_cases hmem : symbol ∈ i.symbols
  · by_cases hfree : symbol ∈ u.free
    · simp [hmem, hfree]
    · simp [hmem, hfree]
  · simp [hmem]

/-- When names are bound over ranges. -/
structure Joins (u : Usage) (arity : Arity) (i : Interaction) : Prop where
  free : ∀ x ∈ u.free, x ∈ i.symbols
  reductions : ∀ x ∈ u.reductions, x ∈ i.symbols ∧ x ∉ u.free
  used : ∀ x ∈ i.symbols, x ∈ u.free ∨ x ∈ u.reductions
  arity : checkArity u arity = .ok ()

theorem bind_ranges_eq_ok {exprs : List Expr} {arity : Arity} {compat : List String}
    {aggregator : Option (Aggregator Float)} {b : Binding} (hkind : i.kind = .allIndices) :
    bind exprs arity compat i aggregator = .ok b ↔
      Joins (Usage.ofExprs exprs i.symbols) arity i ∧ aggregator = some b.aggregator ∧
        b.free = i.symbols.filter (· ∈ (Usage.ofExprs exprs i.symbols).free) ∧
        b.reductions = (Usage.ofExprs exprs i.symbols).reductions := by
  have hmembers (u : Usage) : checkMembers u i = .ok () := by
    unfold checkMembers
    rw [hkind]
    rfl
  have hlowRank : checkLowRank compat i aggregator = .ok () := by
    unfold checkLowRank
    rw [hkind]
    rfl
  have haggregator : ∀ a, aggregatorFor i aggregator = .ok a ↔ aggregator = some a := by
    unfold aggregatorFor
    rw [hkind]
    cases aggregator <;> simp
  unfold bind
  dsimp only
  generalize Usage.ofExprs exprs i.symbols = u
  rw [hmembers, hlowRank, ok_bind, ok_bind]
  constructor
  · intro h
    obtain ⟨_, hfree, h⟩ := bind_eq_ok.mp h
    obtain ⟨_, hreductions, h⟩ := bind_eq_ok.mp h
    obtain ⟨_, hused, h⟩ := bind_eq_ok.mp h
    obtain ⟨_, harity, h⟩ := bind_eq_ok.mp h
    obtain ⟨a, ha, h⟩ := bind_eq_ok.mp h
    cases h
    exact ⟨⟨checkFree_eq_ok.mp hfree, fun x hx =>
      (checkReduction_ranges hkind).mp (forM_eq_ok.mp hreductions x hx),
      checkUnused_eq_ok.mp hused, harity⟩, (haggregator a).mp ha, rfl, rfl⟩
  · rintro ⟨⟨hfree, hreductions, hused, harity⟩, ha, hbfree, hbreductions⟩
    have hall : u.reductions.forM (checkReduction u i) = .ok () :=
      forM_eq_ok.mpr fun x hx => (checkReduction_ranges hkind).mpr (hreductions x hx)
    rw [checkFree_eq_ok.mpr hfree, hall, checkUnused_eq_ok.mpr hused, harity,
      (haggregator b.aggregator).mpr ha, ← hbfree, ← hbreductions]
    rfl

theorem Joins.reduce {arity : Arity} (h : Joins u arity i) (hnodup : u.free.Nodup)
    (hsymbol : symbol ∈ u.free) : Joins (u.reduce symbol) arity i := by
  have hmem {x : String} : x ∈ (u.reduce symbol).free ↔ x ∈ u.free ∧ x ≠ symbol := by
    simp [Usage.reduce]
  refine ⟨fun x hx => h.free x (hmem.mp hx).1, fun x hx => ?_, fun x hx => ?_, ?_⟩
  · rcases List.mem_cons.mp hx with rfl | hx
    · exact ⟨h.free x hsymbol, fun hfree => (hmem.mp hfree).2 rfl⟩
    · exact ⟨(h.reductions x hx).1, fun hfree => (h.reductions x hx).2 (hmem.mp hfree).1⟩
  · by_cases heq : x = symbol
    · exact Or.inr (List.mem_cons.mpr (Or.inl heq))
    · exact (h.used x hx).imp (fun hfree => hmem.mpr ⟨hfree, heq⟩) (List.mem_cons_of_mem symbol)
  · have hcount := Usage.length_reduce hnodup hsymbol
    have hsame : checkArity (u.reduce symbol) arity = checkArity u arity := by
      unfold checkArity
      rw [hcount]
    rw [hsame]
    exact h.arity

section

variable {body : Expr} {arity : Arity} {compat : List String}
  {aggregator : Option (Aggregator Float)} {b : Binding} (hkind : i.kind = .allIndices)
  (h : bind [body] arity compat i aggregator = .ok b) (hsymbol : symbol ∈ b.free)

include hkind h hsymbol

/-- A free symbol is bound, and no reduction of the term runs over it. -/
theorem free_of_bind_ranges : symbol ∈ i.symbols ∧ symbol ∉ body.reductionSymbols := by
  obtain ⟨hjoins, -, hfree, -⟩ := (bind_ranges_eq_ok hkind).mp h
  rw [hfree] at hsymbol
  obtain ⟨hbound, hused⟩ := List.mem_filter.mp hsymbol
  refine ⟨hbound, fun hmem => ?_⟩
  have hcovers : Usage.Covers (Usage.ofExprs [body] i.symbols) i.symbols [] body :=
    Usage.covers_ofExprs List.mem_cons_self
  have hreduced := hcovers.reductionSymbols hmem
  exact (hjoins.reductions symbol hreduced).2 (of_decide_eq_true hused)

/-- A term is bound with a reduction over one of its free symbols as it is without; the symbol is
then that of a reduction. -/
theorem bind_reduce (fold : Fold) (span : Span) :
    bind [.reduction fold symbol body span] arity compat i aggregator =
      .ok ⟨b.free.filter (· ≠ symbol), symbol :: b.reductions, b.aggregator⟩ := by
  obtain ⟨hbound, hbody⟩ := free_of_bind_ranges hkind h hsymbol
  obtain ⟨hjoins, haggregator, hfree, hreductions⟩ := (bind_ranges_eq_ok hkind).mp h
  rw [hfree] at hsymbol
  have hused := of_decide_eq_true (List.mem_filter.mp hsymbol).2
  refine (bind_ranges_eq_ok hkind).mpr ?_
  rw [Usage.ofExprs_reduction hbound hbody fold span]
  refine ⟨hjoins.reduce (Usage.nodup_scan body List.nodup_nil) hused, haggregator, ?_, ?_⟩
  · rw [hfree, List.filter_filter]
    refine List.filter_congr fun x _ => Bool.eq_iff_iff.mpr ?_
    simp [Usage.reduce, and_comm]
  · rw [hreductions]
    rfl

end

end Binding

/-! ## Terms -/

/-- A term under a reduction, with the text that this is written as. -/
def TermDecl.reduced (fold : Fold) (symbol source : String) (span : Span) (t : TermDecl) :
    TermDecl :=
  { t with
    expr := t.expr.map fun f =>
      { f with source, body := .reduction fold symbol f.body span } }

namespace TermDecl

variable {t : TermDecl} {f : Formula} {i : Interaction} {aggregator : Option (Aggregator Float)}
  {b : Binding} {symbol : String}

theorem bodies_of_expr (hkind : t.kind = .analytic) (hexpr : t.expr = some f) :
    Graph.bodies t.formulas = [f.body] := by
  unfold formulas
  rw [hkind, hexpr]
  rfl

theorem expr_reduced (hexpr : t.expr = some f) (fold : Fold) (source : String) (span : Span) :
    (t.reduced fold symbol source span).expr =
      some { f with source, body := .reduction fold symbol f.body span } := by
  rw [reduced, hexpr]
  rfl

theorem bodies_reduced (hkind : t.kind = .analytic) (hexpr : t.expr = some f) (fold : Fold)
    (source : String) (span : Span) :
    Graph.bodies (t.reduced fold symbol source span).formulas =
      [.reduction fold symbol f.body span] := by
  have hsame : (t.reduced fold symbol source span).kind = .analytic := hkind
  exact bodies_of_expr hsame (expr_reduced hexpr fold source span)

theorem bindTo_reduced (hkind : t.kind = .analytic) (hexpr : t.expr = some f)
    (hranges : i.kind = .allIndices) (hb : t.bindTo i aggregator = .ok b)
    (hsymbol : symbol ∈ b.free) (fold : Fold) (source : String) (span : Span) :
    (t.reduced fold symbol source span).bindTo i aggregator =
      .ok ⟨b.free.filter (· ≠ symbol), symbol :: b.reductions, b.aggregator⟩ := by
  unfold bindTo at hb ⊢
  rw [bodies_of_expr hkind hexpr] at hb
  rw [bodies_reduced hkind hexpr]
  exact Binding.bind_reduce hranges hb hsymbol fold span

/-- The same names are replaced in a term and under a reduction over one of its symbols. -/
theorem nodeOver_reduced (hkind : t.kind = .analytic) (hexpr : t.expr = some f)
    (hbound : symbol ∈ i.symbols) (hbody : symbol ∉ f.body.reductionSymbols) (numbers : Numbers)
    (fold : Fold) (source : String) (span : Span) :
    ∃ f', ((t.reduced fold symbol source span).nodeOver numbers i).expr = some f' ∧
      f'.body = .reduction fold symbol
        (f.body.replace numbers (Graph.boundOf t i ++ f.body.reductionSymbols)) span := by
  have husage : Graph.boundOf (t.reduced fold symbol source span) i = i.symbols ++
      symbol :: (Usage.ofExprs [f.body] i.symbols).reductions := by
    unfold Graph.boundOf Graph.reductionsOf
    rw [bodies_reduced hkind hexpr, Usage.ofExprs_reduction hbound hbody]
    rfl
  have hown : Graph.boundOf t i = i.symbols ++ (Usage.ofExprs [f.body] i.symbols).reductions := by
    unfold Graph.boundOf Graph.reductionsOf
    rw [bodies_of_expr hkind hexpr]
  have hkept : ∀ x, x ∈ Graph.boundOf (t.reduced fold symbol source span) i ++
      (Expr.reduction fold symbol f.body span).reductionSymbols ↔
        x ∈ Graph.boundOf t i ++ f.body.reductionSymbols := by
    intro x
    rw [husage, hown]
    simp only [List.mem_append, List.mem_cons, Expr.mem_reductionSymbols_reduction]
    by_cases hx : x = symbol
    · simp [hx, hbound]
    · simp [hx]
  refine ⟨_, congrArg (Option.map _) (expr_reduced hexpr fold source span), ?_⟩
  change (Expr.reduction fold symbol f.body span).replace numbers _ = _
  rw [Expr.replace_congr hkept, Expr.replace]

end TermDecl

end EnergyGraph
