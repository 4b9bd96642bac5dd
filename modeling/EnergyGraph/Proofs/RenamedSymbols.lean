-- Other names for index symbols. Symbols share their names with parameters and arrays, and
-- are looked up, collected, kept from replacement and evaluated by their names alone. An
-- injective renaming goes through all of this: what is found under a name before is found
-- under the new name after it, and names that are not bound stay what they are.
import EnergyGraph.Graph.Build
import EnergyGraph.Proofs.Coverage
import EnergyGraph.Proofs.Values

namespace EnergyGraph

/-! ## Expressions with other symbols -/

def Index.rename (σ : String → String) : Index → Index
  | .symbol name span => .symbol (σ name) span
  | .literal n span => .literal n span

namespace Expr

mutual

/-- Names change wherever an index symbol can stand: in index lists, alone, and under a
reduction. The names of arrays that are indexed stay. -/
def rename (σ : String → String) : Expr → Expr
  | .literal value span => .literal value span
  | .ref name [] span => .ref (σ name) [] span
  | .ref name indices span => .ref name (indices.map (·.rename σ)) span
  | .reduction fold symbol body span => .reduction fold (σ symbol) (body.rename σ) span
  | .call function args span => .call function (renameAll σ args) span
  | .binary op left right span => .binary op (left.rename σ) (right.rename σ) span
  | .negate operand span => .negate (operand.rename σ) span

def renameAll (σ : String → String) : List Expr → List Expr
  | [] => []
  | e :: rest => e.rename σ :: renameAll σ rest

end

/-- The name of a part that can be that of an index symbol. -/
def Part.symbolName? : Part → Option String
  | .expr (.ref name [] _) => some name
  | .expr (.reduction _ symbol _ _) => some symbol
  | .index i => i.symbol?
  | _ => none

/-- The names in all places where an index symbol can stand. -/
def symbolNames (e : Expr) : List String := e.walk.filterMap Part.symbolName?

/-- Of the names in an expression at most the bound ones change. -/
def Fixes (σ : String → String) (bound : List String) (e : Expr) : Prop :=
  ∀ name ∈ e.symbolNames, name ∉ bound → σ name = name

end Expr

def Formula.rename (σ : String → String) (f : Formula) : Formula :=
  { f with body := f.body.rename σ }

def Usage.rename (σ : String → String) (u : Usage) : Usage :=
  ⟨u.free.map σ, u.reductions.map σ, u.scalars.map σ, u.arrays⟩

/-! ## Names of expressions -/

namespace Expr

variable {σ τ : String → String} {bound : List String}

section

variable (fold : Fold) (symbol name : String) (body left right operand : Expr) (span : Span)
  (function : Builtin) (args : List Expr) (op : Operator) (first : Index) (rest : List Index)

theorem symbolNames_name : symbolNames (.ref name [] span) = [name] := by
  rw [symbolNames, walk_ref]
  rfl

theorem symbolNames_cell : symbolNames (.ref name (first :: rest) span) =
    (first :: rest).filterMap Index.symbol? := by
  rw [symbolNames, walk_ref, List.filterMap_cons_none rfl, List.filterMap_map]
  rfl

theorem symbolNames_reduction :
    symbolNames (.reduction fold symbol body span) = symbol :: body.symbolNames := by
  rw [symbolNames, walk_reduction]
  rfl

theorem symbolNames_call : symbolNames (.call function args span) = args.flatMap symbolNames := by
  rw [symbolNames, walk_call, List.filterMap_cons_none rfl, List.filterMap_flatMap]
  rfl

theorem symbolNames_binary :
    symbolNames (.binary op left right span) = left.symbolNames ++ right.symbolNames := by
  rw [symbolNames, walk_binary, List.filterMap_cons_none rfl, List.filterMap_append]
  rfl

theorem symbolNames_negate : symbolNames (.negate operand span) = operand.symbolNames := by
  rw [symbolNames, walk_negate, List.filterMap_cons_none rfl]
  rfl

end

theorem renameAll_eq_map (es : List Expr) : renameAll σ es = es.map (rename σ) := by
  induction es with
  | nil => rw [renameAll, List.map_nil]
  | cons e rest ih => rw [renameAll, List.map_cons, ih]

/-- Where an array is indexed, only the symbols in its index list change. -/
theorem rename_cell (name : String) (first : Index) (rest : List Index) (span : Span) :
    (ref name (first :: rest) span).rename σ =
      .ref name ((first :: rest).map (·.rename σ)) span := rfl

theorem rename_index_congr {i : Index} (h : ∀ name, i.symbol? = some name → σ name = τ name) :
    i.rename σ = i.rename τ := by
  cases i with
  | literal n span => rfl
  | symbol name span => rw [Index.rename, Index.rename, h name rfl]

/-- Only the names that occur count. -/
theorem rename_congr {e : Expr} (h : ∀ name ∈ e.symbolNames, σ name = τ name) :
    e.rename σ = e.rename τ := by
  induction e with
  | literal value span => rw [rename, rename]
  | ref name indices span =>
    cases indices with
    | nil => rw [rename, rename, h name (by rw [symbolNames_name]; exact List.mem_cons_self)]
    | cons first rest =>
      rw [rename_cell, rename_cell]
      rw [symbolNames_cell] at h
      congr 1
      exact List.map_congr_left fun i hi => rename_index_congr fun name hname =>
        h name (List.mem_filterMap.mpr ⟨i, hi, hname⟩)
  | reduction fold symbol body span ih =>
    rw [symbolNames_reduction, List.forall_mem_cons] at h
    rw [rename, rename, h.1, ih h.2]
  | call function args span ih =>
    rw [symbolNames_call] at h
    rw [rename, rename, renameAll_eq_map, renameAll_eq_map]
    congr 1
    exact List.map_congr_left fun a ha => ih a ha fun name hname =>
      h name (List.mem_flatMap.mpr ⟨a, ha, hname⟩)
  | binary op left right span ihl ihr =>
    rw [symbolNames_binary, List.forall_mem_append] at h
    rw [rename, rename, ihl h.1, ihr h.2]
  | negate operand span ih =>
    rw [symbolNames_negate] at h
    rw [rename, rename, ih h]

/-- Replacing names adds none. -/
theorem symbolNames_replace {values : Numbers} {kept : List String} (e : Expr) :
    (e.replace values kept).symbolNames ⊆ e.symbolNames := by
  unfold symbolNames
  rw [walk_replace, List.filterMap_map]
  intro name hname
  obtain ⟨p, hp, hname⟩ := List.mem_filterMap.mp hname
  refine List.mem_filterMap.mpr ⟨p, hp, ?_⟩
  have hbecomes : (p.replace values kept).symbolName? = some name := hname
  cases p with
  | index i => exact hbecomes
  | expr e =>
    cases e with
    | ref other indices span =>
      cases indices with
      | nil =>
        rw [Part.replace, replace] at hbecomes
        split at hbecomes
        · cases hbecomes
        · exact hbecomes
      | cons first rest => cases hbecomes
    | reduction fold symbol body span => exact hbecomes
    | literal value span => cases hbecomes
    | call function args span => cases hbecomes
    | binary op left right span => cases hbecomes
    | negate operand span => cases hbecomes

theorem Fixes.replace {e : Expr} (h : Fixes σ bound e) (values : Numbers) (kept : List String) :
    Fixes σ bound (e.replace values kept) :=
  fun name hname => h name (symbolNames_replace e hname)

/-! ## Walks -/

/-- A part with other symbols. -/
def Part.rename (σ : String → String) : Part → Part
  | .expr e => .expr (e.rename σ)
  | .index i => .index (i.rename σ)

theorem walk_rename (e : Expr) : walk (e.rename σ) = (walk e).map (Part.rename σ) := by
  induction e with
  | literal value span => rw [rename, walk_literal, List.map_singleton, Part.rename, rename]
  | ref name indices span =>
    cases indices with
    | nil =>
      rw [rename, walk_ref, walk_ref, List.map_nil, List.map_singleton, Part.rename, rename]
    | cons first rest =>
      rw [rename_cell, walk_ref, walk_ref, List.map_cons (f := Part.rename σ), Part.rename,
        rename_cell, List.map_map, List.map_map]
      rfl
  | reduction fold symbol body span ih =>
    rw [rename, walk_reduction, walk_reduction, List.map_cons, Part.rename, rename, ih]
  | call function args span ih =>
    rw [rename, walk_call, walk_call, List.map_cons, Part.rename, rename, renameAll_eq_map,
      List.flatMap_map, List.map_flatMap, List.flatMap_congr ih]
  | binary op left right span ihl ihr =>
    rw [rename, walk_binary, walk_binary, List.map_cons, Part.rename, rename, ihl, ihr,
      List.map_append]
  | negate operand span ih =>
    rw [rename, walk_negate, walk_negate, List.map_cons, Part.rename, rename, ih]

/-! ## Lists of names -/

/-- What is looked up under a name is found under the new one, if no other name of the table
becomes the same. -/
theorem lookup_rename_of {β : Type} {table : List (String × β)} {name : String}
    (h : ∀ p ∈ table, σ p.1 = σ name → p.1 = name) :
    (table.map fun p => (σ p.1, p.2)).lookup (σ name) = table.lookup name := by
  induction table with
  | nil => rfl
  | cons p rest ih =>
    obtain ⟨hfirst, hrest⟩ := List.forall_mem_cons.mp h
    have hsame : (σ name == σ p.1) = (name == p.1) := by
      rw [Bool.eq_iff_iff, beq_iff_eq, beq_iff_eq]
      exact ⟨fun heq => (hfirst heq.symm).symm, congrArg σ⟩
    rw [List.map_cons, List.lookup_cons, List.lookup_cons, hsame, ih hrest]

section

variable (hσ : Function.Injective σ)

include hσ

theorem insertLast_rename (items : List String) (s : String) :
    insertLast (items.map σ) (σ s) = (insertLast items s).map σ := by
  unfold insertLast
  simp only [List.mem_map_of_injective hσ]
  split <;> simp

theorem firsts_rename (items : List String) : firsts (items.map σ) = (firsts items).map σ := by
  unfold firsts
  suffices hgen : ∀ seen : List String, (items.map σ).foldl insertLast (seen.map σ) =
      (items.foldl insertLast seen).map σ from hgen []
  induction items with
  | nil => exact fun _ => rfl
  | cons s rest ih =>
    intro seen
    rw [List.map_cons, List.foldl_cons, List.foldl_cons, insertLast_rename hσ, ih]

theorem reductionSymbols_rename (e : Expr) :
    (e.rename σ).reductionSymbols = e.reductionSymbols.map σ := by
  unfold reductionSymbols
  rw [walk_rename, List.filterMap_map, ← firsts_rename hσ, List.map_filterMap]
  refine congrArg firsts (List.filterMap_congr fun p _ => ?_)
  cases p with
  | index i => rfl
  | expr e =>
    cases e with
    | ref name indices span => cases indices <;> rfl
    | _ => rfl

/-- What is looked up under a name is found under the new one. -/
theorem lookup_rename {β : Type} (table : List (String × β)) (name : String) :
    (table.map fun p => (σ p.1, p.2)).lookup (σ name) = table.lookup name :=
  lookup_rename_of fun _ _ h => hσ h

/-! ## Replacing -/

/-- Names are replaced as before, if those that are not kept stay. -/
theorem replace_rename {values : Numbers} {kept : List String} {e : Expr} (h : Fixes σ kept e) :
    (e.rename σ).replace values (kept.map σ) = (e.replace values kept).rename σ := by
  unfold Fixes at h
  induction e with
  | literal value span => rfl
  | ref name indices span =>
    cases indices with
    | nil =>
      have hsame : replacement? values (kept.map σ) (σ name) = replacement? values kept name := by
        unfold replacement?
        simp only [List.mem_map_of_injective hσ]
        split
        · rfl
        · rename_i hname
          rw [h name (by rw [symbolNames_name]; exact List.mem_cons_self) hname]
      rw [rename, replace, replace, hsame]
      cases replacement? values kept name with
      | none => rw [rename]
      | some n => rw [rename]
    | cons first rest =>
      rw [replace_indexed, rename_cell]
      rfl
  | reduction fold symbol body span ih =>
    rw [symbolNames_reduction, List.forall_mem_cons] at h
    rw [rename, replace, replace, rename, ih h.2]
  | call function args span ih =>
    rw [symbolNames_call] at h
    rw [rename, replace, replace, rename]
    simp only [renameAll_eq_map, replaceAll_eq_map, List.map_map]
    congr 1
    exact List.map_congr_left fun a ha => ih a ha fun name hname =>
      h name (List.mem_flatMap.mpr ⟨a, ha, hname⟩)
  | binary op left right span ihl ihr =>
    rw [symbolNames_binary, List.forall_mem_append] at h
    rw [rename, replace, replace, rename, ihl h.1, ihr h.2]
  | negate operand span ih =>
    rw [symbolNames_negate] at h
    rw [rename, replace, replace, rename, ih h]

end

end Expr

/-! ## Formulas -/

section

variable {σ : String → String} {kept : List String}

/-- A substitution keeps the new names of what it kept before. -/
theorem Formula.substitute_rename (hσ : Function.Injective σ) {f : Formula}
    (h : f.body.Fixes σ kept) (values : Numbers) :
    (f.rename σ).substitute values (kept.map σ) = (f.substitute values kept).rename σ := by
  have hfixes : f.body.Fixes σ (kept ++ f.body.reductionSymbols) := fun name hname hkept =>
    h name hname fun hmem => hkept (List.mem_append_left _ hmem)
  unfold substitute rename
  dsimp only
  rw [Expr.reductionSymbols_rename hσ, ← List.map_append, Expr.replace_rename hσ hfixes]

end

/-! ## Usage -/

namespace Usage

variable {σ : String → String} {bound scope : List String} {u : Usage}

theorem addArray_rename (u : Usage) (s : String) (count : Nat) :
    (u.rename σ).addArray s count = (u.addArray s count).rename σ := by
  unfold addArray
  split <;> simp_all [rename]

section

variable (hσ : Function.Injective σ)

include hσ

theorem addFree_rename (u : Usage) (s : String) :
    (u.rename σ).addFree (σ s) = (u.addFree s).rename σ := by
  unfold addFree rename
  rw [Expr.insertLast_rename hσ]

theorem addReduction_rename (u : Usage) (s : String) :
    (u.rename σ).addReduction (σ s) = (u.addReduction s).rename σ := by
  unfold addReduction rename
  rw [Expr.insertLast_rename hσ]

theorem addScalar_rename (u : Usage) (s : String) :
    (u.rename σ).addScalar (σ s) = (u.addScalar s).rename σ := by
  unfold addScalar rename
  rw [Expr.insertLast_rename hσ]

theorem addIndex_rename (u : Usage) (i : Index) :
    addIndex (scope.map σ) (u.rename σ) (i.rename σ) = (u.addIndex scope i).rename σ := by
  cases i with
  | literal n span => rfl
  | symbol name span =>
    unfold addIndex Index.rename
    simp only [List.mem_map_of_injective hσ, addFree_rename hσ]
    split <;> rfl

theorem addName_rename (u : Usage) (name : String) :
    (u.rename σ).addName (scope.map σ) (bound.map σ) (σ name) =
      (u.addName scope bound name).rename σ := by
  unfold addName
  simp only [List.mem_map_of_injective hσ, addFree_rename hσ, addScalar_rename hσ]
  split
  · rfl
  · split <;> rfl

theorem foldl_addIndex_rename (indices : List Index) (u : Usage) :
    (indices.map (·.rename σ)).foldl (addIndex (scope.map σ)) (u.rename σ) =
      (indices.foldl (addIndex scope) u).rename σ := by
  induction indices generalizing u with
  | nil => rfl
  | cons i rest ih => rw [List.map_cons, List.foldl_cons, List.foldl_cons, addIndex_rename hσ, ih]

theorem scan_rename (e : Expr) (scope : List String) (u : Usage) :
    scan (bound.map σ) (scope.map σ) (u.rename σ) (e.rename σ) =
      (scan bound scope u e).rename σ := by
  induction e generalizing scope u with
  | literal value span => rw [Expr.rename, scan, scan]
  | ref name indices span =>
    cases indices with
    | nil => rw [Expr.rename, scan, scan, addName_rename hσ]
    | cons first rest =>
      rw [Expr.rename_cell]
      change ((first :: rest).map (·.rename σ)).foldl (addIndex (scope.map σ))
        ((u.rename σ).addArray name _) = _
      rw [List.length_map, addArray_rename, foldl_addIndex_rename hσ]
      rfl
  | reduction fold symbol body span ih =>
    rw [Expr.rename, scan, scan, addReduction_rename hσ, ← List.map_cons, ih]
  | call function args span ih =>
    rw [Expr.rename, scan, scan, scanAll_eq_foldl, scanAll_eq_foldl, Expr.renameAll_eq_map]
    clear span
    induction args generalizing u with
    | nil => rfl
    | cons e rest ihr =>
      rw [List.map_cons, List.foldl_cons, List.foldl_cons, ih e List.mem_cons_self]
      exact ihr (fun e he => ih e (List.mem_cons_of_mem _ he)) _
  | binary op left right span ihl ihr => rw [Expr.rename, scan, scan, ihl, ihr]
  | negate operand span ih => rw [Expr.rename, scan, scan, ih]

/-- The roles of names go with the names. -/
theorem ofExprs_rename (exprs : List Expr) (bound : List String) :
    ofExprs (exprs.map (·.rename σ)) (bound.map σ) = (ofExprs exprs bound).rename σ := by
  unfold ofExprs
  rw [scanAll_eq_foldl, scanAll_eq_foldl]
  suffices hgen : ∀ u : Usage, (exprs.map (·.rename σ)).foldl (scan (bound.map σ) []) (u.rename σ) =
      (exprs.foldl (scan bound []) u).rename σ from hgen empty
  induction exprs with
  | nil => exact fun _ => rfl
  | cons e rest ih =>
    intro u
    have hscan : scan (bound.map σ) [] (u.rename σ) (e.rename σ) = (scan bound [] u e).rename σ :=
      scan_rename hσ e [] u
    rw [List.map_cons, List.foldl_cons, List.foldl_cons, hscan, ih]

end

/-- Replacing names leaves all of them covered. -/
theorem Covers.replace {e : Expr} (h : Covers u bound scope e) (values : Numbers)
    (kept : List String) : Covers u bound scope (e.replace values kept) := by
  induction h with
  | literal => exact .literal
  | @name scope name span h =>
    rw [Expr.replace]
    split
    · exact .literal
    · exact .name h
  | cell h hindices => exact .cell h hindices
  | reduction h _ ih => exact .reduction h ih
  | call _ ih =>
    rw [Expr.replace, Expr.replaceAll_eq_map]
    refine .call fun a ha => ?_
    obtain ⟨e, he, rfl⟩ := List.mem_map.mp ha
    exact ih e he
  | binary _ _ ihl ihr => exact .binary ihl ihr
  | negate _ ih => exact .negate ih

end Usage

/-! ## Values -/

section

variable {α : Type} {σ : String → String}

def Symbols.rename (σ : String → String) (s : Symbols) : Symbols := s.map fun p => (σ p.1, p.2)

def EvalContext.rename (σ : String → String) (c : EvalContext α) : EvalContext α :=
  { c with domains := c.domains.map fun p => (σ p.1, p.2) }

def LookupViolation.rename (σ : String → String) : LookupViolation → LookupViolation
  | .unboundSymbol name => .unboundSymbol (σ name)
  | .noDomain symbol => .noDomain (σ symbol)
  | v => v

/-- The same failure, told of the new names. -/
def EvalFailure.rename (σ : String → String) : EvalFailure α → EvalFailure α
  | .lookup v => .lookup (v.rename σ)
  | f => f

theorem LookupViolation.code_rename (v : LookupViolation) : (v.rename σ).code = v.code := by
  cases v <;> rfl

theorem Symbols.set_rename (hσ : Function.Injective σ) (s : Symbols) (name : String) (k : Int) :
    (s.rename σ).set (σ name) k = (s.set name k).rename σ := by
  induction s with
  | nil => rfl
  | cons p rest ih =>
    unfold Symbols.rename at ih ⊢
    have hsame : (σ p.1 == σ name) = (p.1 == name) := by
      rw [Bool.eq_iff_iff, beq_iff_eq, beq_iff_eq, hσ.eq_iff]
    rw [List.map_cons, set, set, hsame]
    split
    · rfl
    · rw [ih]
      rfl

namespace Expr

theorem rename_of_not_lookup {f : EvalFailure α} (h : f.isLookup = false) : f.rename σ = f := by
  cases f with
  | lookup v => cases h
  | domain v => rfl
  | refusal r => rfl

theorem indexValue_rename (hσ : Function.Injective σ) (s : Symbols) (i : Index) :
    (indexValue (s.rename σ) (i.rename σ) : Except (EvalFailure α) Int) =
      (indexValue s i).mapError (EvalFailure.rename σ) := by
  cases i with
  | literal n span => rfl
  | symbol name span =>
    unfold indexValue Index.rename Symbols.rename
    dsimp only
    rw [lookup_rename hσ]
    cases s.lookup name <;> rfl

theorem cellAt_rename (name : String) (array : Tensor α) (keys : List Int) (base : Int) :
    (cellAt name array keys base).mapError (EvalFailure.rename σ) =
      cellAt name array keys base := by
  unfold cellAt
  dsimp only
  split
  · rfl
  · split
    · rfl
    · split <;> rfl

theorem cellNamed_rename (hσ : Function.Injective σ) (c : EvalContext α) (s : Symbols)
    (name : String) (indices : List Index) :
    cellNamed (c.rename σ) (s.rename σ) name (indices.map (·.rename σ)) =
      (cellNamed c s name indices).mapError (EvalFailure.rename σ) := by
  have hkeys : (indices.map (·.rename σ)).mapM (indexValue (α := α) (s.rename σ)) =
      (indices.mapM (indexValue s)).mapError (EvalFailure.rename σ) :=
    mapM_mapError_id fun i _ => indexValue_rename hσ s i
  have harrays : (c.rename σ).arrays = c.arrays := rfl
  unfold cellNamed
  rw [harrays]
  cases c.arrays.lookup name with
  | none => rfl
  | some array =>
    dsimp only
    rw [hkeys]
    exact mapError_bind fun keys => (cellAt_rename name array keys c.base).symm

/-- A name stands for the same under its new name, if it has a value as a symbol or stays. -/
theorem scalarNamed_rename [Scalar α] (hσ : Function.Injective σ) (c : EvalContext α) {s : Symbols}
    {name : String} (h : (∃ k, s.lookup name = some k) ∨ σ name = name) :
    scalarNamed (c.rename σ) (s.rename σ) (σ name) =
      (scalarNamed c s name).mapError (EvalFailure.rename σ) := by
  have harrays : (c.rename σ).arrays = c.arrays := rfl
  unfold scalarNamed Symbols.rename
  rw [lookup_rename hσ, harrays]
  rcases h with ⟨k, hk⟩ | hname
  · rw [hk]
    dsimp only
    cases (Scalar.ofInt? k : Option α) <;> rfl
  · rw [hname]
    cases s.lookup name with
    | some k =>
      dsimp only
      cases (Scalar.ofInt? k : Option α) <;> rfl
    | none =>
      dsimp only
      cases c.arrays.lookup name with
      | none => rfl
      | some array =>
        dsimp only
        cases array.only? <;> rfl

/-- Each of these names has a value as a symbol. -/
def Valued (names : List String) (s : Symbols) : Prop :=
  ∀ name ∈ names, ∃ k, s.lookup name = some k

theorem Valued.set {names : List String} {s : Symbols} (h : Valued names s) (symbol : String)
    (k : Int) : Valued (symbol :: names) (s.set symbol k) := by
  intro name hname
  by_cases hsame : name = symbol
  · exact ⟨k, hsame ▸ Symbols.lookup_set_self⟩
  · rw [Symbols.lookup_set_ne hsame]
    exact h name ((List.mem_cons.mp hname).resolve_left hsame)

/-- The value of an expression is what it was when the symbols, the tables and the domains have
other names, if all that can stand for a symbol has a value. -/
theorem valueAt_rename [Scalar α] (hσ : Function.Injective σ) {u : Usage}
    {bound scope : List String} {c : EvalContext α} {e : Expr} {s : Symbols}
    (h : Usage.Covers u bound scope e) (hfixes : e.Fixes σ bound)
    (hs : Valued (scope ++ u.free) s) :
    (e.rename σ).valueAt (c.rename σ) (s.rename σ) =
      (e.valueAt c s).mapError (EvalFailure.rename σ) := by
  unfold Fixes at hfixes
  induction h generalizing s with
  | @literal scope value span =>
    rw [rename, valueAt_literal, valueAt_literal]
    cases (Scalar.ofNumber? value : Option α) <;> rfl
  | @name scope name span h =>
    rw [rename, valueAt_name, valueAt_name]
    apply scalarNamed_rename hσ
    rcases h with h | h | ⟨hbound, -⟩
    · exact .inl (hs name (List.mem_append_left _ h))
    · exact .inl (hs name (List.mem_append_right _ h))
    · exact .inr (hfixes name (by rw [symbolNames_name]; exact List.mem_cons_self) hbound)
  | @cell scope name first rest span =>
    rw [rename_cell, List.map_cons, valueAt_cell, valueAt_cell, ← List.map_cons]
    exact cellNamed_rename hσ c s name (first :: rest)
  | @reduction scope fold symbol body span h _ ih =>
    rw [symbolNames_reduction, List.forall_mem_cons] at hfixes
    have hdomains : (c.rename σ).domains.lookup (σ symbol) = c.domains.lookup symbol :=
      lookup_rename hσ c.domains symbol
    rw [rename, valueAt_reduction, valueAt_reduction, hdomains]
    cases c.domains.lookup symbol with
    | none => rfl
    | some domain =>
      have hterms : (domain.map id).mapM (fun k => (body.rename σ).valueAt (c.rename σ)
          ((s.rename σ).set (σ symbol) k)) =
            (domain.mapM fun k => body.valueAt c (s.set symbol k)).mapError
              (EvalFailure.rename σ) := by
        refine mapM_mapError_id fun k _ => ?_
        rw [id_eq, Symbols.set_rename hσ]
        exact ih hfixes.2 (hs.set symbol k)
      rw [List.map_id] at hterms
      dsimp only
      rw [hterms]
      cases domain.mapM fun k => body.valueAt c (s.set symbol k) <;> rfl
  | @call scope function args span _ ih =>
    rw [symbolNames_call] at hfixes
    have hargs : (args.map (rename σ)).mapM (valueAt (c.rename σ) (s.rename σ)) =
        (args.mapM (valueAt c s)).mapError (EvalFailure.rename σ) :=
      mapM_mapError_id fun a ha => ih a ha (fun name hname =>
        hfixes name (List.mem_flatMap.mpr ⟨a, ha, hname⟩)) hs
    rw [rename, renameAll_eq_map, valueAt_call, valueAt_call, hargs]
    apply mapError_bind
    exact fun values => (mapError_of_not_lookup (fun _ => rename_of_not_lookup) fun _ =>
      applyBuiltin_not_lookup).symm
  | @binary scope op left right span _ _ ihl ihr =>
    rw [symbolNames_binary, List.forall_mem_append] at hfixes
    rw [rename, valueAt_binary, valueAt_binary, ihl hfixes.1 hs]
    apply mapError_bind
    intro a
    rw [ihr hfixes.2 hs]
    apply mapError_bind
    exact fun b => (mapError_of_not_lookup (fun _ => rename_of_not_lookup) fun _ =>
      applyOperator_not_lookup).symm
  | @negate scope operand span _ ih =>
    rw [symbolNames_negate] at hfixes
    rw [rename, valueAt_negate, valueAt_negate, ih hfixes hs]
    exact mapError_bind fun _ => rfl

end Expr

end

/-! ## Bounds -/

namespace Bounds

variable {σ : String → String} (hσ : Function.Injective σ)

include hσ

theorem candidates_rename (extents : List (String × Int × Int)) (i : Index) :
    candidates (extents.map fun p => (σ p.1, p.2)) (i.rename σ) = candidates extents i := by
  cases i with
  | literal n span => rfl
  | symbol name span =>
    unfold candidates Index.rename
    dsimp only
    rw [Expr.lookup_rename hσ]

theorem outside?_rename (extents : List (String × Int × Int)) (base : Int) (indices : List Index)
    (shape : Shape) :
    outside? (extents.map fun p => (σ p.1, p.2)) base (indices.map (·.rename σ)) shape =
      outside? extents base indices shape := by
  unfold outside?
  rw [List.zip_map_left, List.zipIdx_map, List.findSome?_map]
  refine congrArg (fun find => List.findSome? find _) (funext ?_)
  rintro ⟨⟨i, d⟩, axis⟩
  simp only [Function.comp_apply, Prod.map_apply, id_eq, candidates_rename hσ]

/-- A reference is within its array or not, whatever its symbols are called. -/
theorem checkReference_rename (interaction : String) (extents : List (String × Int × Int))
    (shapes : List (String × Shape)) (base : Int) (p : Expr.Part) :
    checkReference interaction (extents.map fun p => (σ p.1, p.2)) shapes base (p.rename σ) =
      checkReference interaction extents shapes base p := by
  cases p with
  | index i => rfl
  | expr e =>
    cases e with
    | ref name indices span =>
      cases indices with
      | nil => rfl
      | cons first rest =>
        have houtside := outside?_rename hσ extents base (first :: rest)
        simp only [List.map_cons] at houtside
        simp only [Expr.Part.rename, Expr.rename_cell, List.map_cons, checkReference, houtside,
          List.length_cons, List.length_map]
    | _ => rfl

end Bounds

end EnergyGraph
