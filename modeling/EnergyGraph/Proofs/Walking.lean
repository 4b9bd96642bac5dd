-- The parts of an expression. A walk goes through them on a stack, and comes by each
-- part right before the parts below it; so what a walk finds can be told by the
-- structure of the expression. Replacing names by numbers keeps that structure.
import EnergyGraph.Expr.Formula
import EnergyGraph.Proofs.Steps
import Mathlib.Data.List.Basic

namespace EnergyGraph.Expr

/-! ## Induction -/

/-- Induction where the arguments of a call are parts of it. -/
@[induction_eliminator]
theorem induction_on_parts {motive : Expr → Prop}
    (literal : ∀ value span, motive (.literal value span))
    (ref : ∀ name indices span, motive (.ref name indices span))
    (reduction : ∀ fold symbol body span, motive body → motive (.reduction fold symbol body span))
    (call : ∀ function args span, (∀ e ∈ args, motive e) → motive (.call function args span))
    (binary : ∀ op left right span, motive left → motive right →
      motive (.binary op left right span))
    (negate : ∀ operand span, motive operand → motive (.negate operand span)) (e : Expr) :
    motive e := by
  refine @Expr.rec motive (fun args => ∀ e ∈ args, motive e) literal ref reduction call binary
    negate ?_ ?_ e
  · exact fun _ h => nomatch h
  · intro a rest ha hrest e h
    rcases List.mem_cons.mp h with rfl | h
    · exact ha
    · exact hrest e h

/-! ## Walks -/

theorem walkFrom_append (xs ys : List Part) : walkFrom (xs ++ ys) = walkFrom xs ++ walkFrom ys := by
  induction xs using walkFrom.induct with
  | case1 => rw [walkFrom, List.nil_append, List.nil_append]
  | case2 p stack ih =>
    rw [List.cons_append, walkFrom, walkFrom, List.cons_append, ← ih, List.append_assoc]

theorem walkFrom_exprs (es : List Expr) : walkFrom (es.map .expr) = es.flatMap walk := by
  induction es with
  | nil => rw [List.map_nil, walkFrom, List.flatMap_nil]
  | cons e rest ih =>
    rw [List.map_cons, ← List.singleton_append, walkFrom_append, ih, List.flatMap_cons, walk]

theorem walkFrom_indices (is : List Index) : walkFrom (is.map .index) = is.map .index := by
  induction is with
  | nil => rw [List.map_nil, walkFrom]
  | cons i rest ih => rw [List.map_cons, walkFrom, Part.children, List.nil_append, ih]

/-- An expression comes before the parts below it. -/
theorem walk_eq (e : Expr) : walk e = .expr e :: walkFrom (Part.expr e).children := by
  rw [walk, walkFrom, List.append_nil]

section

variable (fold : Fold) (symbol name : String) (body left right operand : Expr) (span : Span)
  (function : Builtin) (args : List Expr) (op : Operator) (indices : List Index) (value : Number)

theorem walk_literal : walk (.literal value span) = [.expr (.literal value span)] := by
  rw [walk_eq, Part.children, walkFrom]

theorem walk_ref :
    walk (.ref name indices span) = .expr (.ref name indices span) :: indices.map .index := by
  rw [walk_eq, Part.children, walkFrom_indices]

theorem walk_reduction : walk (.reduction fold symbol body span) =
    .expr (.reduction fold symbol body span) :: walk body := by
  rw [walk_eq, Part.children, walk]

theorem walk_call :
    walk (.call function args span) = .expr (.call function args span) :: args.flatMap walk := by
  rw [walk_eq, Part.children, walkFrom_exprs]

theorem walk_binary : walk (.binary op left right span) =
    .expr (.binary op left right span) :: (walk left ++ walk right) := by
  rw [walk_eq, Part.children, walk, walk, ← walkFrom_append, List.singleton_append]

theorem walk_negate :
    walk (.negate operand span) = .expr (.negate operand span) :: walk operand := by
  rw [walk_eq, Part.children, walk]

end

/-! ## What a walk finds -/

theorem mem_insertLast {items : List String} {s t : String} :
    t ∈ insertLast items s ↔ t ∈ items ∨ t = s := by
  unfold insertLast
  by_cases h : s ∈ items
  · rw [if_pos h]
    refine ⟨Or.inl, ?_⟩
    rintro (ht | rfl)
    · exact ht
    · exact h
  · rw [if_neg h, List.mem_append, List.mem_singleton]

theorem mem_firsts {items : List String} {s : String} : s ∈ firsts items ↔ s ∈ items := by
  unfold firsts
  suffices hgen : ∀ seen : List String, s ∈ items.foldl insertLast seen ↔ s ∈ seen ∨ s ∈ items by
    simpa using hgen []
  induction items with
  | nil => simp
  | cons t rest ih =>
    intro seen
    rw [List.foldl_cons, ih, mem_insertLast, List.mem_cons, or_assoc]

variable {e : Expr} {name symbol : String}

theorem mem_names :
    name ∈ e.names ↔ ∃ indices span, Part.expr (.ref name indices span) ∈ e.walk := by
  unfold names
  rw [mem_firsts, List.mem_filterMap]
  constructor
  · rintro ⟨p, hp, h⟩
    split at h
    · cases h
      exact ⟨_, _, hp⟩
    · cases h
  · rintro ⟨indices, span, h⟩
    exact ⟨_, h, rfl⟩

theorem mem_reductionSymbols : symbol ∈ e.reductionSymbols ↔
    ∃ fold body span, Part.expr (.reduction fold symbol body span) ∈ e.walk := by
  unfold reductionSymbols
  rw [mem_firsts, List.mem_filterMap]
  constructor
  · rintro ⟨p, hp, h⟩
    split at h
    · cases h
      exact ⟨_, _, _, hp⟩
    · cases h
  · rintro ⟨fold, body, span, h⟩
    exact ⟨_, h, rfl⟩

theorem mem_indexSymbols : symbol ∈ e.indexSymbols ↔ ∃ name indices span indexSpan,
    Part.expr (.ref name indices span) ∈ e.walk ∧ Index.symbol symbol indexSpan ∈ indices := by
  unfold indexSymbols
  rw [mem_firsts, List.mem_flatMap]
  constructor
  · rintro ⟨p, hp, h⟩
    split at h
    · obtain ⟨i, hi, h⟩ := List.mem_filterMap.mp h
      cases i with
      | symbol s indexSpan =>
        cases h
        exact ⟨_, _, _, _, hp, hi⟩
      | literal n indexSpan => cases h
    · cases h
  · rintro ⟨name, indices, span, indexSpan, hp, hi⟩
    exact ⟨_, hp, List.mem_filterMap.mpr ⟨_, hi, rfl⟩⟩

/-! ## Replacing -/

section

variable {values : Numbers} {kept kept' : List String}

theorem replaceAll_eq_map (es : List Expr) :
    replaceAll values kept es = es.map (replace values kept) := by
  induction es with
  | nil => rw [replaceAll, List.map_nil]
  | cons e rest ih => rw [replaceAll, List.map_cons, ih]

theorem replacement?_congr (h : ∀ name, name ∈ kept ↔ name ∈ kept') (name : String) :
    replacement? values kept name = replacement? values kept' name := by
  unfold replacement?
  by_cases hname : name ∈ kept
  · rw [if_pos hname, if_pos ((h name).mp hname)]
  · rw [if_neg hname, if_neg fun hn => hname ((h name).mpr hn)]

theorem mem_of_replacement? {name : String} {n : Number}
    (h : replacement? values kept name = some n) : (name, n) ∈ values := by
  unfold replacement? at h
  split at h
  · cases h
  · obtain ⟨before, after, hvalues, -⟩ := List.lookup_eq_some_iff.mp h
    rw [hvalues]
    simp

/-- A name stays if it has no number, or is kept. -/
theorem replacement?_eq_none_iff {name : String} :
    replacement? values kept name = none ↔ (name ∈ values.map Prod.fst → name ∈ kept) := by
  unfold replacement?
  by_cases hname : name ∈ kept
  · simp [hname]
  · rw [if_neg hname, lookup_eq_none_iff]
    simp only [hname, imp_false]

/-- Only the set of the kept names counts. -/
theorem replace_congr (h : ∀ name, name ∈ kept ↔ name ∈ kept') (e : Expr) :
    e.replace values kept = e.replace values kept' := by
  induction e with
  | literal value span => rw [replace, replace]
  | ref name indices span =>
    cases indices with
    | nil => rw [replace, replace, replacement?_congr h name]
    | cons i rest => rfl
  | reduction fold symbol body span ih => rw [replace, replace, ih]
  | call function args span ih =>
    rw [replace, replace, replaceAll_eq_map, replaceAll_eq_map, List.map_congr_left ih]
  | binary op left right span ihl ihr => rw [replace, replace, ihl, ihr]
  | negate operand span ih => rw [replace, replace, ih]

/-- The name of an array that is indexed stays. -/
theorem replace_indexed (name : String) (i : Index) (rest : List Index) (span : Span) :
    (ref name (i :: rest) span).replace values kept = .ref name (i :: rest) span := rfl

/-- A part of an expression where names are replaced. -/
def Part.replace (values : Numbers) (kept : List String) : Part → Part
  | .expr e => .expr (e.replace values kept)
  | .index i => .index i

theorem map_replace_indices (is : List Index) :
    (is.map .index).map (Part.replace values kept) = is.map .index := by
  rw [List.map_map]
  rfl

/-- Replacing names changes the parts, but neither adds nor removes any. -/
theorem walk_replace (e : Expr) :
    walk (e.replace values kept) = (walk e).map (Part.replace values kept) := by
  induction e with
  | literal value span => rw [replace, walk_literal, List.map_singleton, Part.replace, replace]
  | ref name indices span =>
    cases indices with
    | nil =>
      rw [walk_ref, List.map_nil, List.map_singleton, Part.replace, replace]
      split
      · rw [walk_literal]
      · rw [walk_ref, List.map_nil]
    | cons i rest =>
      rw [replace_indexed, walk_ref, List.map_cons (f := Part.replace _ _),
        map_replace_indices, Part.replace, replace_indexed]
  | reduction fold symbol body span ih =>
    rw [replace, walk_reduction, walk_reduction, List.map_cons, Part.replace, replace, ih]
  | call function args span ih =>
    rw [replace, walk_call, walk_call, List.map_cons, Part.replace, replace, replaceAll_eq_map,
      List.flatMap_map, List.map_flatMap, List.flatMap_congr ih]
  | binary op left right span ihl ihr =>
    rw [replace, walk_binary, walk_binary, List.map_cons, Part.replace, replace, ihl, ihr,
      List.map_append]
  | negate operand span ih =>
    rw [replace, walk_negate, walk_negate, List.map_cons, Part.replace, replace, ih]

/-- The reductions of an expression stay, and run over the same symbols. -/
theorem reductionSymbols_replace {e : Expr} {symbol : String} :
    symbol ∈ (e.replace values kept).reductionSymbols ↔ symbol ∈ e.reductionSymbols := by
  simp only [mem_reductionSymbols, walk_replace, List.mem_map]
  constructor
  · rintro ⟨fold, body, span, p, hp, h⟩
    cases p with
    | index i => cases h
    | expr e =>
      cases e with
      | reduction fold' symbol' body' span' =>
        cases h
        exact ⟨_, _, _, hp⟩
      | ref name indices span' =>
        cases indices with
        | nil =>
          simp only [Part.replace, replace] at h
          split at h <;> cases h
        | cons i rest => cases h
      | _ => cases h
  · rintro ⟨fold, body, span, h⟩
    exact ⟨fold, body.replace values kept, span, _, h, rfl⟩

/-- A name that still stands alone is not one to be replaced. -/
theorem replacement?_of_mem_walk {e : Expr} {name : String} {span : Span}
    (h : Part.expr (.ref name [] span) ∈ (e.replace values kept).walk) :
    replacement? values kept name = none := by
  rw [walk_replace, List.mem_map] at h
  obtain ⟨p, -, h⟩ := h
  cases p with
  | index i => cases h
  | expr e =>
    cases e with
    | ref name' indices span' =>
      cases indices with
      | nil =>
        simp only [Part.replace, replace] at h
        split at h
        · cases h
        · cases h
          assumption
      | cons i rest => cases h
    | _ => cases h

end

end EnergyGraph.Expr
