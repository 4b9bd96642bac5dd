-- That a scan of a term misses no name. Every name in an expression is a symbol of a
-- reduction around it, or stands in the usage under its role; and where each role is
-- answered, the expression is ready to be evaluated.
import EnergyGraph.Component.Usage
import EnergyGraph.Proofs.Evaluating

namespace EnergyGraph

namespace Usage

/-! ## Growth -/

/-- All names of a usage have the same roles in another one. -/
structure Within (u v : Usage) : Prop where
  free : ∀ name ∈ u.free, name ∈ v.free
  reductions : ∀ name ∈ u.reductions, name ∈ v.reductions
  scalars : ∀ name ∈ u.scalars, name ∈ v.scalars
  arrays : ∀ name ∈ u.arrays.map (·.1), name ∈ v.arrays.map (·.1)

variable {u v w : Usage} {bound scope : List String}

theorem Within.refl (u : Usage) : Within u u :=
  ⟨fun _ h => h, fun _ h => h, fun _ h => h, fun _ h => h⟩

theorem Within.trans (h : Within u v) (h' : Within v w) : Within u w :=
  ⟨fun name hn => h'.free name (h.free name hn),
    fun name hn => h'.reductions name (h.reductions name hn),
    fun name hn => h'.scalars name (h.scalars name hn),
    fun name hn => h'.arrays name (h.arrays name hn)⟩

theorem mem_addFree {s name : String} : name ∈ (u.addFree s).free ↔ name ∈ u.free ∨ name = s :=
  Expr.mem_insertLast

theorem within_addFree (u : Usage) (s : String) : Within u (u.addFree s) :=
  ⟨fun _ h => mem_addFree.mpr (Or.inl h), fun _ h => h, fun _ h => h, fun _ h => h⟩

theorem within_addReduction (u : Usage) (s : String) : Within u (u.addReduction s) :=
  ⟨fun _ h => h, fun _ h => Expr.mem_insertLast.mpr (Or.inl h), fun _ h => h, fun _ h => h⟩

theorem within_addScalar (u : Usage) (s : String) : Within u (u.addScalar s) :=
  ⟨fun _ h => h, fun _ h => h, fun _ h => Expr.mem_insertLast.mpr (Or.inl h), fun _ h => h⟩

theorem mem_addArray (u : Usage) (s : String) (count : Nat) :
    s ∈ (u.addArray s count).arrays.map (·.1) := by
  unfold addArray
  by_cases h : (u.arrays.lookup s).isSome = true
  · rw [if_pos h]
    obtain ⟨n, hn⟩ := Option.isSome_iff_exists.mp h
    obtain ⟨before, after, hsplit, -⟩ := List.lookup_eq_some_iff.mp hn
    rw [hsplit]
    simp
  · rw [if_neg h]
    simp

theorem within_addArray (u : Usage) (s : String) (count : Nat) : Within u (u.addArray s count) := by
  unfold addArray
  split
  · exact .refl u
  · refine ⟨fun _ h => h, fun _ h => h, fun _ h => h, fun name hn => ?_⟩
    rw [List.map_append]
    exact List.mem_append_left _ hn

theorem within_addIndex (scope : List String) (u : Usage) (i : Index) :
    Within u (u.addIndex scope i) := by
  cases i with
  | literal n span => exact .refl u
  | symbol name span =>
    unfold addIndex
    dsimp only
    split
    · exact .refl u
    · exact within_addFree u name

theorem within_addName (u : Usage) (name : String) : Within u (u.addName scope bound name) := by
  unfold addName
  split
  · exact .refl u
  · split
    · exact within_addFree u name
    · exact within_addScalar u name

theorem within_foldl {ι : Type} {f : Usage → ι → Usage} (hf : ∀ u i, Within u (f u i))
    (u : Usage) (is : List ι) : Within u (is.foldl f u) := by
  induction is generalizing u with
  | nil => exact .refl u
  | cons i rest ih => exact (hf u i).trans (ih _)

theorem scanAll_eq_foldl (es : List Expr) (u : Usage) :
    scanAll bound scope u es = es.foldl (scan bound scope) u := by
  induction es generalizing u with
  | nil => rw [scanAll, List.foldl_nil]
  | cons e rest ih => rw [scanAll, ih, List.foldl_cons]

/-- A scan only adds. -/
theorem within_scan (e : Expr) (scope : List String) (u : Usage) :
    Within u (scan bound scope u e) := by
  induction e generalizing scope u with
  | literal value span =>
    rw [scan]
    exact .refl u
  | ref name indices span =>
    cases indices with
    | nil =>
      rw [scan]
      exact within_addName u name
    | cons i rest =>
      exact (within_addArray u name _).trans (within_foldl (within_addIndex scope) _ _)
  | reduction fold symbol body span ih =>
    rw [scan]
    exact (within_addReduction u symbol).trans (ih _ _)
  | call function args span ih =>
    rw [scan, scanAll_eq_foldl]
    clear span
    induction args generalizing u with
    | nil => exact .refl u
    | cons e rest ihr =>
      exact (ih e List.mem_cons_self scope u).trans
        (ihr (fun e he => ih e (List.mem_cons_of_mem _ he)) _)
  | binary op left right span ihl ihr =>
    rw [scan]
    exact (ihl scope u).trans (ihr scope _)
  | negate operand span ih =>
    rw [scan]
    exact ih scope u

/-! ## Coverage -/

/-- Every name in an expression is a symbol of the reductions around it, or has a role. -/
inductive Covers (u : Usage) (bound : List String) : List String → Expr → Prop
  | literal {scope value span} : Covers u bound scope (.literal value span)
  | name {scope name span} (h : name ∈ scope ∨ name ∈ u.free ∨ name ∉ bound ∧ name ∈ u.scalars) :
    Covers u bound scope (.ref name [] span)
  | cell {scope name first rest span} (h : name ∈ u.arrays.map (·.1))
    (hindices : Expr.AllKnown (scope ++ u.free) (first :: rest)) :
    Covers u bound scope (.ref name (first :: rest) span)
  | reduction {scope fold symbol body span} (h : symbol ∈ u.reductions)
    (hbody : Covers u bound (symbol :: scope) body) :
    Covers u bound scope (.reduction fold symbol body span)
  | call {scope function args span} (h : ∀ e ∈ args, Covers u bound scope e) :
    Covers u bound scope (.call function args span)
  | binary {scope op left right span} (hleft : Covers u bound scope left)
    (hright : Covers u bound scope right) : Covers u bound scope (.binary op left right span)
  | negate {scope operand span} (h : Covers u bound scope operand) :
    Covers u bound scope (.negate operand span)

theorem Covers.mono {e : Expr} (h : Covers u bound scope e) (huv : Within u v) :
    Covers v bound scope e := by
  induction h with
  | literal => exact .literal
  | name h =>
    apply Covers.name
    rcases h with h | h | ⟨hbound, h⟩
    · exact Or.inl h
    · exact Or.inr (Or.inl (huv.free _ h))
    · exact Or.inr (Or.inr ⟨hbound, huv.scalars _ h⟩)
  | cell h hindices =>
    refine .cell (huv.arrays _ h) fun name span hmem => ?_
    rcases List.mem_append.mp (hindices name span hmem) with hn | hn
    · exact List.mem_append_left _ hn
    · exact List.mem_append_right _ (huv.free _ hn)
  | reduction h _ ih => exact .reduction (huv.reductions _ h) ih
  | call _ ih => exact .call ih
  | binary _ _ ihl ihr => exact .binary ihl ihr
  | negate _ ih => exact .negate ih

theorem covers_addName (u : Usage) (name : String) (span : Span) :
    Covers (u.addName scope bound name) bound scope (.ref name [] span) := by
  apply Covers.name
  unfold addName
  by_cases hscope : name ∈ scope
  · exact Or.inl hscope
  · rw [if_neg hscope]
    by_cases hbound : name ∈ bound
    · rw [if_pos hbound]
      exact Or.inr (Or.inl (mem_addFree.mpr (Or.inr rfl)))
    · rw [if_neg hbound]
      exact Or.inr (Or.inr ⟨hbound, Expr.mem_insertLast.mpr (Or.inr rfl)⟩)

theorem allKnown_addIndices (indices : List Index) (u : Usage) :
    Expr.AllKnown (scope ++ (indices.foldl (addIndex scope) u).free) indices := by
  induction indices generalizing u with
  | nil => exact fun _ _ h => nomatch h
  | cons i rest ih =>
    intro name span hmem
    rcases List.mem_cons.mp hmem with rfl | hmem
    · by_cases hscope : name ∈ scope
      · exact List.mem_append_left _ hscope
      · refine List.mem_append_right _ ((within_foldl (within_addIndex scope) _ rest).free name ?_)
        unfold addIndex
        dsimp only
        rw [if_neg hscope]
        exact mem_addFree.mpr (Or.inr rfl)
    · exact ih _ name span hmem

/-- What a scan has gone through is covered by what it has found. -/
theorem covers_scan (e : Expr) (scope : List String) (u : Usage) :
    Covers (scan bound scope u e) bound scope e := by
  induction e generalizing scope u with
  | literal value span => exact .literal
  | ref name indices span =>
    cases indices with
    | nil =>
      rw [scan]
      exact covers_addName u name span
    | cons i rest =>
      refine .cell ?_ (allKnown_addIndices (i :: rest) _)
      exact (within_foldl (within_addIndex scope) _ _).arrays name (mem_addArray u name _)
  | reduction fold symbol body span ih =>
    rw [scan]
    refine .reduction ((within_scan body _ _).reductions symbol ?_) (ih _ _)
    exact Expr.mem_insertLast.mpr (Or.inr rfl)
  | call function args span ih =>
    rw [scan, scanAll_eq_foldl]
    apply Covers.call
    induction args generalizing u with
    | nil => exact fun _ h => nomatch h
    | cons e rest ihr =>
      intro a ha
      rcases List.mem_cons.mp ha with rfl | ha
      · exact (ih a List.mem_cons_self scope u).mono
          (within_foldl (fun u e => within_scan e scope u) _ rest)
      · exact ihr (fun e he => ih e (List.mem_cons_of_mem _ he)) _ a ha
  | binary op left right span ihl ihr =>
    rw [scan]
    exact .binary ((ihl scope u).mono (within_scan right scope _)) (ihr scope _)
  | negate operand span ih =>
    rw [scan]
    exact .negate (ih scope u)

/-- All expressions that a usage was made of are covered by it. -/
theorem covers_ofExprs {exprs : List Expr} {e : Expr} (he : e ∈ exprs) :
    Covers (ofExprs exprs bound) bound [] e := by
  unfold ofExprs
  rw [scanAll_eq_foldl]
  generalize empty = u
  induction exprs generalizing u with
  | nil => cases he
  | cons a rest ih =>
    rcases List.mem_cons.mp he with rfl | he
    · exact (covers_scan e [] u).mono (within_foldl (fun u e => within_scan e [] u) _ rest)
    · exact ih he _

/-- The reductions of a covered expression are known. -/
theorem Covers.reductionSymbols {e : Expr} (h : Covers u bound scope e) {symbol : String}
    (hsymbol : symbol ∈ e.reductionSymbols) : symbol ∈ u.reductions := by
  obtain ⟨fold, body, span, hmem⟩ := Expr.mem_reductionSymbols.mp hsymbol
  clear hsymbol
  induction h with
  | literal => simp [Expr.walk_literal] at hmem
  | name => simp [Expr.walk_ref] at hmem
  | cell => simp [Expr.walk_ref] at hmem
  | reduction h _ ih =>
    rw [Expr.walk_reduction] at hmem
    rcases List.mem_cons.mp hmem with heq | hmem
    · cases heq
      exact h
    · exact ih hmem
  | call _ ih =>
    rw [Expr.walk_call] at hmem
    rcases List.mem_cons.mp hmem with heq | hmem
    · cases heq
    · obtain ⟨e, he, hmem⟩ := List.mem_flatMap.mp hmem
      exact ih e he hmem
  | binary _ _ ihl ihr =>
    rw [Expr.walk_binary] at hmem
    rcases List.mem_cons.mp hmem with heq | hmem
    · cases heq
    · rcases List.mem_append.mp hmem with hmem | hmem
      · exact ihl hmem
      · exact ihr hmem
  | negate _ ih =>
    rw [Expr.walk_negate] at hmem
    rcases List.mem_cons.mp hmem with heq | hmem
    · cases heq
    · exact ih hmem

/-! ## From coverage to readiness -/

section

variable {α : Type} {c : EvalContext α} {range : String → Int → Prop} {values : Numbers}
  {kept : List String}

/-- The arrays answer a part: a name that is no symbol has a single cell, and indices stay within
the array that is indexed. -/
def Answers (u : Usage) (bound : List String) (c : EvalContext α) (range : String → Int → Prop) :
    Expr.Part → Prop
  | .expr (.ref name [] _) => name ∉ bound → name ∈ u.scalars →
      ∃ t, c.arrays.lookup name = some t ∧ t.cells.size = 1
  | .expr (.ref name (first :: rest) _) => name ∈ u.arrays.map (·.1) →
      ∃ t, c.arrays.lookup name = some t ∧
        List.Forall₂ (Expr.IndexFits range c.base) (first :: rest) t.shape
  | _ => True

/-- The symbols of reductions have domains. -/
def AllReduced (u : Usage) (domains : List (String × List Int)) (range : String → Int → Prop) :
    Prop :=
  ∀ symbol ∈ u.reductions,
    ∃ domain, domains.lookup symbol = some domain ∧ ∀ k ∈ domain, range symbol k

/-- What is covered by a usage is ready as soon as its parts are answered and its reductions have
domains, with the free symbols of the usage known. -/
theorem Covers.ready {e : Expr} (h : Covers u bound scope e)
    (hreduced : AllReduced u c.domains range)
    (hparts : ∀ p ∈ (e.replace values kept).walk, Answers u bound c range p) :
    Expr.Ready c range (scope ++ u.free) (e.replace values kept) := by
  induction h with
  | literal => exact .literal
  | @name scope name span h =>
    rw [Expr.replace] at hparts ⊢
    split
    · exact .literal
    · rename_i hkept
      simp only [hkept, Expr.walk_ref, List.map_nil, List.forall_mem_singleton] at hparts
      rcases h with h | h | ⟨hbound, h⟩
      · exact .symbol (List.mem_append_left _ h)
      · exact .symbol (List.mem_append_right _ h)
      · obtain ⟨t, ht, hsize⟩ := hparts hbound h
        exact .single ht hsize
  | @cell scope name first rest span harray hindices =>
    rw [Expr.replace_indexed] at hparts ⊢
    rw [Expr.walk_ref] at hparts
    obtain ⟨t, ht, hfits⟩ := hparts _ List.mem_cons_self harray
    exact .cell ht hindices hfits
  | @reduction scope fold symbol body span h _ ih =>
    rw [Expr.replace, Expr.walk_reduction] at hparts
    rw [Expr.replace]
    obtain ⟨domain, hdomain, hrange⟩ := hreduced symbol h
    exact .reduction hdomain hrange (ih fun p hp => hparts p (List.mem_cons_of_mem _ hp))
  | @call scope function args span _ ih =>
    rw [Expr.replace, Expr.replaceAll_eq_map, Expr.walk_call] at hparts
    rw [Expr.replace, Expr.replaceAll_eq_map]
    refine .call fun a ha => ?_
    obtain ⟨e, he, rfl⟩ := List.mem_map.mp ha
    exact ih e he fun p hp =>
      hparts p (List.mem_cons_of_mem _ (List.mem_flatMap.mpr ⟨_, ha, hp⟩))
  | @binary scope op left right span _ _ ihl ihr =>
    rw [Expr.replace, Expr.walk_binary] at hparts
    rw [Expr.replace]
    exact .binary
      (ihl fun p hp => hparts p (List.mem_cons_of_mem _ (List.mem_append_left _ hp)))
      (ihr fun p hp => hparts p (List.mem_cons_of_mem _ (List.mem_append_right _ hp)))
  | @negate scope operand span _ ih =>
    rw [Expr.replace, Expr.walk_negate] at hparts
    rw [Expr.replace]
    exact .negate (ih fun p hp => hparts p (List.mem_cons_of_mem _ hp))

end

end Usage

end EnergyGraph
