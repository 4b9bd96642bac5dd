-- Counting indices from another number. A graph whose indices count from one base is
-- written for another by adding the difference to the index literals, to the ranges, to
-- the tuples and to the groups. The base comes in at every look-up and at every check of
-- the bounds, and goes with what it is compared to, so that nothing else changes.
import EnergyGraph.Component.Bounds
import EnergyGraph.Graph.Basic
import EnergyGraph.Proofs.Values
import EnergyGraph.Proofs.Walking

namespace EnergyGraph

/-! ## Graphs for another base -/

/-- A literal index moves; a symbol stands for what moves by itself. -/
def Index.shift (k : Int) : Index → Index
  | .symbol name span => .symbol name span
  | .literal n span => .literal (n + k) span

namespace Expr

mutual

/-- Every literal in an index list moves. -/
def shift (k : Int) : Expr → Expr
  | .literal value span => .literal value span
  | .ref name indices span => .ref name (indices.map (·.shift k)) span
  | .reduction fold symbol body span => .reduction fold symbol (body.shift k) span
  | .call function args span => .call function (shiftAll k args) span
  | .binary op left right span => .binary op (left.shift k) (right.shift k) span
  | .negate operand span => .negate (operand.shift k) span

def shiftAll (k : Int) : List Expr → List Expr
  | [] => []
  | e :: rest => e.shift k :: shiftAll k rest

end

end Expr

def Formula.shift (k : Int) (f : Formula) : Formula := { f with body := f.body.shift k }

/-- All indices of a list move. -/
def moved (k : Int) (ks : List Int) : List Int := ks.map (· + k)

def Range.shift (k : Int) (r : Range) : Range := ⟨r.low + k, r.high + k⟩

namespace Interaction

/-- The ends of ranges, the tuples and the groups move; the sizes of grids and of matrices are
no indices. -/
def Domain.shift (k : Int) : Domain → Domain
  | .single => .single
  | .ranges bounds => .ranges (bounds.map (·.shift k))
  | .tuples items => .tuples (items.map (moved k))
  | .groups members => .groups (members.map (moved k))
  | .grid shape c => .grid shape c
  | .factor matrix => .factor matrix

def shift (k : Int) (i : Interaction) : Interaction :=
  { i with domain := i.domain.shift k, base := i.base + k }

theorem shift_symbols {k : Int} (i : Interaction) : (i.shift k).symbols = i.symbols := rfl

end Interaction

namespace Graph

def TermNode.shift (k : Int) (t : TermNode) : TermNode :=
  { t with expr := t.expr.map (·.shift k), args := t.args.map (·.shift k) }

def WeightedRef.shift (k : Int) (r : WeightedRef) : WeightedRef :=
  { r with weight := r.weight.shift k }

def HamiltonianNode.shift (k : Int) (h : HamiltonianNode) : HamiltonianNode :=
  { h with components := h.components.map (·.shift k) }

/-- The graph whose indices count from a base that is larger by `k`. -/
def shift (k : Int) (g : Graph) : Graph :=
  { g with
    base := g.base + k
    terms := g.terms.map (·.shift k)
    interactions := g.interactions.map (·.shift k)
    hamiltonians := g.hamiltonians.map (·.shift k)
    ensemble := g.ensemble.map (·.shift k) }

section

variable {k : Int}

theorem TermNode.shift_kind (t : TermNode) : (t.shift k).kind = t.kind := rfl

theorem TermNode.shift_expr (t : TermNode) : (t.shift k).expr = t.expr.map (·.shift k) := rfl

theorem WeightedRef.shift_index (r : WeightedRef) : (r.shift k).index = r.index := rfl

theorem HamiltonianNode.shift_id (h : HamiltonianNode) : (h.shift k).id = h.id := rfl

theorem shift_terms (g : Graph) : (g.shift k).terms = g.terms.map (·.shift k) := rfl

theorem shift_interactions (g : Graph) :
    (g.shift k).interactions = g.interactions.map (·.shift k) := rfl

theorem shift_components (g : Graph) : (g.shift k).components = g.components := rfl

theorem shift_hamiltonians (g : Graph) :
    (g.shift k).hamiltonians = g.hamiltonians.map (·.shift k) := rfl

end

end Graph

/-! ## Walks -/

namespace Expr

variable {k : Int}

theorem shiftAll_eq_map (es : List Expr) : shiftAll k es = es.map (shift k) := by
  induction es with
  | nil => rw [shiftAll, List.map_nil]
  | cons e rest ih => rw [shiftAll, List.map_cons, ih]

def Part.shift (k : Int) : Part → Part
  | .expr e => .expr (e.shift k)
  | .index i => .index (i.shift k)

theorem walk_shift (e : Expr) : walk (e.shift k) = (walk e).map (Part.shift k) := by
  induction e with
  | literal value span => rw [shift, walk_literal, List.map_singleton, Part.shift, shift]
  | ref name indices span =>
    rw [shift, walk_ref, walk_ref, List.map_cons, Part.shift, shift, List.map_map, List.map_map]
    rfl
  | reduction fold symbol body span ih =>
    rw [shift, walk_reduction, walk_reduction, List.map_cons, Part.shift, shift, ih]
  | call function args span ih =>
    rw [shift, walk_call, walk_call, List.map_cons, Part.shift, shift, shiftAll_eq_map,
      List.flatMap_map, List.map_flatMap, List.flatMap_congr ih]
  | binary op left right span ihl ihr =>
    rw [shift, walk_binary, walk_binary, List.map_cons, Part.shift, shift, ihl, ihr,
      List.map_append]
  | negate operand span ih =>
    rw [shift, walk_negate, walk_negate, List.map_cons, Part.shift, shift, ih]

/-- The names outside of index lists stay. -/
theorem names_shift (e : Expr) : (e.shift k).names = e.names := by
  unfold names
  rw [walk_shift, List.filterMap_map]
  congr 1
  apply List.filterMap_congr
  intro p _
  cases p with
  | index i => cases i <;> rfl
  | expr e => cases e <;> rfl

end Expr

theorem Graph.TermNode.formulas_shift (k : Int) (t : TermNode) :
    (t.shift k).formulas = t.formulas.map (·.shift k) := by
  unfold TermNode.formulas
  rw [List.map_append]
  cases h : t.expr <;> simp [TermNode.shift, h]

theorem Graph.referencedArrays_shift (g : Graph) (k : Int) :
    (g.shift k).referencedArrays = g.referencedArrays := by
  have hformulas : (g.shift k).formulas = g.formulas.map (·.shift k) := by
    unfold formulas weights
    simp only [List.map_append, List.map_flatMap, List.map_map, shift, List.flatMap_map,
      TermNode.formulas_shift,      HamiltonianNode.shift]
    rfl
  unfold referencedArrays
  rw [hformulas, List.flatMap_map]
  congr 1
  exact List.flatMap_congr fun f _ => Expr.names_shift f.body

/-! ## Values of expressions -/

/-- Symbols stand for values that have moved. -/
def Symbols.shift (k : Int) (s : Symbols) : Symbols := s.map fun (name, n) => (name, n + k)

/-- Domains of reductions that have moved. -/
def shiftDomains (k : Int) (domains : List (String × List Int)) : List (String × List Int) :=
  domains.map fun (name, ks) => (name, moved k ks)

def EvalContext.shift {α : Type} (k : Int) (c : EvalContext α) : EvalContext α :=
  ⟨c.arrays, c.base + k, shiftDomains k c.domains⟩

theorem EvalContext.shift_arrays {α : Type} {k : Int} (c : EvalContext α) :
    (c.shift k).arrays = c.arrays := rfl

theorem EvalContext.shift_domains {α : Type} {k : Int} (c : EvalContext α) :
    (c.shift k).domains = shiftDomains k c.domains := rfl

def LookupViolation.shift (k : Int) : LookupViolation → LookupViolation
  | .outOfBounds n axis name low high => .outOfBounds (n + k) axis name (low + k) (high + k)
  | v => v

/-- The same failure, told of indices that have moved. -/
def EvalFailure.shift {α : Type} (k : Int) : EvalFailure α → EvalFailure α
  | .lookup v => .lookup (v.shift k)
  | f => f

theorem LookupViolation.code_shift (k : Int) (v : LookupViolation) : (v.shift k).code = v.code := by
  cases v <;> rfl

theorem lookup_map_snd {β γ : Type} (f : β → γ) (l : List (String × β)) (name : String) :
    (l.map fun p => (p.1, f p.2)).lookup name = (l.lookup name).map f := by
  induction l with
  | nil => rfl
  | cons p rest ih =>
    obtain ⟨n, v⟩ := p
    rw [List.map_cons, List.lookup_cons, List.lookup_cons]
    cases name == n with
    | true => rfl
    | false => exact ih

theorem Symbols.lookup_shift (k : Int) (s : Symbols) (name : String) :
    (s.shift k).lookup name = (s.lookup name).map (· + k) :=
  lookup_map_snd (· + k) s name

theorem Symbols.set_shift (k : Int) (s : Symbols) (name : String) (n : Int) :
    (s.shift k).set name (n + k) = (s.set name n).shift k := by
  induction s with
  | nil => rfl
  | cons p rest ih =>
    obtain ⟨m, v⟩ := p
    unfold shift at ih ⊢
    by_cases h : m == name
    · simp [set, h]
    · simp [set, h, ih]

theorem lookup_shiftDomains (k : Int) (domains : List (String × List Int)) (name : String) :
    (shiftDomains k domains).lookup name = (domains.lookup name).map (moved k) :=
  lookup_map_snd (moved k) domains name

namespace Expr

variable {α : Type} {k : Int}

theorem indexValue_shift (s : Symbols) (i : Index) :
    (indexValue (s.shift k) (i.shift k) : Except (EvalFailure α) Int) =
      ((indexValue s i).map (· + k)).mapError (EvalFailure.shift k) := by
  cases i with
  | literal n span => rfl
  | symbol name span =>
    simp only [indexValue, Index.shift, Symbols.lookup_shift]
    cases s.lookup name <;> rfl

/-- The first of some index values that points outside of its axis, with the length of the axis
and its place. -/
def outsideAxis (keys : List Int) (shape : Shape) (base : Int) : Option ((Int × Nat) × Nat) :=
  (keys.zip shape).zipIdx.find? fun ((n, d), _) => n - base < 0 || n - base ≥ (d : Int)

theorem outsideAxis_shift (keys : List Int) (shape : Shape) (base : Int) :
    outsideAxis (moved k keys) shape (base + k) =
      (outsideAxis keys shape base).map fun p => ((p.1.1 + k, p.1.2), p.2) := by
  unfold outsideAxis moved
  rw [List.zip_map_left, List.zipIdx_map, List.find?_map]
  refine congrArg (fun isOutside => Option.map _ (List.find? isOutside _)) (funext ?_)
  rintro ⟨⟨n, d⟩, axis⟩
  have hsub : n + k - (base + k) = n - base := by omega
  simp only [Function.comp_apply, Prod.map_apply, id_eq, hsub]

/-- A cell is where it was: what is looked up has moved with the base. -/
theorem cellAt_shift (name : String) (array : Tensor α) (keys : List Int) (base : Int) :
    cellAt name array (moved k keys) (base + k) =
      (cellAt name array keys base).mapError (EvalFailure.shift k) := by
  have hplaces : (moved k keys).map (fun n => (n - (base + k)).toNat) =
      keys.map fun n => (n - base).toNat := by
    unfold moved
    rw [List.map_map]
    refine List.map_congr_left fun n _ => congrArg Int.toNat ?_
    dsimp only
    omega
  have houtside := outsideAxis_shift (k := k) keys array.shape base
  unfold outsideAxis at houtside
  unfold cellAt
  dsimp only
  rw [houtside, hplaces, show (moved k keys).length = keys.length from List.length_map _]
  by_cases hrank : keys.length ≠ array.rank
  · rw [if_pos hrank, if_pos hrank]
    rfl
  · rw [if_neg hrank, if_neg hrank]
    generalize List.find? _ _ = outside?
    rcases outside? with _ | ⟨⟨n, d⟩, axis⟩
    · cases array.at? (keys.map fun n => (n - base).toNat) <;> rfl
    · have hhigh : base + k + d - 1 = base + d - 1 + k := by omega
      simp only [Option.map_some, Except.mapError, EvalFailure.shift, LookupViolation.shift, hhigh]

theorem cellNamed_shift (c : EvalContext α) (s : Symbols) (name : String) (indices : List Index) :
    cellNamed (c.shift k) (s.shift k) name (indices.map (·.shift k)) =
      (cellNamed c s name indices).mapError (EvalFailure.shift k) := by
  have hkeys : (indices.map (·.shift k)).mapM (indexValue (α := α) (s.shift k)) =
      ((indices.mapM (indexValue s)).map (moved k)).mapError (EvalFailure.shift k) :=
    mapM_mapError fun i _ => indexValue_shift s i
  unfold cellNamed
  rw [EvalContext.shift_arrays]
  cases c.arrays.lookup name with
  | none => rfl
  | some array =>
    dsimp only
    rw [hkeys]
    cases indices.mapM (indexValue (α := α) s) with
    | error f => rfl
    | ok keys => exact cellAt_shift name array keys c.base

/-- A name that no symbol has stands for what it stood for. -/
theorem scalarNamed_shift [Scalar α] (c : EvalContext α) {s : Symbols} {name : String}
    (h : s.lookup name = none) :
    scalarNamed (c.shift k) (s.shift k) name =
      (scalarNamed c s name).mapError (EvalFailure.shift k) := by
  unfold scalarNamed
  rw [Symbols.lookup_shift, h, EvalContext.shift_arrays]
  dsimp only [Option.map_none]
  cases c.arrays.lookup name with
  | none => rfl
  | some array =>
    dsimp only
    cases array.only? <;> rfl

theorem shift_of_not_lookup {f : EvalFailure α} (h : f.isLookup = false) : f.shift k = f := by
  cases f with
  | lookup v => cases h
  | domain v => rfl
  | refusal r => rfl

/-- A name occurs outside of index lists and without indices. -/
def StandsAlone (name : String) (e : Expr) : Prop := ∃ span, .expr (.ref name [] span) ∈ e.walk

/-- None of these names stands alone in any of the parts below. -/
theorem not_standsAlone_below {e part : Expr} {names : List String}
    (h : ∀ name ∈ names, ¬ StandsAlone name e) (hpart : part.walk ⊆ e.walk) :
    ∀ name ∈ names, ¬ StandsAlone name part :=
  fun name hname ⟨span, hspan⟩ => h name hname ⟨span, hpart hspan⟩

theorem keys_set {names : List String} {s : Symbols} {symbol : String} (n : Int)
    (hs : ∀ p ∈ s, p.1 ∈ names) (hsymbol : symbol ∈ names) :
    ∀ p ∈ s.set symbol n, p.1 ∈ names := by
  induction s with
  | nil => simpa [Symbols.set] using hsymbol
  | cons q rest ih =>
    rw [List.forall_mem_cons] at hs
    unfold Symbols.set
    split
    · exact List.forall_mem_cons.mpr ⟨hs.1, hs.2⟩
    · exact List.forall_mem_cons.mpr ⟨hs.1, ih hs.2⟩

/-- The value of an expression is what it was when its indices, the symbols and the domains move
with the base, if the bound symbols stand in index lists only. -/
theorem valueAt_shift [Scalar α] {bound : List String} {c : EvalContext α} {e : Expr} {s : Symbols}
    (hdomains : ∀ p ∈ c.domains, p.1 ∈ bound) (hs : ∀ p ∈ s, p.1 ∈ bound)
    (he : ∀ name ∈ bound, ¬ StandsAlone name e) :
    (e.shift k).valueAt (c.shift k) (s.shift k) =
      (e.valueAt c s).mapError (EvalFailure.shift k) := by
  induction e generalizing s with
  | literal value span =>
    rw [shift, valueAt_literal, valueAt_literal]
    cases (Scalar.ofNumber? value : Option α) <;> rfl
  | ref name indices span =>
    cases indices with
    | nil =>
      rw [shift, List.map_nil, valueAt_name, valueAt_name]
      apply scalarNamed_shift
      rw [List.lookup_eq_none_iff]
      intro p hp
      by_contra hsame
      obtain rfl : name = p.1 := by simpa using hsame
      exact he p.1 (hs p hp) ⟨span, by rw [walk_ref]; exact List.mem_cons_self⟩
    | cons first rest =>
      rw [shift, List.map_cons, valueAt_cell, valueAt_cell, ← List.map_cons]
      exact cellNamed_shift c s name (first :: rest)
  | reduction fold symbol body span ih =>
    rw [shift, valueAt_reduction, valueAt_reduction]
    rw [EvalContext.shift_domains, lookup_shiftDomains]
    cases hdomain : c.domains.lookup symbol with
    | none => rfl
    | some domain =>
      have hsymbol : symbol ∈ bound := hdomains _ (mem_of_lookup hdomain)
      have hbody : ∀ name ∈ bound, ¬ StandsAlone name body := by
        apply not_standsAlone_below he
        rw [walk_reduction]
        exact List.subset_cons_self _ _
      have hterms : (moved k domain).mapM (fun n => (body.shift k).valueAt (c.shift k)
          ((s.shift k).set symbol n)) =
            (domain.mapM fun n => body.valueAt c (s.set symbol n)).mapError
              (EvalFailure.shift k) := by
        refine mapM_mapError_id fun n _ => ?_
        rw [Symbols.set_shift]
        exact ih (keys_set n hs hsymbol) hbody
      simp only [Option.map_some, hterms]
      cases domain.mapM fun n => body.valueAt c (s.set symbol n) <;> rfl
  | call function args span ih =>
    have hargs : (args.map (shift k)).mapM (valueAt (c.shift k) (s.shift k)) =
        (args.mapM (valueAt c s)).mapError (EvalFailure.shift k) := by
      refine mapM_mapError_id fun a ha => ih a ha hs (not_standsAlone_below he ?_)
      rw [walk_call]
      exact fun p hp => List.mem_cons_of_mem _ (List.mem_flatMap.mpr ⟨a, ha, hp⟩)
    rw [shift, shiftAll_eq_map, valueAt_call, valueAt_call, hargs]
    apply mapError_bind
    exact fun values => (mapError_of_not_lookup (fun _ => shift_of_not_lookup) fun _ =>
      applyBuiltin_not_lookup).symm
  | binary op left right span ihl ihr =>
    have hleft : ∀ name ∈ bound, ¬ StandsAlone name left := by
      apply not_standsAlone_below he
      rw [walk_binary]
      exact fun p hp => List.mem_cons_of_mem _ (List.mem_append_left _ hp)
    have hright : ∀ name ∈ bound, ¬ StandsAlone name right := by
      apply not_standsAlone_below he
      rw [walk_binary]
      exact fun p hp => List.mem_cons_of_mem _ (List.mem_append_right _ hp)
    rw [shift, valueAt_binary, valueAt_binary, ihl hs hleft]
    apply mapError_bind
    intro a
    rw [ihr hs hright]
    apply mapError_bind
    exact fun b => (mapError_of_not_lookup (fun _ => shift_of_not_lookup) fun _ =>
      applyOperator_not_lookup).symm
  | negate operand span ih =>
    have hoperand : ∀ name ∈ bound, ¬ StandsAlone name operand := by
      apply not_standsAlone_below he
      rw [walk_negate]
      exact List.subset_cons_self _ _
    rw [shift, valueAt_negate, valueAt_negate, ih hs hoperand]
    exact mapError_bind fun _ => rfl

end Expr

/-! ## Ranges and grids -/

namespace Range

variable {k : Int}

theorem size_shift (r : Range) : (r.shift k).size = r.size := by
  unfold size shift
  congr 1
  dsimp only
  omega

theorem values_shift (r : Range) : (r.shift k).values = moved k r.values := by
  unfold values moved
  rw [size_shift, List.map_map]
  refine List.map_congr_left fun n _ => ?_
  simp only [shift, Function.comp_apply]
  omega

theorem tuples_shift (rs : List Range) :
    tuples (rs.map (·.shift k)) = (tuples rs).map (moved k) := by
  induction rs with
  | nil => rfl
  | cons r rest ih =>
    rw [List.map_cons, tuples, tuples, values_shift, ih, moved, List.flatMap_map, List.map_flatMap]
    refine List.flatMap_congr fun n _ => ?_
    rw [List.map_map, List.map_map]
    rfl

end Range

theorem Grid.pairs_shift (k : Int) (c : Connectivity) (shape : Shape) (base : Int) :
    pairs c shape (base + k) = (pairs c shape base).map (moved k) := by
  unfold pairs
  rw [List.map_flatMap]
  refine List.flatMap_congr fun cell _ => ?_
  rw [List.map_map]
  refine List.map_congr_left fun q _ => ?_
  simp only [Function.comp_apply, moved, List.map_cons, List.map_nil, Int.add_assoc]

namespace Interaction

variable {k : Int} (i : Interaction)

theorem kind_shift : (i.shift k).kind = i.kind := by
  obtain ⟨id, symbols, domain, base⟩ := i
  cases domain <;> rfl

theorem noTuples_shift {β : Type} : (i.shift k).noTuples (α := β) = i.noTuples := by
  unfold noTuples
  rw [kind_shift]
  rfl

theorem rangeOf_shift (symbol : String) :
    (i.shift k).rangeOf symbol = (i.rangeOf symbol).map (·.shift k) := by
  obtain ⟨id, symbols, domain, base⟩ := i
  unfold rangeOf
  rw [shift_symbols]
  dsimp only
  cases symbols.findIdx? (· == symbol) with
  | none => rfl
  | some place =>
    cases domain with
    | ranges bounds =>
      dsimp only [shift, Domain.shift]
      rw [List.getElem?_map]
      cases bounds[place]? <;> rfl
    | _ => rfl

theorem rangesOf_shift (symbols : List String) :
    (i.shift k).rangesOf symbols = (i.rangesOf symbols).map (List.map (·.shift k)) := by
  apply mapM_image
  intro symbol _
  rw [rangeOf_shift]
  cases i.rangeOf symbol with
  | error e => rfl
  | ok r =>
    change countable (r.shift k) = (countable r).map (·.shift k)
    unfold countable
    rw [Range.size_shift]
    split <;> rfl

/-- The tuples move. -/
theorem tuples_shift (symbols : List String) :
    (i.shift k).tuples symbols = (i.tuples symbols).map (List.map (moved k)) := by
  have hranges := i.rangesOf_shift (k := k) symbols
  have hnone := i.noTuples_shift (k := k) (β := List (List Int))
  obtain ⟨id, names, domain, base⟩ := i
  cases domain with
  | single => rfl
  | tuples items => rfl
  | grid shape c =>
    unfold tuples
    exact congrArg Except.ok (Grid.pairs_shift k c shape base)
  | ranges bounds =>
    unfold tuples
    change ((rangesOf (shift k ⟨id, names, .ranges bounds, base⟩) symbols) >>= _) = _
    rw [hranges]
    cases rangesOf ⟨id, names, .ranges bounds, base⟩ symbols with
    | error e => rfl
    | ok rs => exact congrArg Except.ok (Range.tuples_shift rs)
  | groups members =>
    refine hnone.trans ?_
    rfl
  | factor matrix =>
    refine hnone.trans ?_
    rfl

/-! ## Bounds -/

/-- Extents of symbols that have moved. -/
def shiftExtents (k : Int) (extents : List (String × Int × Int)) : List (String × Int × Int) :=
  extents.map fun e => (e.1, e.2.1 + k, e.2.2 + k)

theorem named_shift (symbol : String) (extent : Option (Int × Int)) :
    named symbol (extent.map fun e => (e.1 + k, e.2 + k)) =
      shiftExtents k (named symbol extent) := by
  cases extent <;> rfl

theorem foldl_shift {f : Int → Int → Int} (hf : ∀ a b, f (a + k) (b + k) = f a b + k)
    (ks : List Int)
    (a : Int) : (moved k ks).foldl f (a + k) = ks.foldl f a + k := by
  induction ks generalizing a with
  | nil => rfl
  | cons b rest ih =>
    rw [moved, List.map_cons, List.foldl_cons, List.foldl_cons, hf]
    exact ih (f a b)

theorem extent?_shift (ks : List Int) :
    extent? (moved k ks) = (extent? ks).map fun e => (e.1 + k, e.2 + k) := by
  cases ks with
  | nil => rfl
  | cons n rest =>
    have hmin := foldl_shift (k := k) (f := min) (by intros; omega) rest n
    have hmax := foldl_shift (k := k) (f := max) (by intros; omega) rest n
    change some ((moved k rest).foldl min (n + k), (moved k rest).foldl max (n + k)) = _
    rw [hmin, hmax]
    rfl

theorem span?_shift (base : Int) (count : Nat) :
    span? (base + k) count = (span? base count).map fun e => (e.1 + k, e.2 + k) := by
  unfold span?
  split
  · rfl
  · simp only [Option.map_some, Option.some.injEq, Prod.mk.injEq, true_and]
    omega

theorem rangeExtent_shift (r : Range) :
    (if (r.shift k).low ≤ (r.shift k).high then some ((r.shift k).low, (r.shift k).high) else none) =
      (if r.low ≤ r.high then some (r.low, r.high) else none).map
        fun e => (e.1 + k, e.2 + k) := by
  unfold Range.shift
  by_cases h : r.low ≤ r.high
  · rw [if_pos h, if_pos (Int.add_le_add_right h k)]
    rfl
  · rw [if_neg h, if_neg fun h' => h (Int.le_of_add_le_add_right h')]
    rfl

/-- The places of some tuples that hold an index are the same, and what they hold moves. -/
theorem filterMap_moved (items : List (List Int)) (place : Nat) :
    (items.map (moved k)).filterMap (·[place]?) = moved k (items.filterMap (·[place]?)) := by
  unfold moved
  rw [List.filterMap_map, List.map_filterMap]
  refine List.filterMap_congr fun ks _ => ?_
  rw [Function.comp_apply, List.getElem?_map]

/-- The extent of every symbol moves. -/
theorem extents_shift : (i.shift k).extents = shiftExtents k i.extents := by
  have hnamed : ∀ {ι : Type} (xs : List ι) (symbol : ι → String) (o o' : ι → Option (Int × Int)),
      (∀ x ∈ xs, o' x = (o x).map fun e => (e.1 + k, e.2 + k)) →
      xs.flatMap (fun x => named (symbol x) (o' x)) =
        shiftExtents k (xs.flatMap fun x => named (symbol x) (o x)) := by
    intro ι xs symbol o o' h
    unfold shiftExtents
    rw [List.map_flatMap]
    refine List.flatMap_congr fun x hx => ?_
    rw [h x hx]
    exact named_shift _ _
  obtain ⟨id, names, domain, base⟩ := i
  unfold extents
  cases domain with
  | single => rfl
  | ranges bounds =>
    dsimp only [shift, Domain.shift]
    rw [List.zip_map_right, List.flatMap_map]
    apply hnamed
    rintro ⟨symbol, r⟩ -
    exact rangeExtent_shift r
  | tuples items =>
    dsimp only [shift, Domain.shift]
    apply hnamed
    rintro ⟨symbol, place⟩ -
    dsimp only
    rw [filterMap_moved, extent?_shift]
  | groups members =>
    dsimp only [shift, Domain.shift]
    apply hnamed
    intro symbol _
    rw [← extent?_shift]
    unfold moved
    rw [List.map_flatten]
  | grid shape c =>
    dsimp only [shift, Domain.shift]
    apply hnamed
    intro symbol _
    split
    · exact span?_shift base shape.cellCount
    · rfl
  | factor matrix =>
    dsimp only [shift, Domain.shift]
    apply hnamed
    intro symbol _
    exact span?_shift base (columnCount matrix)

end Interaction

namespace Bounds

variable {k : Int}

/-- The same fault, told of indices that have moved. -/
def Fault.shift (k : Int) : Fault → Fault
  | .outside interaction array n axis dimension base =>
    .outside interaction array (n + k) axis dimension (base + k)
  | f => f

theorem candidates_shift (extents : List (String × Int × Int)) (i : Index) :
    candidates (Interaction.shiftExtents k extents) (i.shift k) =
      moved k (candidates extents i) := by
  cases i with
  | literal n span => rfl
  | symbol name span =>
    unfold candidates Index.shift Interaction.shiftExtents
    dsimp only
    rw [lookup_map_snd fun e : Int × Int => (e.1 + k, e.2 + k)]
    cases extents.lookup name <;> rfl

theorem isInside_shift (base : Int) (dimension : Nat) (n : Int) :
    isInside (base + k) dimension (n + k) = isInside base dimension n := by
  unfold isInside
  congr 1
  · simp
  · simp only [decide_eq_decide]
    omega

theorem outside?_shift (extents : List (String × Int × Int)) (base : Int) (indices : List Index)
    (shape : Shape) :
    outside? (Interaction.shiftExtents k extents) (base + k) (indices.map (·.shift k)) shape =
      (outside? extents base indices shape).map fun p => (p.1 + k, p.2) := by
  unfold outside?
  rw [List.zip_map_left, List.zipIdx_map, List.findSome?_map, List.map_findSome?]
  refine congrArg (fun find => List.findSome? find _) (funext ?_)
  rintro ⟨⟨i, d⟩, axis⟩
  have hinside : (fun n => !isInside (base + k) d n) ∘ (fun n => n + k) =
      fun n => !isInside base d n := by
    funext n
    rw [Function.comp_apply, isInside_shift]
  have hfind : (candidates (Interaction.shiftExtents k extents) (i.shift k)).find?
      (fun n => !isInside (base + k) d n) =
        ((candidates extents i).find? fun n => !isInside base d n).map (· + k) := by
    rw [candidates_shift, moved, List.find?_map, hinside]
  change ((candidates (Interaction.shiftExtents k extents) (i.shift k)).find? fun n =>
    !isInside (base + k) d n).map (fun n => (n, axis, d)) = Option.map _ (Option.map _ _)
  rw [hfind, Option.map_map, Option.map_map]
  rfl

theorem checkReference_shift (interaction : String) (extents : List (String × Int × Int))
    (shapes : List (String × Shape)) (base : Int) (p : Expr.Part) :
    checkReference interaction (Interaction.shiftExtents k extents) shapes (base + k) (p.shift k) =
      (checkReference interaction extents shapes base p).mapError (Fault.shift k) := by
  cases p with
  | index i => cases i <;> rfl
  | expr e =>
    cases e with
    | ref name indices span =>
      cases indices with
      | nil => rfl
      | cons first rest =>
        have houtside := fun shape => outside?_shift (k := k) extents base (first :: rest) shape
        simp only [List.map_cons] at houtside
        simp only [Expr.Part.shift, Expr.shift, List.map_cons, checkReference]
        cases shapes.lookup name with
        | none => rfl
        | some shape =>
          dsimp only
          rw [houtside]
          simp only [List.length_cons, List.length_map]
          split
          · rfl
          · rcases outside? extents base (first :: rest) shape with _ | ⟨n, axis, d⟩ <;> rfl
    | _ => rfl

/-- The indices of some expressions are accepted under one base just when they are under the
other. -/
theorem check_shift (exprs : List Expr) (i : Interaction) (shapes : List (String × Shape))
    (base : Int) :
    check (exprs.map (·.shift k)) (i.shift k) shapes (base + k) =
      (check exprs i shapes base).mapError (Fault.shift k) := by
  have hparts : (exprs.map (·.shift k)).flatMap Expr.walk =
      (exprs.flatMap Expr.walk).map (Expr.Part.shift k) := by
    rw [List.flatMap_map, List.map_flatMap]
    exact List.flatMap_congr fun e _ => Expr.walk_shift e
  unfold check
  rw [hparts, Interaction.extents_shift]
  induction exprs.flatMap Expr.walk with
  | nil => rfl
  | cons p rest ih =>
    rw [List.map_cons]
    change (checkReference i.id _ shapes (base + k) (p.shift k) >>= fun _ => _) = _
    rw [checkReference_shift]
    exact mapError_bind fun _ => ih

end Bounds

end EnergyGraph
