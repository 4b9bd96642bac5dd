-- What the symbols of an interaction can stand for. Six kinds of domains list their
-- places in six ways, but of each symbol only the smallest and the largest value are
-- kept for the check of bounds. Every value that a symbol takes lies between the two.
import EnergyGraph.Component.Binding
import EnergyGraph.Energy.Evaluate
import EnergyGraph.Interaction.Resolve
import EnergyGraph.Proofs.Coverage
import EnergyGraph.Proofs.Positions

namespace EnergyGraph

/-! ## Look-ups side by side -/

section

variable {β : Type} {symbols : List String} {s : String} {place : Nat}

theorem lookup_zip_of_findIdx? (ks : List β) (h : symbols.findIdx? (· == s) = some place) :
    (symbols.zip ks).lookup s = ks[place]? := by
  induction symbols generalizing ks place with
  | nil => cases h
  | cons t rest ih =>
    cases ks with
    | nil => simp
    | cons k ks =>
      rw [List.findIdx?_cons] at h
      by_cases ht : t = s
      · subst ht
        simp only [beq_self_eq_true, if_true, Option.some.injEq] at h
        subst h
        simp
      · have hst : (s == t) = false := beq_eq_false_iff_ne.mpr fun h' => ht h'.symm
        simp only [beq_eq_false_iff_ne.mpr ht, Bool.false_eq_true, if_false,
          Option.map_eq_some_iff] at h
        obtain ⟨p, hp, rfl⟩ := h
        rw [List.zip_cons_cons, List.lookup_cons, hst, List.getElem?_cons_succ]
        exact ih ks hp

theorem exists_findIdx? (h : s ∈ symbols) :
    ∃ place, symbols.findIdx? (· == s) = some place ∧ place < symbols.length := by
  have hany : (symbols.findIdx? (· == s)).isSome = true := by
    rw [List.findIdx?_isSome]
    exact List.any_eq_true.mpr ⟨s, h, beq_self_eq_true s⟩
  obtain ⟨place, hplace⟩ := Option.isSome_iff_exists.mp hany
  exact ⟨place, hplace, (List.findIdx?_eq_some_iff_getElem.mp hplace).1⟩

/-- What holds of all pairs holds of each symbol and of what it is paired with first. -/
theorem lookup_zip_of_forall₂ {R : String → β → Prop} {ks : List β} (h : List.Forall₂ R symbols ks)
    (hs : s ∈ symbols) : ∃ k, (symbols.zip ks).lookup s = some k ∧ R s k := by
  induction h with
  | nil => cases hs
  | @cons t k symbols ks htk _ ih =>
    rw [List.zip_cons_cons, List.lookup_cons]
    by_cases hst : s = t
    · subst hst
      exact ⟨k, by simp, htk⟩
    · rw [beq_eq_false_iff_ne.mpr hst]
      exact ih ((List.mem_cons.mp hs).resolve_left hst)

end

namespace Interaction

/-! ## Extents -/

/-- A value of a symbol lies between the smallest and the largest one. -/
def Spans (i : Interaction) (symbol : String) (k : Int) : Prop :=
  ∃ low high, i.extents.lookup symbol = some (low, high) ∧ low ≤ k ∧ k ≤ high

theorem foldl_min_le (ks : List Int) (a : Int) :
    ks.foldl min a ≤ a ∧ ∀ k ∈ ks, ks.foldl min a ≤ k := by
  induction ks generalizing a with
  | nil => simp
  | cons b rest ih =>
    obtain ⟨hstart, hrest⟩ := ih (min a b)
    rw [List.foldl_cons]
    refine ⟨by omega, fun k hk => ?_⟩
    rcases List.mem_cons.mp hk with rfl | hk
    · omega
    · exact hrest k hk

theorem le_foldl_max (ks : List Int) (a : Int) :
    a ≤ ks.foldl max a ∧ ∀ k ∈ ks, k ≤ ks.foldl max a := by
  induction ks generalizing a with
  | nil => simp
  | cons b rest ih =>
    obtain ⟨hstart, hrest⟩ := ih (max a b)
    rw [List.foldl_cons]
    refine ⟨by omega, fun k hk => ?_⟩
    rcases List.mem_cons.mp hk with rfl | hk
    · omega
    · exact hrest k hk

theorem extent?_of_mem {ks : List Int} {k : Int} (h : k ∈ ks) :
    ∃ low high, extent? ks = some (low, high) ∧ low ≤ k ∧ k ≤ high := by
  cases ks with
  | nil => cases h
  | cons a rest =>
    obtain ⟨hmin, hmins⟩ := foldl_min_le rest a
    obtain ⟨hmax, hmaxs⟩ := le_foldl_max rest a
    refine ⟨_, _, rfl, ?_⟩
    rcases List.mem_cons.mp h with rfl | h
    · exact ⟨hmin, hmax⟩
    · exact ⟨hmins k h, hmaxs k h⟩

section

variable {β : Type} {symbols : List String} {s : String} {e : Int × Int}

theorem lookup_named_ne {t : String} {o : Option (Int × Int)} (h : s ≠ t)
    (rest : List (String × Int × Int)) : (named t o ++ rest).lookup s = rest.lookup s := by
  cases o with
  | none => rfl
  | some e =>
    exact lookup_cons_of_ne h e

theorem lookup_named_self (rest : List (String × Int × Int)) :
    (named s (some e) ++ rest).lookup s = some e := by
  change ((s, e) :: rest).lookup s = _
  rw [List.lookup_cons, beq_self_eq_true]

/-- The extent of a symbol is the one at its first place. -/
theorem lookup_named_zip (extent : β → Option (Int × Int)) {values : List β} {place : Nat} {v : β}
    (h : symbols.findIdx? (· == s) = some place) (hv : values[place]? = some v)
    (he : extent v = some e) :
    ((symbols.zip values).flatMap fun (t, w) => named t (extent w)).lookup s = some e := by
  induction symbols generalizing values place with
  | nil => cases h
  | cons t rest ih =>
    cases values with
    | nil => cases hv
    | cons w values =>
      rw [List.findIdx?_cons] at h
      rw [List.zip_cons_cons, List.flatMap_cons]
      by_cases ht : t = s
      · subst ht
        simp only [beq_self_eq_true, if_true, Option.some.injEq] at h
        subst h
        cases hv
        dsimp only
        rw [he, lookup_named_self]
      · simp only [beq_eq_false_iff_ne.mpr ht, Bool.false_eq_true, if_false,
          Option.map_eq_some_iff] at h
        obtain ⟨p, hp, rfl⟩ := h
        rw [lookup_named_ne fun h' => ht h'.symm]
        exact ih hp hv

theorem lookup_named_all (h : s ∈ symbols) :
    (symbols.flatMap fun t => named t (some e)).lookup s = some e := by
  induction symbols with
  | nil => cases h
  | cons t rest ih =>
    rw [List.flatMap_cons]
    by_cases hst : s = t
    · subst hst
      exact lookup_named_self _
    · rw [lookup_named_ne hst]
      exact ih ((List.mem_cons.mp h).resolve_left hst)

end

/-! ## Resolved interactions -/

/-- A domain goes with some symbols: it has a place for each of them. -/
def Domain.Fits (symbols : List String) : Domain → Prop
  | .single => symbols = []
  | .ranges bounds => bounds.length = symbols.length
  | .tuples items => ∀ ks ∈ items, ks.length = symbols.length
  | .groups _ | .factor _ => symbols.length = 1
  | .grid .. => symbols.length = 2

variable {s : Surroundings} {d : InteractionDecl} {symbols : List String} {domain : Domain}

theorem length_of_checkWidth {id : String} {width : Nat} {u : Unit}
    (h : checkWidth id symbols width = .ok u) : symbols.length = width := by
  unfold checkWidth at h
  split at h
  · assumption
  · cases h

theorem length_of_mapM_ok {β γ : Type} {f : β → Except Failure γ} {xs : List β} {ys : List γ}
    (h : xs.mapM f = .ok ys) : ys.length = xs.length :=
  (mapM_eq_ok.mp h).length_eq.symm

theorem fits_of_resolveNone (h : resolveNone d = .ok (symbols, domain)) : domain.Fits symbols := by
  unfold resolveNone at h
  split at h
  · cases h
    rfl
  · cases h

theorem length_of_namedRanges {members : Object} {ranges : List Range}
    (h : namedRanges s d members = .ok (symbols, ranges)) : ranges.length = symbols.length := by
  unfold namedRanges at h
  dsimp only at h
  split at h
  · obtain ⟨found, hfound, h⟩ := bind_eq_ok.mp h
    cases h
    exact length_of_mapM_ok hfound
  · cases h

theorem length_of_listedRanges {items : List Value} {ranges : List Range}
    (h : listedRanges s d items = .ok (symbols, ranges)) : ranges.length = symbols.length := by
  unfold listedRanges at h
  obtain ⟨u, hwidth, h⟩ := bind_eq_ok.mp h
  obtain ⟨found, hfound, h⟩ := bind_eq_ok.mp h
  cases h
  rw [length_of_mapM_ok hfound, List.length_zipIdx, length_of_checkWidth hwidth]

theorem fits_of_resolveRanges (h : resolveRanges s d = .ok (symbols, domain)) :
    domain.Fits symbols := by
  unfold resolveRanges at h
  split at h
  · obtain ⟨⟨found, ranges⟩, hfound, h⟩ := bind_eq_ok.mp h
    cases h
    exact length_of_namedRanges hfound
  · obtain ⟨⟨found, ranges⟩, hfound, h⟩ := bind_eq_ok.mp h
    cases h
    exact length_of_listedRanges hfound
  · cases h
  · split at h
    · obtain ⟨r, -, h⟩ := bind_eq_ok.mp h
      cases h
      exact List.length_map _
    · cases h

theorem mem_widths {items : List (List Int)} {ks : List Int} (h : ks ∈ items) :
    ks.length ∈ widths items := by
  unfold widths
  rw [List.mem_eraseDups, (List.mergeSort_perm _ _).mem_iff]
  exact List.mem_map_of_mem h

theorem length_of_commonWidth {items : List (List Int)} {width : Nat}
    (h : commonWidth d items = .ok width) {ks : List Int} (hks : ks ∈ items) :
    ks.length = width := by
  have hmem := mem_widths hks
  unfold commonWidth at h
  split at h
  · rename_i hnone
    rw [hnone] at hmem
    cases hmem
  · rename_i hone
    cases h
    rw [hone] at hmem
    exact List.mem_singleton.mp hmem
  · cases h

theorem fits_of_resolveTuples (h : resolveTuples s d = .ok (symbols, domain)) :
    domain.Fits symbols := by
  unfold resolveTuples at h
  obtain ⟨_, -, h⟩ := bind_eq_ok.mp h
  obtain ⟨_, -, h⟩ := bind_eq_ok.mp h
  obtain ⟨items, -, h⟩ := bind_eq_ok.mp h
  obtain ⟨width, hwidth, h⟩ := bind_eq_ok.mp h
  obtain ⟨_, -, h⟩ := bind_eq_ok.mp h
  obtain ⟨u, hsymbols, h⟩ := bind_eq_ok.mp h
  cases h
  intro ks hks
  rw [length_of_commonWidth hwidth hks, length_of_checkWidth hsymbols]

theorem fits_of_resolveGroups (h : resolveGroups s d = .ok (symbols, domain)) :
    domain.Fits symbols := by
  unfold resolveGroups at h
  obtain ⟨_, -, h⟩ := bind_eq_ok.mp h
  obtain ⟨_, -, h⟩ := bind_eq_ok.mp h
  obtain ⟨_, -, h⟩ := bind_eq_ok.mp h
  obtain ⟨u, hwidth, h⟩ := bind_eq_ok.mp h
  cases h
  exact length_of_checkWidth hwidth

theorem fits_of_resolveGrid (h : resolveGrid s d = .ok (symbols, domain)) :
    domain.Fits symbols := by
  unfold resolveGrid at h
  obtain ⟨_, -, h⟩ := bind_eq_ok.mp h
  obtain ⟨_, -, h⟩ := bind_eq_ok.mp h
  split at h
  · cases h
  · dsimp only at h
    split at h
    · cases h
    · obtain ⟨u, hwidth, h⟩ := bind_eq_ok.mp h
      cases h
      exact length_of_checkWidth hwidth

theorem fits_of_resolveFactor (h : resolveFactor s d = .ok (symbols, domain)) :
    domain.Fits symbols := by
  unfold resolveFactor at h
  dsimp only at h
  split at h
  · cases h
  · obtain ⟨_, -, h⟩ := bind_eq_ok.mp h
    split at h
    · cases h
    · obtain ⟨u, hwidth, h⟩ := bind_eq_ok.mp h
      cases h
      exact length_of_checkWidth hwidth

/-- An interaction that is resolved has a place for each symbol, and counts from the same number
as the document. -/
theorem fits_of_resolve {i : Interaction} (h : resolve s d = .ok i) :
    i.domain.Fits i.symbols ∧ i.base = s.base := by
  unfold resolve at h
  obtain ⟨⟨symbols, domain⟩, hdomain, h⟩ := bind_eq_ok.mp h
  cases h
  rw [mapError_eq_ok] at hdomain
  refine ⟨?_, rfl⟩
  unfold resolveDomain at hdomain
  split at hdomain
  · exact fits_of_resolveNone hdomain
  · exact fits_of_resolveRanges hdomain
  · exact fits_of_resolveTuples hdomain
  · exact fits_of_resolveGroups hdomain
  · exact fits_of_resolveGrid hdomain
  · exact fits_of_resolveFactor hdomain

/-! ## Values of symbols -/

variable {i : Interaction} {symbol : String}

/-- The range of a symbol is the one at its first place. -/
theorem rangeOf_eq_ok {bounds : List Range} {r : Range} (hdomain : i.domain = .ranges bounds)
    (hr : i.rangeOf symbol = .ok r) :
    ∃ place, i.symbols.findIdx? (· == symbol) = some place ∧ bounds[place]? = some r := by
  unfold rangeOf at hr
  split at hr
  · cases hr
  · rename_i place hplace
    rw [hdomain] at hr
    dsimp only at hr
    split at hr
    · rename_i r' hr'
      cases hr
      exact ⟨place, hplace, hr'⟩
    · cases hr

theorem spans_of_range {bounds : List Range} {r : Range} {k : Int}
    (hdomain : i.domain = .ranges bounds) (hr : i.rangeOf symbol = .ok r)
    (hk : k ∈ r.values) : i.Spans symbol k := by
  obtain ⟨hlow, hhigh⟩ := Range.mem_values.mp hk
  obtain ⟨place, hplace, hbound⟩ := rangeOf_eq_ok hdomain hr
  refine ⟨r.low, r.high, ?_, hlow, hhigh⟩
  unfold extents
  rw [hdomain]
  exact lookup_named_zip (fun r => if r.low ≤ r.high then some (r.low, r.high) else none)
    hplace hbound (if_pos (by omega))

/-- A tuple gives each symbol the value at its first place. -/
theorem spans_of_tuple {items : List (List Int)} {ks : List Int}
    (hdomain : i.domain = .tuples items) (hfits : i.domain.Fits i.symbols)
    (hks : ks ∈ items) (hsymbol : symbol ∈ i.symbols) :
    ∃ k, (i.symbols.zip ks).lookup symbol = some k ∧ i.Spans symbol k := by
  rw [hdomain] at hfits
  obtain ⟨place, hplace, hlt⟩ := exists_findIdx? hsymbol
  obtain ⟨k, hk⟩ : ∃ k, ks[place]? = some k := by
    rw [← hfits ks hks] at hlt
    exact ⟨_, List.getElem?_eq_getElem hlt⟩
  refine ⟨k, (lookup_zip_of_findIdx? ks hplace).trans hk, ?_⟩
  obtain ⟨low, high, hextent, hbetween⟩ :=
    extent?_of_mem (List.mem_filterMap.mpr ⟨ks, hks, hk⟩ : k ∈ items.filterMap (·[place]?))
  refine ⟨low, high, ?_, hbetween⟩
  unfold extents
  rw [hdomain]
  dsimp only
  rw [List.zipIdx_eq_zip_range']
  exact lookup_named_zip (fun place => extent? (items.filterMap (·[place]?))) hplace
    (by simp [hlt]) hextent

theorem spans_of_grid {shape : Shape} {c : Grid.Connectivity} {k : Int}
    (hdomain : i.domain = .grid shape c) (hsymbol : symbol ∈ i.symbols)
    (hcount : 1 < shape.cellCount) (hlow : i.base ≤ k)
    (hhigh : k ≤ i.base + shape.cellCount - 1) : i.Spans symbol k := by
  refine ⟨_, _, ?_, hlow, hhigh⟩
  unfold extents
  rw [hdomain]
  dsimp only
  rw [if_pos hcount, span?, if_neg (by omega)]
  exact lookup_named_all hsymbol

theorem spans_of_group {members : List (List Int)} {ks : List Int} {k : Int}
    (hdomain : i.domain = .groups members) (hsymbols : i.symbols = [symbol]) (hks : ks ∈ members)
    (hk : k ∈ ks) : i.Spans symbol k := by
  obtain ⟨low, high, hextent, hbetween⟩ := extent?_of_mem (List.mem_flatten.mpr ⟨ks, hks, hk⟩)
  refine ⟨low, high, ?_, hbetween⟩
  unfold extents
  rw [hdomain, hsymbols]
  dsimp only
  rw [hextent]
  exact lookup_named_all (List.mem_singleton_self symbol)

theorem spans_of_column {matrix : Tensor Float} {k : Nat} (hdomain : i.domain = .factor matrix)
    (hsymbols : i.symbols = [symbol]) (hk : k < columnCount matrix) :
    i.Spans symbol (i.base + k) := by
  refine ⟨i.base, i.base + columnCount matrix - 1, ?_, by omega, by omega⟩
  unfold extents
  rw [hdomain, hsymbols]
  dsimp only
  rw [span?, if_neg (by omega)]
  exact lookup_named_all (List.mem_singleton_self symbol)

end Interaction

/-! ## Places of a domain -/

namespace Grid

/-- A pair of neighbours holds two different cells, so that there are two at least. -/
theorem mem_pairs {c : Connectivity} {shape : Shape} {base : Int} {ks : List Int}
    (h : ks ∈ pairs c shape base) : ks.length = 2 ∧ 1 < shape.cellCount ∧
      ∀ k ∈ ks, base ≤ k ∧ k ≤ base + shape.cellCount - 1 := by
  unfold pairs at h
  obtain ⟨cell, -, h⟩ := List.mem_flatMap.mp h
  obtain ⟨q, hq, rfl⟩ := List.mem_map.mp h
  unfold laterNeighbours at hq
  obtain ⟨hq, hlater⟩ := List.mem_filter.mp hq
  obtain ⟨neighbour, -, rfl⟩ := List.mem_map.mp hq
  have hlt : number shape cell < number shape neighbour := of_decide_eq_true hlater
  have hcount : number shape neighbour < shape.cellCount := by
    unfold number at hlt ⊢
    rcases ho : shape.offset? neighbour with _ | o
    · rw [ho] at hlt
      exact absurd hlt (Nat.not_lt_zero _)
    · exact Shape.offset?_lt ho
  refine ⟨rfl, by omega, fun k hk => ?_⟩
  simp only [List.mem_cons, List.not_mem_nil, or_false] at hk
  omega

end Grid

theorem Range.mem_tuples {rs : List Range} {ks : List Int} :
    ks ∈ Range.tuples rs ↔ List.Forall₂ (fun r k => k ∈ r.values) rs ks := by
  induction rs generalizing ks with
  | nil => simp [Range.tuples]
  | cons r rest ih =>
    simp only [Range.tuples, List.mem_flatMap, List.mem_map]
    constructor
    · rintro ⟨k, hk, ks, hks, rfl⟩
      exact .cons hk (ih.mp hks)
    · intro h
      cases h with
      | cons hk hks => exact ⟨_, hk, _, ih.mpr hks, rfl⟩

/-! ## Bindings -/

namespace Binding

/-- A usage asks for nothing that an interaction does not give. -/
structure Allowed (u : Usage) (i : Interaction) : Prop where
  free : ∀ symbol ∈ u.free, symbol ∈ i.symbols
  reductions : ∀ symbol ∈ u.reductions, symbol ∈ i.symbols
  reducible : ∀ symbol ∈ u.reductions, isReducible i.kind = true
  members : i.kind = .groups → u.free = []

variable {exprs : List Expr} {arity : Arity} {compat : List String} {i : Interaction}
  {aggregator : Option (Aggregator Float)} {b : Binding}

theorem checkReduction_eq_ok {u : Usage} {symbol : String}
    (h : checkReduction u i symbol = .ok ()) :
    symbol ∈ i.symbols ∧ isReducible i.kind = true := by
  unfold checkReduction at h
  split at h
  · cases h
  · rename_i hmem
    split at h
    · cases h
    · rename_i hkind
      exact ⟨not_not.mp hmem, by simpa using hkind⟩

theorem allowed_of_bind (h : bind exprs arity compat i aggregator = .ok b) :
    Allowed (Usage.ofExprs exprs i.symbols) i ∧
      b.free = i.symbols.filter (· ∈ (Usage.ofExprs exprs i.symbols).free) ∧
      b.reductions = (Usage.ofExprs exprs i.symbols).reductions := by
  unfold bind at h
  obtain ⟨_, hfree, h⟩ := bind_eq_ok.mp h
  obtain ⟨_, hreductions, h⟩ := bind_eq_ok.mp h
  obtain ⟨_, -, h⟩ := bind_eq_ok.mp h
  obtain ⟨_, hmembers, h⟩ := bind_eq_ok.mp h
  obtain ⟨_, -, h⟩ := bind_eq_ok.mp h
  obtain ⟨_, -, h⟩ := bind_eq_ok.mp h
  obtain ⟨a, -, h⟩ := bind_eq_ok.mp h
  cases h
  refine ⟨⟨?_, ?_, ?_, ?_⟩, rfl, rfl⟩
  · intro symbol hsymbol
    unfold checkFree at hfree
    split at hfree
    · cases hfree
    · rename_i hnone
      simpa using List.find?_eq_none.mp hnone symbol hsymbol
  · exact fun symbol hsymbol => (checkReduction_eq_ok (forM_eq_ok.mp hreductions symbol hsymbol)).1
  · exact fun symbol hsymbol => (checkReduction_eq_ok (forM_eq_ok.mp hreductions symbol hsymbol)).2
  · intro hkind
    unfold checkMembers at hmembers
    split at hmembers
    · cases hmembers
    · rename_i hnone
      exact not_not.mp fun hfree => hnone ⟨hkind, hfree⟩

end Binding

/-! ## Points -/

namespace Energy

variable {i : Interaction} {u : Usage} {base : Int} {free reductions : List String}
  {ps : List Point} {p : Point}

/-- At a point each free symbol has a value, and each reduced one a domain, within the extents. -/
structure Point.Serves (i : Interaction) (u : Usage) (p : Point) : Prop where
  bound : Expr.Bound i.Spans u.free p.symbols
  reduced : Usage.AllReduced u p.domains i.Spans

/-- A point that is not one of a group has a tuple, and the domains of all reductions. -/
theorem mem_points (hgroups : i.kind ≠ .groups) (h : points i free reductions = .ok ps)
    (hp : p ∈ ps) : ∃ ks tuples, i.tuples (tupleSymbols i free) = .ok tuples ∧ ks ∈ tuples ∧
      p.symbols = (tupleSymbols i free).zip ks ∧
      reductionDomains i reductions = .ok p.domains := by
  unfold points at h
  split at h
  · rename_i members hdomain
    exact absurd (by rw [Interaction.kind, hdomain]; rfl) hgroups
  · obtain ⟨domains, hdomains, h⟩ := bind_eq_ok.mp h
    obtain ⟨tuples, htuples, h⟩ := bind_eq_ok.mp h
    cases h
    obtain ⟨ks, hks, rfl⟩ := List.mem_map.mp hp
    exact ⟨ks, tuples, htuples, hks, rfl, hdomains⟩

theorem allReduced_nil (h : Binding.Allowed u i) (hkind : Binding.isReducible i.kind = false)
    (domains : List (String × List Int)) : Usage.AllReduced u domains i.Spans := by
  intro symbol hsymbol
  rw [h.reducible symbol hsymbol] at hkind
  cases hkind

theorem serves_of_single (hdomain : i.domain = .single) (hfits : i.domain.Fits i.symbols)
    (hu : Binding.Allowed u i) : p.Serves i u := by
  rw [hdomain] at hfits
  have hnone : i.symbols = [] := hfits
  refine ⟨fun symbol hsymbol => ?_, fun symbol hsymbol => ?_⟩
  · have hmem := hu.free symbol hsymbol
    rw [hnone] at hmem
    cases hmem
  · have hmem := hu.reductions symbol hsymbol
    rw [hnone] at hmem
    cases hmem

theorem lookup_reductionDomains {domains : List (String × List Int)} {symbol : String}
    (h : reductionDomains i reductions = .ok domains) (hsymbol : symbol ∈ reductions) :
    ∃ r, i.rangeOf symbol = .ok r ∧ domains.lookup symbol = some r.values := by
  unfold reductionDomains at h
  have hall := mapM_eq_ok.mp h
  clear h
  induction hall with
  | nil => cases hsymbol
  | @cons t pair rest domains hpair _ ih =>
    obtain ⟨r, hr, hpair⟩ := bind_eq_ok.mp hpair
    cases hpair
    rw [List.lookup_cons]
    by_cases hst : symbol = t
    · subst hst
      exact ⟨r, hr, by simp⟩
    · rw [beq_eq_false_iff_ne.mpr hst]
      exact ih ((List.mem_cons.mp hsymbol).resolve_left hst)

theorem rangeOf_of_countable {symbol : String} {r : Range}
    (h : (do Interaction.countable (← i.rangeOf symbol)) = .ok r) : i.rangeOf symbol = .ok r := by
  obtain ⟨r', hr', h⟩ := bind_eq_ok.mp h
  unfold Interaction.countable at h
  split at h
  · cases h
    exact hr'
  · cases h

theorem serves_of_ranges {bounds : List Range} (hdomain : i.domain = .ranges bounds)
    (hu : Binding.Allowed u i)
    (h : points i (i.symbols.filter (· ∈ u.free)) u.reductions = .ok ps) (hp : p ∈ ps) :
    p.Serves i u := by
  have hkind : i.kind ≠ .groups := by simp [Interaction.kind, hdomain, Interaction.Domain.kind]
  obtain ⟨ks, tuples, htuples, hks, hsymbols, hdomains⟩ := mem_points hkind h hp
  rw [tupleSymbols, hdomain] at hsymbols htuples
  dsimp only at hsymbols htuples
  refine ⟨?_, ?_⟩
  · intro symbol hsymbol
    have hmem : symbol ∈ i.symbols.filter (· ∈ u.free) :=
      List.mem_filter.mpr ⟨hu.free symbol hsymbol, by simpa using hsymbol⟩
    rw [hsymbols]
    unfold Interaction.tuples at htuples
    rw [hdomain] at htuples
    obtain ⟨ranges, hranges, htuples⟩ := bind_eq_ok.mp htuples
    cases htuples
    refine lookup_zip_of_forall₂ ?_ hmem
    exact forall₂_comp (mapM_eq_ok.mp hranges) (Range.mem_tuples.mp hks) fun s r k hr hk =>
      Interaction.spans_of_range hdomain (rangeOf_of_countable hr) hk
  · intro symbol hsymbol
    obtain ⟨r, hr, hlookup⟩ := lookup_reductionDomains hdomains hsymbol
    exact ⟨r.values, hlookup, fun k hk => Interaction.spans_of_range hdomain hr hk⟩

theorem serves_of_tuples {items : List (List Int)} (hdomain : i.domain = .tuples items)
    (hfits : i.domain.Fits i.symbols) (hu : Binding.Allowed u i)
    (h : points i free reductions = .ok ps) (hp : p ∈ ps) : p.Serves i u := by
  have hkind : i.kind = .sparse := by rw [Interaction.kind, hdomain]; rfl
  obtain ⟨ks, tuples, htuples, hks, hsymbols, -⟩ := mem_points (by simp [hkind]) h hp
  rw [tupleSymbols, hdomain] at hsymbols htuples
  unfold Interaction.tuples at htuples
  rw [hdomain] at htuples
  cases htuples
  refine ⟨?_, allReduced_nil hu (by simp [hkind, Binding.isReducible]) _⟩
  intro symbol hsymbol
  rw [hsymbols]
  exact Interaction.spans_of_tuple hdomain hfits hks (hu.free symbol hsymbol)

theorem serves_of_grid {shape : Shape} {c : Grid.Connectivity} (hdomain : i.domain = .grid shape c)
    (hfits : i.domain.Fits i.symbols) (hu : Binding.Allowed u i)
    (h : points i free reductions = .ok ps) (hp : p ∈ ps) : p.Serves i u := by
  have hkind : i.kind = .laplacian := by rw [Interaction.kind, hdomain]; rfl
  obtain ⟨ks, tuples, htuples, hks, hsymbols, -⟩ := mem_points (by simp [hkind]) h hp
  rw [tupleSymbols, hdomain] at hsymbols htuples
  unfold Interaction.tuples at htuples
  rw [hdomain] at htuples hfits
  cases htuples
  obtain ⟨hlength, hcount, hbetween⟩ := Grid.mem_pairs hks
  refine ⟨?_, allReduced_nil hu (by simp [hkind, Binding.isReducible]) _⟩
  intro symbol hsymbol
  rw [hsymbols]
  refine lookup_zip_of_forall₂ (List.forall₂_iff_zip.mpr ⟨hfits.trans hlength.symm, ?_⟩)
    (hu.free symbol hsymbol)
  intro s k hmem
  obtain ⟨hs, hk⟩ := List.of_mem_zip hmem
  obtain ⟨hlow, hhigh⟩ := hbetween k hk
  exact Interaction.spans_of_grid hdomain hs hcount hlow hhigh

theorem serves_of_groups {members : List (List Int)} (hdomain : i.domain = .groups members)
    (hfits : i.domain.Fits i.symbols) (hu : Binding.Allowed u i)
    (h : points i free reductions = .ok ps) (hp : p ∈ ps) : p.Serves i u := by
  have hkind : i.kind = .groups := by rw [Interaction.kind, hdomain]; rfl
  rw [hdomain] at hfits
  obtain ⟨member, hmember⟩ := List.length_eq_one_iff.mp hfits
  unfold points at h
  rw [hdomain] at h
  cases h
  obtain ⟨⟨ks, g⟩, hks, rfl⟩ := List.mem_map.mp hp
  refine ⟨fun symbol hsymbol => ?_, fun symbol hsymbol => ⟨ks, ?_, fun k hk => ?_⟩⟩
  · rw [hu.members hkind] at hsymbol
    cases hsymbol
  · have hsame := hu.reductions symbol hsymbol
    rw [hmember, List.mem_singleton] at hsame
    subst hsame
    simp [hmember]
  · have hsame := hu.reductions symbol hsymbol
    rw [hmember, List.mem_singleton] at hsame
    subst hsame
    exact Interaction.spans_of_group hdomain hmember (List.fst_mem_of_mem_zipIdx hks) hk

theorem serves_of_factor {matrix : Tensor Float} (hdomain : i.domain = .factor matrix)
    (hfits : i.domain.Fits i.symbols) (hu : Binding.Allowed u i)
    (hp : p ∈ columnPoints i.base (i.symbols.headD "") (Interaction.columnCount matrix)) :
    p.Serves i u := by
  have hkind : i.kind = .lowRank := by rw [Interaction.kind, hdomain]; rfl
  rw [hdomain] at hfits
  obtain ⟨column, hcolumn⟩ := List.length_eq_one_iff.mp hfits
  obtain ⟨k, hk, rfl⟩ := List.mem_map.mp hp
  refine ⟨?_, allReduced_nil hu (by simp [hkind, Binding.isReducible]) _⟩
  intro symbol hsymbol
  have hsame := hu.free symbol hsymbol
  rw [hcolumn, List.mem_singleton] at hsame
  subst hsame
  exact ⟨i.base + k, by simp [hcolumn],
    Interaction.spans_of_column hdomain hcolumn (List.mem_range.mp hk)⟩

/-- Whatever the kind of an interaction, each of its points serves a term that is bound to it. -/
theorem serves_of_mem (hfits : i.domain.Fits i.symbols) (hu : Binding.Allowed u i)
    (h : allPoints i.base i (i.symbols.filter (· ∈ u.free)) u.reductions = .ok ps) (hp : p ∈ ps) :
    p.Serves i u := by
  unfold allPoints at h
  rcases hdomain : i.domain with _ | bounds | items | members | ⟨shape, c⟩ | matrix
  all_goals rw [hdomain] at h
  · exact serves_of_single hdomain hfits hu
  · exact serves_of_ranges hdomain hu h hp
  · exact serves_of_tuples hdomain hfits hu h hp
  · exact serves_of_groups hdomain hfits hu h hp
  · exact serves_of_grid hdomain hfits hu h hp
  · cases h
    exact serves_of_factor hdomain hfits hu hp

/-! ## That there are points -/

theorem rangeOf_total {bounds : List Range} {symbol : String} (hdomain : i.domain = .ranges bounds)
    (hfits : i.domain.Fits i.symbols) (hsymbol : symbol ∈ i.symbols) :
    ∃ r, i.rangeOf symbol = .ok r := by
  rw [hdomain] at hfits
  obtain ⟨place, hplace, hlt⟩ := exists_findIdx? hsymbol
  have hbound : place < bounds.length := by
    rw [show bounds.length = i.symbols.length from hfits]
    exact hlt
  refine ⟨bounds[place], ?_⟩
  unfold Interaction.rangeOf
  simp only [hplace, hdomain, List.getElem?_eq_getElem hbound]

/-- A failure to enumerate, if there is one, is due to a range that is too large. -/
def Countable (i : Interaction) (base : Int) (free reductions : List String) : Prop :=
  (∃ ps, allPoints base i free reductions = .ok ps) ∨
    allPoints base i free reductions = Failure.refuse .tooLarge

theorem countable_of_parts (hgroups : i.kind ≠ .groups) (hfactor : i.kind ≠ .lowRank)
    (hdomains : ∃ domains, reductionDomains i reductions = .ok domains)
    (htuples : (∃ tuples, i.tuples (tupleSymbols i free) = .ok tuples) ∨
      i.tuples (tupleSymbols i free) = Failure.refuse .tooLarge) :
    Countable i base free reductions := by
  have hpoints : allPoints base i free reductions = points i free reductions := by
    unfold allPoints
    split
    · rename_i matrix hdomain
      exact absurd (by rw [Interaction.kind, hdomain]; rfl) hfactor
    · rfl
  obtain ⟨domains, hdomains⟩ := hdomains
  unfold Countable
  rw [hpoints]
  unfold points
  split
  · rename_i members hdomain
    exact absurd (by rw [Interaction.kind, hdomain]; rfl) hgroups
  · rw [hdomains]
    rcases htuples with ⟨tuples, htuples⟩ | htuples
    · left
      refine ⟨_, bind_eq_ok.mpr ⟨domains, rfl, bind_eq_ok.mpr ⟨tuples, htuples, rfl⟩⟩⟩
    · right
      dsimp only
      rw [htuples]
      rfl

theorem reductionDomains_nil (hu : Binding.Allowed u i)
    (hkind : Binding.isReducible i.kind = false) :
    ∃ domains, reductionDomains i u.reductions = .ok domains := by
  have hnone : u.reductions = [] := by
    rw [List.eq_nil_iff_forall_not_mem]
    intro symbol hsymbol
    rw [hu.reducible symbol hsymbol] at hkind
    cases hkind
  rw [hnone]
  exact ⟨[], rfl⟩

/-- Ranges can be run through, unless one of them has too many values. -/
theorem rangesOf_ok_or_tooLarge {bounds : List Range} (hdomain : i.domain = .ranges bounds)
    (hfits : i.domain.Fits i.symbols) {symbols : List String}
    (hsymbols : ∀ symbol ∈ symbols, symbol ∈ i.symbols) :
    (∃ rs, i.rangesOf symbols = .ok rs) ∨ i.rangesOf symbols = Failure.refuse .tooLarge := by
  refine mapM_ok_or_error fun symbol hsymbol => ?_
  obtain ⟨r, hr⟩ := rangeOf_total hdomain hfits (hsymbols symbol hsymbol)
  rw [hr]
  change (∃ y, Interaction.countable r = .ok y) ∨ Interaction.countable r = _
  unfold Interaction.countable
  split
  · exact Or.inl ⟨r, rfl⟩
  · exact Or.inr rfl

theorem reductionDomains_total {bounds : List Range} (hdomain : i.domain = .ranges bounds)
    (hfits : i.domain.Fits i.symbols) (hsymbols : ∀ symbol ∈ reductions, symbol ∈ i.symbols) :
    ∃ domains, reductionDomains i reductions = .ok domains := by
  refine mapM_total fun symbol hsymbol => ?_
  obtain ⟨r, hr⟩ := rangeOf_total hdomain hfits (hsymbols symbol hsymbol)
  exact ⟨(symbol, r.values), by rw [hr]; rfl⟩

theorem countable_of_ranges {bounds : List Range} (hdomain : i.domain = .ranges bounds)
    (hfits : i.domain.Fits i.symbols) (hu : Binding.Allowed u i) :
    Countable i base (i.symbols.filter (· ∈ u.free)) u.reductions := by
  have hkind : i.kind = .allIndices := by rw [Interaction.kind, hdomain]; rfl
  refine countable_of_parts (by simp [hkind]) (by simp [hkind])
    (reductionDomains_total hdomain hfits hu.reductions) ?_
  rw [tupleSymbols, hdomain]
  unfold Interaction.tuples
  rw [hdomain]
  dsimp only
  rcases rangesOf_ok_or_tooLarge hdomain hfits fun symbol h => (List.mem_filter.mp h).1 with
    ⟨rs, hrs⟩ | hrs
  · rw [hrs]
    exact Or.inl ⟨_, rfl⟩
  · rw [hrs]
    exact Or.inr rfl

/-- The points of a component can be listed, unless a range has too many values. -/
theorem countable_of_fits (hfits : i.domain.Fits i.symbols) (hu : Binding.Allowed u i) :
    Countable i base (i.symbols.filter (· ∈ u.free)) u.reductions := by
  rcases hdomain : i.domain with _ | bounds | items | members | ⟨shape, c⟩ | matrix
  · have hkind : i.kind = .none := by rw [Interaction.kind, hdomain]; rfl
    refine countable_of_parts (by simp [hkind]) (by simp [hkind])
      (reductionDomains_nil hu (by simp [hkind, Binding.isReducible])) ?_
    exact Or.inl ⟨[[]], by unfold Interaction.tuples; rw [hdomain]⟩
  · exact countable_of_ranges hdomain hfits hu
  · have hkind : i.kind = .sparse := by rw [Interaction.kind, hdomain]; rfl
    refine countable_of_parts (by simp [hkind]) (by simp [hkind])
      (reductionDomains_nil hu (by simp [hkind, Binding.isReducible])) ?_
    exact Or.inl ⟨items, by unfold Interaction.tuples; rw [hdomain]⟩
  · left
    unfold allPoints points
    rw [hdomain]
    exact ⟨_, rfl⟩
  · have hkind : i.kind = .laplacian := by rw [Interaction.kind, hdomain]; rfl
    refine countable_of_parts (by simp [hkind]) (by simp [hkind])
      (reductionDomains_nil hu (by simp [hkind, Binding.isReducible])) ?_
    exact Or.inl ⟨Grid.pairs c shape i.base, by unfold Interaction.tuples; rw [hdomain]⟩
  · left
    unfold allPoints
    rw [hdomain]
    exact ⟨_, rfl⟩

end Energy

end EnergyGraph
