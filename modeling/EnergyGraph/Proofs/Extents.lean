-- How exact the extents of symbols are. The smallest and the largest value are kept of what a
-- symbol takes over all rows of a domain. A pair of neighbours alone is told more widely: each of
-- its symbols gets all cells, although the last cell is never the first of a pair, and the first
-- cell never the second.
import EnergyGraph.Component.Bounds
import EnergyGraph.Proofs.Enumeration
import EnergyGraph.Proofs.Neighbours
import Mathlib.Order.Bounds.Basic

namespace EnergyGraph

/-! ## The first and the last pair of a grid -/

namespace Grid

variable {d k m : Nat} {shape : Shape} {a b : List Nat} {c : Connectivity} {base : Int}

theorem mem_cells_of_offset? (h : shape.offset? a = some m) : a ∈ cells shape := by
  induction shape generalizing a m with
  | nil =>
    cases a with
    | nil => exact List.mem_singleton_self []
    | cons k rest => cases h
  | cons d shape ih =>
    cases a with
    | nil => cases h
    | cons k rest =>
      obtain ⟨hk, n, hn, -⟩ := Shape.offset?_cons_eq_some.mp h
      exact cons_mem_cells.mpr ⟨hk, ih hn⟩

theorem number_lt_cellCount (h : a ∈ cells shape) : number shape a < shape.cellCount :=
  Shape.offset?_lt (offset?_number h)

theorem number_cons (hk : k < d) (ha : a ∈ cells shape) :
    number (d :: shape) (k :: a) = k * shape.cellCount + number shape a := by
  obtain ⟨-, n, hn, heq⟩ :=
    Shape.offset?_cons_eq_some.mp (offset?_number (cons_mem_cells.mpr ⟨hk, ha⟩))
  rw [offset?_number ha] at hn
  cases hn
  exact heq

theorem areClose_self (a : List Nat) : AreClose a a := by
  induction a with
  | nil => trivial
  | cons k a ih => exact ⟨Nat.le_succ k, Nat.le_succ k, ih⟩

/-- Cells one step apart along one axis are neighbours in either sense. -/
theorem areNeighbours_of_axis (h : AreNeighbours .axis a b) : AreNeighbours c a b := by
  cases c with
  | axis => exact h
  | full =>
    obtain ⟨before, after, x, y, rfl, rfl, hstep⟩ := h
    refine ⟨fun heq => ?_, ?_⟩
    · cases List.append_cancel_left heq
      omega
    · induction before with
      | nil => exact ⟨by omega, by omega, areClose_self after⟩
      | cons z before ih => exact ⟨Nat.le_succ z, Nat.le_succ z, ih⟩

/-- The first two cells are one step apart, and so are the last two: along the last axis that has
more than one cell. -/
theorem exists_axis_pair (hm : m + 1 < shape.cellCount) (hend : m = 0 ∨ m + 2 = shape.cellCount) :
    ∃ a ∈ cells shape, ∃ b ∈ cells shape,
      AreNeighbours .axis a b ∧ number shape a = m ∧ number shape b = m + 1 := by
  induction shape generalizing m with
  | nil => exact absurd hm (by simp [Shape.cellCount])
  | cons d shape ih =>
    have hcount : Shape.cellCount (d :: shape) = d * Shape.cellCount shape := rfl
    rw [hcount] at hm hend
    have hd : 0 < d := Nat.pos_of_mul_pos_right (Nat.zero_lt_of_lt hm)
    have hrest : 0 < Shape.cellCount shape := Nat.pos_of_mul_pos_left (Nat.zero_lt_of_lt hm)
    rcases Nat.lt_or_eq_of_le (Nat.succ_le_of_lt hrest) with hmany | hone
    · -- Both cells agree along the first axis: they are at its beginning or at its end.
      obtain ⟨k, hk, r, hr, hrend, hmk⟩ : ∃ k < d, ∃ r, r + 1 < Shape.cellCount shape ∧
          (r = 0 ∨ r + 2 = Shape.cellCount shape) ∧ m = k * Shape.cellCount shape + r := by
        rcases hend with rfl | hend
        · exact ⟨0, hd, 0, hmany, Or.inl rfl, by simp⟩
        · refine ⟨d - 1, by omega, Shape.cellCount shape - 2, by omega, Or.inr (by omega), ?_⟩
          have hlast : (d - 1) * Shape.cellCount shape + Shape.cellCount shape = d * Shape.cellCount shape := by
            rw [← Nat.succ_mul, Nat.succ_eq_add_one, Nat.sub_add_cancel hd]
          omega
      obtain ⟨a, ha, b, hb, hneighbours, hna, hnb⟩ := ih hr hrend
      refine ⟨k :: a, cons_mem_cells.mpr ⟨hk, ha⟩, k :: b, cons_mem_cells.mpr ⟨hk, hb⟩,
        areNeighbours_axis_cons.mpr (Or.inr ⟨rfl, hneighbours⟩), ?_, ?_⟩
      · rw [number_cons hk ha, hna, hmk]
      · rw [number_cons hk hb, hnb, hmk]
        omega
    · -- There is one cell behind each place of the first axis.
      have hzero := Shape.offset?_position hrest
      have hcell := mem_cells_of_offset? hzero
      have hnumber : number shape (Shape.position shape 0) = 0 := by rw [number, hzero]; rfl
      have hmd : m + 1 < d := by
        rw [← hone] at hm
        omega
      refine ⟨m :: Shape.position shape 0, cons_mem_cells.mpr ⟨by omega, hcell⟩,
        (m + 1) :: Shape.position shape 0, cons_mem_cells.mpr ⟨hmd, hcell⟩,
        areNeighbours_axis_cons.mpr (Or.inl ⟨rfl, Or.inl rfl⟩), ?_, ?_⟩
      · rw [number_cons (by omega) hcell, hnumber, ← hone]
        omega
      · rw [number_cons hmd hcell, hnumber, ← hone]
        omega

theorem mem_pairs_of_end (c : Connectivity) (base : Int) (hm : m + 1 < shape.cellCount)
    (hend : m = 0 ∨ m + 2 = shape.cellCount) :
    [(m : Int) + base, (m + 1 : Nat) + base] ∈ pairs c shape base := by
  obtain ⟨a, ha, b, hb, hneighbours, hna, hnb⟩ := exists_axis_pair hm hend
  refine mem_pairs_iff.mpr ⟨a, ha, b, hb, areNeighbours_of_axis hneighbours, by omega, ?_⟩
  rw [hna, hnb]

/-- The first of a pair is not the last cell, and the second not the first one. -/
theorem between_of_mem_pairs {x y : Int} (h : [x, y] ∈ pairs c shape base) :
    base ≤ x ∧ x < y ∧ y ≤ base + shape.cellCount - 1 := by
  obtain ⟨a, -, b, hb, -, hlt, heq⟩ := mem_pairs_iff.mp h
  have hcount := number_lt_cellCount hb
  cases heq
  omega

end Grid

namespace Interaction

variable {i : Interaction} {symbol : String} {k low high : Int} {place : Nat}

/-! ## The values of a symbol -/

/-- All rows of values that the symbols stand for, in order: the tuples, the members of all
groups, or the numbers of the columns. -/
def enumeration (i : Interaction) : List (List Int) :=
  match i.domain with
  | .single => [[]]
  | .ranges _ =>
    match i.symbols.mapM i.rangeOf with
    | .ok rs => Range.tuples rs
    | .error _ => []
  | .tuples items => items
  | .groups members => members.flatten.map ([·])
  | .grid shape c => Grid.pairs c shape i.base
  | .factor matrix => (List.range (columnCount matrix)).map fun (column : Nat) => [i.base + column]

/-- A symbol stands for a value in one of the rows. -/
def Takes (i : Interaction) (symbol : String) (k : Int) : Prop :=
  ∃ ks ∈ i.enumeration, (i.symbols.zip ks).lookup symbol = some k

/-- A value that stands in one of the rows. -/
def Lists (i : Interaction) (k : Int) : Prop := ∃ ks ∈ i.enumeration, k ∈ ks

/-- Numbers with this smallest and this largest one. -/
def Extremes (P : Int → Prop) (low high : Int) : Prop :=
  IsLeast {k | P k} low ∧ IsGreatest {k | P k} high

/-- What an extent says about a symbol: its smallest and its largest value. That of a pair of
neighbours says it of both symbols together; the first of them stops one cell before the end, and
the second begins one cell after the beginning. -/
def Reported (i : Interaction) (symbol : String) (low high : Int) : Prop :=
  if i.kind = .laplacian then
    Extremes i.Lists low high ∧
      if i.symbols.head? = some symbol then Extremes (i.Takes symbol) low (high - 1)
      else Extremes (i.Takes symbol) (low + 1) high
  else Extremes (i.Takes symbol) low high

/-- An extent that is missing stands for no value, and one that is there for the values at its
ends. -/
inductive Told (i : Interaction) (symbol : String) : Option (Int × Int) → Prop where
  | unused (h : ∀ k, ¬ i.Takes symbol k) : Told i symbol none
  | extent {low high : Int} (h : i.Reported symbol low high) : Told i symbol (some (low, high))

/-- The rows of a domain of tuples are its tuples. -/
theorem enumeration_eq_of_tuples {ts : List (List Int)} (h : i.tuples i.symbols = .ok ts) :
    i.enumeration = ts := by
  unfold tuples at h
  unfold enumeration
  rcases hdomain : i.domain with _ | bounds | items | members | ⟨shape, c⟩ | matrix
  all_goals rw [hdomain] at h
  · exact Except.ok.inj h
  · obtain ⟨rs, hrs, h⟩ := bind_eq_ok.mp h
    have hranges : i.symbols.mapM i.rangeOf = .ok rs :=
      mapM_eq_ok.mpr ((mapM_eq_ok.mp hrs).imp fun _ _ => Energy.rangeOf_of_countable)
    dsimp only
    rw [hranges]
    exact Except.ok.inj h
  · exact Except.ok.inj h
  · cases h
  · exact Except.ok.inj h
  · cases h

theorem takes_iff_of_findIdx? (hplace : i.symbols.findIdx? (· == symbol) = some place) :
    i.Takes symbol k ↔ ∃ ks ∈ i.enumeration, ks[place]? = some k :=
  exists_congr fun ks => and_congr_right fun _ => by rw [lookup_zip_of_findIdx? ks hplace]

/-! ## Smallest and largest numbers -/

theorem extent?_eq_none {ks : List Int} (h : extent? ks = none) : ks = [] := by
  cases ks with
  | nil => rfl
  | cons k rest => cases h

theorem extremes_of_extent? {ks : List Int} (h : extent? ks = some (low, high)) :
    Extremes (· ∈ ks) low high := by
  cases ks with
  | nil => cases h
  | cons k rest =>
    cases h
    exact ⟨List.min?_eq_some_iff.mp List.min?_cons', List.max?_eq_some_iff.mp List.max?_cons'⟩

theorem Reported.exists_takes (h : i.Reported symbol low high) : ∃ k, i.Takes symbol k := by
  unfold Reported at h
  split at h
  · obtain ⟨-, h⟩ := h
    split at h
    · exact ⟨_, h.1.1⟩
    · exact ⟨_, h.1.1⟩
  · exact ⟨_, h.1.1⟩

theorem reported_of_extremes (hkind : i.kind ≠ .laplacian)
    (h : Extremes (i.Takes symbol) low high) : i.Reported symbol low high := by
  rw [Reported, if_neg hkind]
  exact h

/-! ## Tuples, groups and columns -/

theorem told_of_tuples {items : List (List Int)} (hdomain : i.domain = .tuples items)
    (hfits : i.domain.Fits i.symbols) (hsymbol : symbol ∈ i.symbols) :
    i.Told symbol (i.extents.lookup symbol) := by
  rw [hdomain] at hfits
  have hkind : i.kind ≠ .laplacian := by simp [kind, hdomain, Domain.kind]
  obtain ⟨place, hplace, hlt⟩ := exists_findIdx? hsymbol
  have htakes : i.Takes symbol = (· ∈ items.filterMap (·[place]?)) := by
    funext k
    rw [takes_iff_of_findIdx? hplace, enumeration, hdomain, List.mem_filterMap]
  cases hextent : extent? (items.filterMap (·[place]?)) with
  | none =>
    have hcolumn := extent?_eq_none hextent
    have hnone : items = [] := by
      refine List.eq_nil_iff_forall_not_mem.mpr fun ks hks => ?_
      rw [← hfits ks hks] at hlt
      have hmem : ks[place] ∈ items.filterMap (·[place]?) :=
        List.mem_filterMap.mpr ⟨ks, hks, List.getElem?_eq_getElem hlt⟩
      rw [hcolumn] at hmem
      cases hmem
    have hextents : i.extents = [] := by simp [extents, hdomain, hnone, extent?, named]
    rw [hextents]
    refine .unused fun k hk => ?_
    rw [htakes, hcolumn] at hk
    cases hk
  | some e =>
    have hlookup : i.extents.lookup symbol = some e := by
      unfold extents
      rw [hdomain]
      dsimp only
      rw [List.zipIdx_eq_zip_range']
      exact lookup_named_zip (fun place => extent? (items.filterMap (·[place]?))) hplace
        (by simp [hlt]) hextent
    rw [hlookup]
    refine .extent (reported_of_extremes hkind ?_)
    rw [htakes]
    exact extremes_of_extent? hextent

/-- A symbol alone stands for the values of rows of one value. -/
theorem takes_iff_of_single {ks : List Int} (hsymbols : i.symbols = [symbol])
    (hrows : i.enumeration = ks.map ([·])) : i.Takes symbol = (· ∈ ks) := by
  funext k
  simp [Takes, hsymbols, hrows]

theorem lookup_named_single (e : Option (Int × Int)) :
    (([symbol].take 1).flatMap fun s => named s e).lookup symbol = e := by
  cases e with
  | none => rfl
  | some e => exact lookup_named_all (List.mem_singleton_self symbol)

theorem told_of_groups {members : List (List Int)} (hdomain : i.domain = .groups members)
    (hsymbols : i.symbols = [symbol]) : i.Told symbol (i.extents.lookup symbol) := by
  have hkind : i.kind ≠ .laplacian := by simp [kind, hdomain, Domain.kind]
  have htakes : i.Takes symbol = (· ∈ members.flatten) :=
    takes_iff_of_single hsymbols (by rw [enumeration, hdomain])
  have hlookup : i.extents.lookup symbol = extent? members.flatten := by
    rw [extents, hdomain, hsymbols]
    exact lookup_named_single _
  rw [hlookup]
  cases hextent : extent? members.flatten with
  | none =>
    refine .unused fun k hk => ?_
    rw [htakes, extent?_eq_none hextent] at hk
    cases hk
  | some e =>
    refine .extent (reported_of_extremes hkind ?_)
    rw [htakes]
    exact extremes_of_extent? hextent

theorem told_of_factor {matrix : Tensor Float} (hdomain : i.domain = .factor matrix)
    (hsymbols : i.symbols = [symbol]) : i.Told symbol (i.extents.lookup symbol) := by
  have hkind : i.kind ≠ .laplacian := by simp [kind, hdomain, Domain.kind]
  have htakes : i.Takes symbol =
      (· ∈ (List.range (columnCount matrix)).map fun (column : Nat) => i.base + column) :=
    takes_iff_of_single hsymbols (by rw [enumeration, hdomain, List.map_map]; rfl)
  have hlookup : i.extents.lookup symbol = span? i.base (columnCount matrix) := by
    rw [extents, hdomain, hsymbols]
    exact lookup_named_single _
  rw [hlookup, span?]
  split
  · rename_i hcount
    refine .unused fun k hk => ?_
    rw [htakes, hcount] at hk
    cases hk
  · rename_i hcount
    refine .extent (reported_of_extremes hkind ?_)
    rw [htakes]
    refine ⟨⟨?_, ?_⟩, ⟨?_, ?_⟩⟩
    · exact List.mem_map.mpr ⟨0, List.mem_range.mpr (by omega), by simp⟩
    · rintro k hk
      obtain ⟨column, -, rfl⟩ := List.mem_map.mp hk
      omega
    · exact List.mem_map.mpr
        ⟨columnCount matrix - 1, List.mem_range.mpr (by omega), by omega⟩
    · rintro k hk
      obtain ⟨column, hcolumn, rfl⟩ := List.mem_map.mp hk
      have hlt := List.mem_range.mp hcolumn
      omega

/-! ## Ranges -/

/-- Some row of non-empty ranges has a given value of one of them at its symbol. -/
theorem exists_row {symbols : List String} {rs : List Range} {r : Range}
    (h : List.Forall₂ (fun s r => i.rangeOf s = .ok r) symbols rs)
    (hsome : ∀ s r, i.rangeOf s = .ok r → r.low ≤ r.high) (hr : i.rangeOf symbol = .ok r)
    (hk : k ∈ r.values) (hsymbol : symbol ∈ symbols) :
    ∃ ks ∈ Range.tuples rs, (symbols.zip ks).lookup symbol = some k := by
  suffices hrow : ∃ ks, List.Forall₂ (fun r k => k ∈ r.values) rs ks ∧
      List.Forall₂ (fun s k' => s = symbol → k' = k) symbols ks by
    obtain ⟨ks, hmem, hat⟩ := hrow
    obtain ⟨k', hlookup, heq⟩ := lookup_zip_of_forall₂ hat hsymbol
    rw [heq rfl] at hlookup
    exact ⟨ks, Range.mem_tuples.mpr hmem, hlookup⟩
  clear hsymbol
  induction h with
  | nil => exact ⟨[], .nil, .nil⟩
  | @cons s r' symbols rs hs _ ih =>
    obtain ⟨ks, hmem, hat⟩ := ih
    by_cases hsame : s = symbol
    · subst hsame
      rw [hr] at hs
      cases hs
      exact ⟨k :: ks, .cons hk hmem, .cons (fun _ => rfl) hat⟩
    · have hlow : r'.low ∈ r'.values :=
        Range.mem_values.mpr ⟨Int.le_refl _, hsome s r' hs⟩
      exact ⟨r'.low :: ks, .cons hlow hmem, .cons (fun h => absurd h hsame) hat⟩

theorem told_of_ranges {bounds : List Range} (hdomain : i.domain = .ranges bounds)
    (hfits : i.domain.Fits i.symbols) (hsome : ∀ r ∈ bounds, r.low ≤ r.high)
    (hsymbol : symbol ∈ i.symbols) : i.Told symbol (i.extents.lookup symbol) := by
  have hkind : i.kind ≠ .laplacian := by simp [kind, hdomain, Domain.kind]
  obtain ⟨r, hr⟩ := Energy.rangeOf_total hdomain hfits hsymbol
  obtain ⟨place, hplace, hbound⟩ := rangeOf_eq_ok hdomain hr
  have hnonempty (s : String) (r : Range) (hs : i.rangeOf s = .ok r) : r.low ≤ r.high := by
    obtain ⟨_, -, hmem⟩ := rangeOf_eq_ok hdomain hs
    exact hsome r (List.mem_of_getElem? hmem)
  have hle := hnonempty symbol r hr
  have hlookup : i.extents.lookup symbol = some (r.low, r.high) := by
    unfold extents
    rw [hdomain]
    exact lookup_named_zip (fun r => if r.low ≤ r.high then some (r.low, r.high) else none)
      hplace hbound (if_pos hle)
  obtain ⟨rs, hrs⟩ : ∃ rs, i.symbols.mapM i.rangeOf = .ok rs :=
    mapM_total fun s hs => Energy.rangeOf_total hdomain hfits hs
  have hall := mapM_eq_ok.mp hrs
  have hrows : i.enumeration = Range.tuples rs := by
    rw [enumeration, hdomain]
    dsimp only
    rw [hrs]
  have htakes (k : Int) : i.Takes symbol k ↔ r.low ≤ k ∧ k ≤ r.high := by
    rw [← Range.mem_values]
    constructor
    · rintro ⟨ks, hks, hk⟩
      rw [hrows] at hks
      have hvalues := forall₂_comp hall (Range.mem_tuples.mp hks)
        (T := fun s k => ∃ r, i.rangeOf s = .ok r ∧ k ∈ r.values) fun s r k hs hk => ⟨r, hs, hk⟩
      obtain ⟨k', hk', r', hr', hmem⟩ := lookup_zip_of_forall₂ hvalues hsymbol
      rw [hk] at hk'
      rw [hr] at hr'
      cases hk'
      cases hr'
      exact hmem
    · intro hk
      obtain ⟨ks, hks, hlookup⟩ := exists_row hall hnonempty hr hk hsymbol
      exact ⟨ks, by rwa [hrows], hlookup⟩
  rw [hlookup]
  refine .extent (reported_of_extremes hkind ⟨⟨?_, ?_⟩, ⟨?_, ?_⟩⟩)
  · exact (htakes _).mpr ⟨Int.le_refl _, hle⟩
  · exact fun k hk => ((htakes k).mp hk).1
  · exact (htakes _).mpr ⟨hle, Int.le_refl _⟩
  · exact fun k hk => ((htakes k).mp hk).2

/-! ## Pairs of neighbours -/

section

variable {shape : Shape} {c : Grid.Connectivity}

/-- The rows of a grid of several cells hold all values from the first cell to the last but one at
the first place, and from the second cell to the last at the second place. -/
theorem extremes_of_pairs (c : Grid.Connectivity) (base : Int) (hcount : 1 < shape.cellCount) :
    Extremes (fun k => ∃ ks ∈ Grid.pairs c shape base, ks[0]? = some k)
        base (base + shape.cellCount - 1 - 1) ∧
      Extremes (fun k => ∃ ks ∈ Grid.pairs c shape base, ks[1]? = some k)
        (base + 1) (base + shape.cellCount - 1) ∧
      Extremes (fun k => ∃ ks ∈ Grid.pairs c shape base, k ∈ ks)
        base (base + shape.cellCount - 1) := by
  have hfirst : [base, base + 1] ∈ Grid.pairs c shape base := by
    have h := Grid.mem_pairs_of_end c base (by omega : 0 + 1 < shape.cellCount) (Or.inl rfl)
    simpa [Int.add_comm] using h
  have hlast : [base + shape.cellCount - 1 - 1, base + shape.cellCount - 1] ∈
      Grid.pairs c shape base := by
    have h := Grid.mem_pairs_of_end c base
      (by omega : shape.cellCount - 2 + 1 < shape.cellCount) (Or.inr (by omega))
    have hx : ((shape.cellCount - 2 : Nat) : Int) + base = base + shape.cellCount - 1 - 1 := by
      omega
    have hy : ((shape.cellCount - 2 + 1 : Nat) : Int) + base = base + shape.cellCount - 1 := by
      omega
    rwa [hx, hy] at h
  have hpair (ks : List Int) (hks : ks ∈ Grid.pairs c shape base) :
      ∃ x y, ks = [x, y] ∧ base ≤ x ∧ x < y ∧ y ≤ base + shape.cellCount - 1 := by
    obtain ⟨x, y, rfl⟩ := List.length_eq_two.mp (Grid.mem_pairs hks).1
    exact ⟨x, y, rfl, Grid.between_of_mem_pairs hks⟩
  refine ⟨⟨⟨⟨_, hfirst, rfl⟩, ?_⟩, ⟨⟨_, hlast, rfl⟩, ?_⟩⟩,
    ⟨⟨⟨_, hfirst, rfl⟩, ?_⟩, ⟨⟨_, hlast, rfl⟩, ?_⟩⟩,
    ⟨⟨⟨_, hfirst, by simp⟩, ?_⟩, ⟨⟨_, hlast, by simp⟩, ?_⟩⟩⟩
  all_goals
    rintro k ⟨ks, hks, hk⟩
    obtain ⟨x, y, rfl, hbetween⟩ := hpair ks hks
    simp at hk
    omega

theorem told_of_grid (hdomain : i.domain = .grid shape c) (hfits : i.domain.Fits i.symbols)
    (hsymbol : symbol ∈ i.symbols) : i.Told symbol (i.extents.lookup symbol) := by
  rw [hdomain] at hfits
  obtain ⟨s, t, hsymbols⟩ := List.length_eq_two.mp hfits
  have hrows : i.enumeration = Grid.pairs c shape i.base := by rw [enumeration, hdomain]
  by_cases hcount : 1 < shape.cellCount
  · have hlookup : i.extents.lookup symbol = some (i.base, i.base + shape.cellCount - 1) := by
      unfold extents
      rw [hdomain]
      dsimp only
      rw [if_pos hcount, span?, if_neg (by omega)]
      exact lookup_named_all hsymbol
    obtain ⟨hzero, hone, hboth⟩ := extremes_of_pairs c i.base hcount
    have hlists : Extremes i.Lists i.base (i.base + shape.cellCount - 1) := by
      unfold Lists
      rwa [hrows]
    rw [hlookup]
    refine .extent ?_
    rw [Reported, if_pos (by rw [kind, hdomain]; rfl)]
    refine ⟨hlists, ?_⟩
    have hhead : i.symbols.head? = some symbol ↔ s = symbol := by simp [hsymbols]
    split
    · rename_i hs
      rw [hhead] at hs
      have hplace : i.symbols.findIdx? (· == symbol) = some 0 := by
        simp [hsymbols, hs, List.findIdx?_cons]
      have htakes : i.Takes symbol = fun k => ∃ ks ∈ i.enumeration, ks[0]? = some k :=
        funext fun k => propext (takes_iff_of_findIdx? hplace)
      rwa [htakes, hrows]
    · rename_i hs
      rw [hhead] at hs
      have ht : t = symbol := by
        rw [hsymbols] at hsymbol
        simpa [Ne.symm hs, eq_comm] using hsymbol
      have hplace : i.symbols.findIdx? (· == symbol) = some 1 := by
        simp [hsymbols, hs, ht, List.findIdx?_cons]
      have htakes : i.Takes symbol = fun k => ∃ ks ∈ i.enumeration, ks[1]? = some k :=
        funext fun k => propext (takes_iff_of_findIdx? hplace)
      rwa [htakes, hrows]
  · have hextents : i.extents = [] := by simp [extents, hdomain, hcount, named]
    rw [hextents]
    refine .unused ?_
    rintro k ⟨ks, hks, -⟩
    rw [hrows] at hks
    exact hcount (Grid.mem_pairs hks).2.1

end

/-! ## All kinds -/

/-- The extents of an interaction say what its symbols stand for. -/
theorem told_of_fits (hfits : i.domain.Fits i.symbols)
    (hsome : ∀ bounds, i.domain = .ranges bounds → ∀ r ∈ bounds, r.low ≤ r.high)
    (hsymbol : symbol ∈ i.symbols) : i.Told symbol (i.extents.lookup symbol) := by
  rcases hdomain : i.domain with _ | bounds | items | members | ⟨shape, c⟩ | matrix
  · rw [hdomain] at hfits
    rw [show i.symbols = [] from hfits] at hsymbol
    cases hsymbol
  · exact told_of_ranges hdomain hfits (hsome bounds hdomain) hsymbol
  · exact told_of_tuples hdomain hfits hsymbol
  · rw [hdomain] at hfits
    obtain ⟨s, hs⟩ := List.length_eq_one_iff.mp hfits
    rw [hs, List.mem_singleton] at hsymbol
    subst hsymbol
    exact told_of_groups hdomain hs
  · exact told_of_grid hdomain hfits hsymbol
  · rw [hdomain] at hfits
    obtain ⟨s, hs⟩ := List.length_eq_one_iff.mp hfits
    rw [hs, List.mem_singleton] at hsymbol
    subst hsymbol
    exact told_of_factor hdomain hs

theorem fst_of_mem_named {p : String × Int × Int} {o : Option (Int × Int)}
    (h : p ∈ named symbol o) : p.1 = symbol := by
  cases o with
  | none => cases h
  | some e =>
    obtain rfl := List.mem_singleton.mp h
    rfl

theorem mem_symbols_of_mem {p : String × Int × Int} (h : p ∈ i.extents) : p.1 ∈ i.symbols := by
  unfold extents at h
  split at h
  · cases h
  · obtain ⟨⟨s, r⟩, hs, h⟩ := List.mem_flatMap.mp h
    rw [fst_of_mem_named h]
    exact (List.of_mem_zip hs).1
  · obtain ⟨⟨s, place⟩, hs, h⟩ := List.mem_flatMap.mp h
    rw [fst_of_mem_named h]
    exact List.fst_mem_of_mem_zipIdx hs
  · obtain ⟨s, hs, h⟩ := List.mem_flatMap.mp h
    rw [fst_of_mem_named h]
    exact List.mem_of_mem_take hs
  · obtain ⟨s, hs, h⟩ := List.mem_flatMap.mp h
    rw [fst_of_mem_named h]
    exact hs
  · obtain ⟨s, hs, h⟩ := List.mem_flatMap.mp h
    rw [fst_of_mem_named h]
    exact List.mem_of_mem_take hs

/-- Only symbols of an interaction have an extent. -/
theorem mem_symbols_of_lookup {e : Int × Int} (h : i.extents.lookup symbol = some e) :
    symbol ∈ i.symbols := by
  by_contra hsymbol
  have hnone : i.extents.lookup symbol = none := by
    refine List.lookup_eq_none_iff.mpr fun p hp => ?_
    rw [bne_iff_ne]
    rintro rfl
    exact hsymbol (mem_symbols_of_mem hp)
  rw [hnone] at h
  cases h

/-! ## The check of bounds -/

/-- A value that an index has: its number, or a value of its symbol. Of a pair of neighbours
either cell counts. -/
def Has (i : Interaction) : Index → Int → Prop
  | .literal n _, k => k = n
  | .symbol name _, k =>
    name ∈ i.symbols ∧ if i.kind = .laplacian then i.Lists k else i.Takes name k

/-- The check of bounds looks at values that the index has. -/
theorem has_of_mem_candidates (hfits : i.domain.Fits i.symbols)
    (hsome : ∀ bounds, i.domain = .ranges bounds → ∀ r ∈ bounds, r.low ≤ r.high) {index : Index}
    (hk : k ∈ Bounds.candidates i.extents index) : i.Has index k := by
  cases index with
  | literal n span => exact List.mem_singleton.mp hk
  | symbol name span =>
    rw [Bounds.candidates] at hk
    split at hk
    · rename_i low high hextent
      have hname := mem_symbols_of_lookup hextent
      have htold := told_of_fits hfits hsome hname
      rw [hextent] at htold
      cases htold with
      | extent hreported =>
        refine ⟨hname, ?_⟩
        unfold Reported at hreported
        simp only [List.mem_cons, List.not_mem_nil, or_false] at hk
        split
        · rename_i hkind
          rw [if_pos hkind] at hreported
          rcases hk with rfl | rfl
          · exact hreported.1.1.1
          · exact hreported.1.2.1
        · rename_i hkind
          rw [if_neg hkind] at hreported
          rcases hk with rfl | rfl
          · exact hreported.1.1
          · exact hreported.2.1
    · cases hk

end Interaction

namespace Bounds

variable {exprs : List Expr} {i : Interaction} {shapes : List (String × Shape)} {base k b : Int}
  {interaction array : String} {axis dimension : Nat}

theorem exists_of_forM_error {ε β : Type} {f : β → Except ε Unit} {xs : List β} {e : ε}
    (h : xs.forM f = .error e) : ∃ x ∈ xs, f x = .error e := by
  induction xs with
  | nil => cases h
  | cons x xs ih =>
    rcases bind_eq_error.mp (h : (f x >>= fun _ => xs.forM f) = .error e) with hx | ⟨_, -, hxs⟩
    · exact ⟨x, List.mem_cons_self, hx⟩
    · obtain ⟨y, hy, hfy⟩ := ih hxs
      exact ⟨y, List.mem_cons_of_mem x hy, hfy⟩

theorem outside?_eq_some {extents : List (String × Int × Int)} {indices : List Index}
    {shape : Shape} (h : outside? extents base indices shape = some (k, axis, dimension)) :
    shape[axis]? = some dimension ∧ ∃ index, indices[axis]? = some index ∧
      k ∈ candidates extents index ∧ ¬ (base ≤ k ∧ k ≤ base + dimension - 1) := by
  obtain ⟨⟨⟨index, d⟩, place⟩, hplace, h⟩ := List.exists_of_findSome?_eq_some h
  obtain ⟨k', hfind, heq⟩ := Option.map_eq_some_iff.mp h
  cases heq
  obtain ⟨hindex, hd⟩ :=
    List.getElem?_zip_eq_some.mp (List.mk_mem_zipIdx_iff_getElem?.mp hplace)
  refine ⟨hd, index, hindex, List.mem_of_find?_eq_some hfind, ?_⟩
  have hout := List.find?_some hfind
  simp only [isInside, Bool.not_eq_true', Bool.and_eq_false_iff, decide_eq_false_iff_not] at hout
  omega

/-- Some index in the expressions, on this axis of this array, has a value outside of the axis. -/
def Oversteps (exprs : List Expr) (i : Interaction) (shapes : List (String × Shape)) (base : Int)
    (array : String) (k : Int) (axis dimension : Nat) : Prop :=
  ∃ indices span shape index, .expr (.ref array indices span) ∈ exprs.flatMap Expr.walk ∧
    shapes.lookup array = some shape ∧ shape[axis]? = some dimension ∧
    indices[axis]? = some index ∧ i.Has index k ∧ ¬ (base ≤ k ∧ k ≤ base + dimension - 1)

/-- A number that the check reports is one that an index really has there. -/
theorem oversteps_of_check (hfits : i.domain.Fits i.symbols)
    (hsome : ∀ bounds, i.domain = .ranges bounds → ∀ r ∈ bounds, r.low ≤ r.high)
    (h : check exprs i shapes base = .error (.outside interaction array k axis dimension b)) :
    Oversteps exprs i shapes base array k axis dimension := by
  obtain ⟨part, hpart, h⟩ := exists_of_forM_error h
  unfold checkReference at h
  split at h
  · rename_i name first rest span
    dsimp only at h
    split at h
    · cases h
    · rename_i shape hshape
      split at h
      · cases h
      · split at h
        · rename_i houtside
          cases h
          obtain ⟨hdimension, index, hindex, hk, hout⟩ := outside?_eq_some houtside
          exact ⟨_, span, shape, index, hpart, hshape, hdimension, hindex,
            Interaction.has_of_mem_candidates hfits hsome hk, hout⟩
        · cases h
  · cases h

end Bounds

namespace Interaction

variable {s : Surroundings} {d : InteractionDecl} {i : Interaction}

/-- The extents of an interaction tell the smallest and the largest value of each symbol that takes
any, and of the two symbols of neighbours those of both together. So an index that the check of
bounds finds outside of an array has that value somewhere. -/
theorem extents_exact (h : resolve s d = .ok i)
    (hsome : ∀ bounds, i.domain = .ranges bounds → ∀ r ∈ bounds, r.low ≤ r.high) :
    (∀ ts, i.tuples i.symbols = .ok ts → i.enumeration = ts) ∧
    (∀ symbol ∈ i.symbols, (i.extents.lookup symbol = none ↔ ∀ k, ¬ i.Takes symbol k) ∧
      ∀ low high, i.extents.lookup symbol = some (low, high) → i.Reported symbol low high) ∧
    ∀ exprs shapes base interaction array k axis dimension b,
      Bounds.check exprs i shapes base = .error (.outside interaction array k axis dimension b) →
      Bounds.Oversteps exprs i shapes base array k axis dimension := by
  have hfits := (fits_of_resolve h).1
  refine ⟨fun ts => enumeration_eq_of_tuples, fun symbol hsymbol => ?_, ?_⟩
  · have htold := told_of_fits hfits hsome hsymbol
    refine ⟨⟨fun hnone => ?_, fun hunused => ?_⟩, fun low high hextent => ?_⟩
    · rw [hnone] at htold
      cases htold with
      | unused hunused => exact hunused
    · generalize i.extents.lookup symbol = e at htold
      cases htold with
      | unused => rfl
      | extent hreported =>
        obtain ⟨k, hk⟩ := hreported.exists_takes
        exact absurd hk (hunused k)
    · rw [hextent] at htold
      cases htold with
      | extent hreported => exact hreported
  · intro exprs shapes base interaction array k axis dimension b hcheck
    exact Bounds.oversteps_of_check hfits hsome hcheck

/-! ## Two cells -/

def twoCells : InteractionDecl := ⟨"it", .laplacian, none, [("dims", .list [.int 2])], false⟩

def noData : Surroundings :=
  ⟨Store.lookup ⟨[], [], none, .standard⟩ ⟨[], []⟩, [], 0, ⟨[], []⟩, none⟩

/-- The pair of both cells. -/
def bothCells : Interaction := ⟨"it", ["i", "j"], .grid [2] .axis, 0⟩

theorem resolve_twoCells : resolve noData twoCells = .ok bothCells := by
  with_unfolding_all rfl

theorem takes_bothCells {symbol : String} {k : Int} :
    bothCells.Takes symbol k ↔ (["i", "j"].zip [0, 1]).lookup symbol = some k := by
  have hrows : bothCells.enumeration = [[0, 1]] := by decide
  unfold Takes
  rw [hrows]
  simp [bothCells]

/-- The reference `x[i]`. -/
def atFirst : Expr := .ref "x" [.symbol "i" ⟨2, 3⟩] ⟨0, 4⟩

theorem check_bothCells : Bounds.check [atFirst] bothCells [("x", [1])] 0 =
    .error (.outside "it" "x" 1 0 1 0) := by
  with_unfolding_all rfl

/-- The second of two cells is told to be a value of the first symbol too, which stands for the
first cell alone. So an array with a place for every value of an index is refused. -/
theorem extents_too_wide : resolve noData twoCells = .ok bothCells ∧
    bothCells.extents.lookup "i" = some (0, 1) ∧ ¬ Extremes (bothCells.Takes "i") 0 1 ∧
    Bounds.check [atFirst] bothCells [("x", [1])] 0 = .error (.outside "it" "x" 1 0 1 0) ∧
    ¬ bothCells.Takes "i" 1 := by
  have hone : ¬ bothCells.Takes "i" 1 := by
    rw [takes_bothCells]
    decide
  exact ⟨resolve_twoCells, by decide, fun h => hone h.2.1, check_bothCells, hone⟩

/-- The extents of two cells, and the values that the symbols have. -/
theorem extents_exact_two_cells :
    (∀ ts, bothCells.tuples bothCells.symbols = .ok ts → bothCells.enumeration = ts) ∧
    bothCells.Reported "i" 0 1 ∧ bothCells.Reported "j" 0 1 ∧
    Bounds.Oversteps [atFirst] bothCells [("x", [1])] 0 "x" 1 0 1 := by
  obtain ⟨hrows, hextents, hcheck⟩ :=
    extents_exact resolve_twoCells fun bounds h => nomatch h
  exact ⟨hrows, (hextents "i" (by decide)).2 0 1 (by decide),
    (hextents "j" (by decide)).2 0 1 (by decide), hcheck _ _ _ _ _ _ _ _ _ check_bothCells⟩

end Interaction

end EnergyGraph
