-- The pairs of neighbours in a grid. An offset and the cell that it leads to determine each other,
-- so offsets in lexicographic order lead to cells in lexicographic order, and that is the order of
-- their numbers. Each pair is therefore met once, from its smaller cell, and the pairs come out in
-- increasing order.
import EnergyGraph.Grid
import EnergyGraph.Proofs.Positions
import Mathlib.Algebra.GroupWithZero.Nat

namespace EnergyGraph

namespace Grid

variable {d k v : Nat} {shape : Shape} {a b b' cell rest : List Nat} {o o' : List Int} {s : Int}

/-! ## Cells and their numbers -/

theorem mem_cells_cons : cell ∈ cells (d :: shape) ↔ ∃ k < d, ∃ rest ∈ cells shape, cell = k :: rest := by
  simp only [cells, List.mem_flatMap, List.mem_range, List.mem_map, eq_comm]

theorem cons_mem_cells : k :: rest ∈ cells (d :: shape) ↔ k < d ∧ rest ∈ cells shape := by
  rw [mem_cells_cons]
  constructor
  · rintro ⟨_, hk, _, hrest, ⟨⟩⟩
    exact ⟨hk, hrest⟩
  · rintro ⟨hk, hrest⟩
    exact ⟨k, hk, rest, hrest, rfl⟩

theorem offset?_number (h : a ∈ cells shape) : shape.offset? a = some (number shape a) := by
  suffices hsome : ∃ n, shape.offset? a = some n by
    obtain ⟨n, hn⟩ := hsome
    rw [number, hn, Option.getD_some]
  induction shape generalizing a with
  | nil =>
    obtain rfl := List.mem_singleton.mp h
    exact ⟨0, rfl⟩
  | cons d shape ih =>
    obtain ⟨k, hk, rest, hrest, rfl⟩ := mem_cells_cons.mp h
    obtain ⟨n, hn⟩ := ih hrest
    exact ⟨_, Shape.offset?_cons_eq_some.mpr ⟨hk, n, hn, rfl⟩⟩

/-- Cells are numbered in lexicographic order. -/
theorem number_lt_number_iff (ha : a ∈ cells shape) (hb : b ∈ cells shape) :
    number shape a < number shape b ↔ a < b :=
  Shape.offset?_lt_offset?_iff (offset?_number ha) (offset?_number hb)

/-- How far apart the cells along each axis are that differ by one there. -/
def strides : Shape → List Nat
  | [] => []
  | _ :: shape => Shape.cellCount shape :: strides shape

/-- The row-major place of a cell: its coordinates, each times the stride of its axis. -/
def flatIndex (shape : Shape) (cell : List Nat) : Nat :=
  (List.zipWith (· * ·) cell (strides shape)).sum

theorem number_eq_flatIndex (h : a ∈ cells shape) : number shape a = flatIndex shape a := by
  induction shape generalizing a with
  | nil =>
    obtain rfl := List.mem_singleton.mp h
    rfl
  | cons d shape ih =>
    obtain ⟨k, hk, rest, hrest, rfl⟩ := mem_cells_cons.mp h
    obtain ⟨_, n, hn, heq⟩ := Shape.offset?_cons_eq_some.mp (offset?_number h)
    rw [offset?_number hrest] at hn
    cases hn
    rw [heq, ih hrest, flatIndex, flatIndex, strides, List.zipWith_cons_cons, List.sum_cons]

/-- Lists that are put together from items in order are in order. -/
theorem pairwise_flatMap_cons {α : Type} [LT α] {ks : List α} {tails : List (List α)}
    (hks : ks.Pairwise (· < ·)) (htails : tails.Pairwise (· < ·)) :
    (ks.flatMap fun k => tails.map (k :: ·)).Pairwise (· < ·) := by
  refine List.pairwise_flatMap.mpr ⟨fun k _ => ?_, hks.imp fun {k l} hkl => ?_⟩
  · refine List.pairwise_map.mpr (htails.imp fun {x y} hxy => ?_)
    exact List.cons_lt_cons_iff.mpr (Or.inr ⟨rfl, hxy⟩)
  · intro x hx y hy
    obtain ⟨x, -, rfl⟩ := List.mem_map.mp hx
    obtain ⟨y, -, rfl⟩ := List.mem_map.mp hy
    exact List.cons_lt_cons_iff.mpr (Or.inl hkl)

theorem pairwise_cells (shape : Shape) : (cells shape).Pairwise (· < ·) := by
  induction shape with
  | nil => exact List.pairwise_singleton _ _
  | cons d shape ih => exact pairwise_flatMap_cons List.pairwise_lt_range ih

/-! ## Offsets -/

theorem length_still (n : Nat) : (still n).length = n := List.length_replicate

theorem length_of_mem_axisOffsets {n : Nat} (h : o ∈ axisOffsets n) : o.length = n := by
  induction n generalizing o with
  | zero => cases h
  | succ n ih =>
    simp only [axisOffsets, List.mem_append, List.mem_cons, List.mem_map, List.not_mem_nil,
      or_false] at h
    rcases h with (rfl | ⟨o, ho, rfl⟩) | rfl
    · rw [List.length_cons, length_still]
    · rw [List.length_cons, ih ho]
    · rw [List.length_cons, length_still]

theorem mem_allOffsets_succ {n : Nat} : o ∈ allOffsets (n + 1) ↔
    ∃ s ∈ [-1, 0, 1], ∃ rest ∈ allOffsets n, o = s :: rest := by
  simp only [allOffsets, List.mem_flatMap, List.mem_map, eq_comm]

theorem length_of_mem_allOffsets {n : Nat} (h : o ∈ allOffsets n) : o.length = n := by
  induction n generalizing o with
  | zero =>
    obtain rfl := List.mem_singleton.mp h
    rfl
  | succ n ih =>
    obtain ⟨s, -, rest, hrest, rfl⟩ := mem_allOffsets_succ.mp h
    rw [List.length_cons, ih hrest]

theorem length_of_mem_offsets {c : Connectivity} {n : Nat} (h : o ∈ offsets c n) :
    o.length = n := by
  cases c with
  | axis => exact length_of_mem_axisOffsets h
  | full => exact length_of_mem_allOffsets (List.mem_filter.mp h).1

theorem pairwise_axisOffsets (n : Nat) : (axisOffsets n).Pairwise (· < ·) := by
  induction n with
  | zero => exact .nil
  | succ n ih =>
    have hback {r r' : List Int} : (-1 :: r) < (0 :: r') := List.cons_lt_cons_iff.mpr (by simp)
    have hahead {r r' : List Int} : (0 :: r) < (1 :: r') := List.cons_lt_cons_iff.mpr (by simp)
    have hboth {r r' : List Int} : (-1 :: r) < (1 :: r') := List.cons_lt_cons_iff.mpr (by simp)
    rw [axisOffsets, List.pairwise_append, List.pairwise_cons, List.pairwise_map]
    refine ⟨⟨fun x hx => ?_, ih.imp fun {x y} hxy => ?_⟩, List.pairwise_singleton _ _, ?_⟩
    · obtain ⟨x, -, rfl⟩ := List.mem_map.mp hx
      exact hback
    · exact List.cons_lt_cons_iff.mpr (Or.inr ⟨rfl, hxy⟩)
    · intro x hx y hy
      obtain rfl := List.mem_singleton.mp hy
      rcases List.mem_cons.mp hx with rfl | hx
      · exact hboth
      · obtain ⟨x, -, rfl⟩ := List.mem_map.mp hx
        exact hahead

theorem pairwise_allOffsets (n : Nat) : (allOffsets n).Pairwise (· < ·) := by
  induction n with
  | zero => exact List.pairwise_singleton _ _
  | succ n ih => exact pairwise_flatMap_cons (by decide) ih

theorem pairwise_offsets (c : Connectivity) (n : Nat) : (offsets c n).Pairwise (· < ·) := by
  cases c with
  | axis => exact pairwise_axisOffsets n
  | full => exact (pairwise_allOffsets n).filter _

/-! ## Where an offset leads -/

theorem move?_eq_some_iff : move? d k s = some v ↔ (v : Int) = k + s ∧ v < d := by
  unfold move?
  dsimp only
  split
  · rw [Option.some.injEq]
    omega
  · constructor
    · rintro ⟨⟩
    · rintro ⟨hv, hlt⟩
      omega

theorem shift?_cons_eq_some_iff : shift? (d :: shape) (k :: cell) (s :: o) = some b ↔
    ∃ v rest, move? d k s = some v ∧ shift? shape cell o = some rest ∧ b = v :: rest := by
  simp only [shift?, Option.bind_eq_bind, Option.bind_eq_some_iff, Option.some.injEq,
    exists_and_left, eq_comm (a := b)]

theorem mem_of_shift? (ho : o.length = shape.length) (ha : a ∈ cells shape)
    (h : shift? shape a o = some b) : b ∈ cells shape := by
  induction shape generalizing a o b with
  | nil =>
    cases h
    exact List.mem_singleton_self []
  | cons d shape ih =>
    obtain ⟨k, -, cell, hcell, rfl⟩ := mem_cells_cons.mp ha
    obtain ⟨s, o, rfl⟩ := List.exists_cons_of_length_eq_add_one ho
    obtain ⟨v, rest, hv, hrest, rfl⟩ := shift?_cons_eq_some_iff.mp h
    exact cons_mem_cells.mpr
      ⟨(move?_eq_some_iff.mp hv).2, ih (Nat.succ.inj ho) hcell hrest⟩

/-- The earlier offset leads to the earlier cell. -/
theorem shift?_lt (ho : o.length = shape.length) (ho' : o'.length = shape.length)
    (ha : a ∈ cells shape) (hb : shift? shape a o = some b) (hb' : shift? shape a o' = some b')
    (h : o < o') : b < b' := by
  induction shape generalizing a o o' b b' with
  | nil =>
    obtain rfl := List.length_eq_zero_iff.mp ho
    obtain rfl := List.length_eq_zero_iff.mp ho'
    exact absurd h (List.lt_irrefl [])
  | cons d shape ih =>
    obtain ⟨k, -, cell, hcell, rfl⟩ := mem_cells_cons.mp ha
    obtain ⟨s, o, rfl⟩ := List.exists_cons_of_length_eq_add_one ho
    obtain ⟨s', o', rfl⟩ := List.exists_cons_of_length_eq_add_one ho'
    obtain ⟨v, rest, hv, hrest, rfl⟩ := shift?_cons_eq_some_iff.mp hb
    obtain ⟨v', rest', hv', hrest', rfl⟩ := shift?_cons_eq_some_iff.mp hb'
    obtain ⟨hv, -⟩ := move?_eq_some_iff.mp hv
    obtain ⟨hv', -⟩ := move?_eq_some_iff.mp hv'
    refine List.cons_lt_cons_iff.mpr ?_
    rcases List.cons_lt_cons_iff.mp h with hs | ⟨rfl, htail⟩
    · exact Or.inl (by omega)
    · exact Or.inr
        ⟨by omega, ih (Nat.succ.inj ho) (Nat.succ.inj ho') hcell hrest hrest' htail⟩

theorem shift?_still (h : a ∈ cells shape) : shift? shape a (still shape.length) = some a := by
  induction shape generalizing a with
  | nil =>
    obtain rfl := List.mem_singleton.mp h
    rfl
  | cons d shape ih =>
    obtain ⟨k, hk, rest, hrest, rfl⟩ := mem_cells_cons.mp h
    exact shift?_cons_eq_some_iff.mpr
      ⟨k, rest, move?_eq_some_iff.mpr ⟨(Int.add_zero _).symm, hk⟩, ih hrest, rfl⟩

/-- Two cells are one step apart along the first axis, or along one of the others. -/
theorem areNeighbours_axis_cons : AreNeighbours .axis (k :: a) (v :: b) ↔
    (a = b ∧ (v = k + 1 ∨ k = v + 1)) ∨ (k = v ∧ AreNeighbours .axis a b) := by
  constructor
  · rintro ⟨before, after, x, y, ha, hb, hstep⟩
    cases before with
    | nil =>
      cases ha
      cases hb
      exact Or.inl ⟨rfl, hstep⟩
    | cons z before =>
      cases ha
      cases hb
      exact Or.inr ⟨rfl, before, after, x, y, rfl, rfl, hstep⟩
  · rintro (⟨rfl, hstep⟩ | ⟨rfl, before, after, x, y, rfl, rfl, hstep⟩)
    · exact ⟨[], a, k, v, rfl, rfl, hstep⟩
    · exact ⟨k :: before, after, x, y, rfl, rfl, hstep⟩

theorem exists_axisOffset_iff (ha : a ∈ cells shape) :
    (∃ o ∈ axisOffsets shape.length, shift? shape a o = some b) ↔
      b ∈ cells shape ∧ AreNeighbours .axis a b := by
  induction shape generalizing a b with
  | nil =>
    obtain rfl := List.mem_singleton.mp ha
    constructor
    · rintro ⟨o, ho, -⟩
      cases ho
    · rintro ⟨-, before, after, x, y, hnil, -⟩
      exact absurd hnil.symm (List.append_ne_nil_of_right_ne_nil _ (List.cons_ne_nil _ _))
  | cons d shape ih =>
    obtain ⟨k, hk, cell, hcell, rfl⟩ := mem_cells_cons.mp ha
    have hstill := shift?_still hcell
    constructor
    · rintro ⟨o, ho, h⟩
      simp only [axisOffsets, List.length_cons, List.mem_append, List.mem_cons, List.mem_map,
        List.not_mem_nil, or_false] at ho
      rcases ho with (rfl | ⟨o, ho, rfl⟩) | rfl
      all_goals
        obtain ⟨v, rest, hv, hrest, rfl⟩ := shift?_cons_eq_some_iff.mp h
        obtain ⟨hv, hlt⟩ := move?_eq_some_iff.mp hv
        rw [cons_mem_cells, areNeighbours_axis_cons]
      · rw [hstill] at hrest
        cases hrest
        exact ⟨⟨hlt, hcell⟩, Or.inl ⟨rfl, by omega⟩⟩
      · obtain ⟨hmem, hneighbours⟩ := (ih hcell).mp ⟨o, ho, hrest⟩
        exact ⟨⟨hlt, hmem⟩, Or.inr ⟨by omega, hneighbours⟩⟩
      · rw [hstill] at hrest
        cases hrest
        exact ⟨⟨hlt, hcell⟩, Or.inl ⟨rfl, by omega⟩⟩
    · rintro ⟨hb, hneighbours⟩
      obtain ⟨v, hlt, rest, hrest, rfl⟩ := mem_cells_cons.mp hb
      simp only [axisOffsets, List.length_cons, List.mem_append, List.mem_cons, List.mem_map,
        List.not_mem_nil, or_false]
      rcases areNeighbours_axis_cons.mp hneighbours with ⟨rfl, hahead | hback⟩ | ⟨rfl, hothers⟩
      · refine ⟨1 :: still shape.length, Or.inr rfl, shift?_cons_eq_some_iff.mpr ?_⟩
        exact ⟨v, cell, move?_eq_some_iff.mpr ⟨by omega, hlt⟩, hstill, rfl⟩
      · refine ⟨-1 :: still shape.length, Or.inl (Or.inl rfl), shift?_cons_eq_some_iff.mpr ?_⟩
        exact ⟨v, cell, move?_eq_some_iff.mpr ⟨by omega, hlt⟩, hstill, rfl⟩
      · obtain ⟨o, ho, hshift⟩ := (ih hcell).mpr ⟨hrest, hothers⟩
        refine ⟨0 :: o, Or.inl (Or.inr ⟨o, ho, rfl⟩), shift?_cons_eq_some_iff.mpr ?_⟩
        exact ⟨k, rest, move?_eq_some_iff.mpr ⟨by omega, hk⟩, hshift, rfl⟩

theorem exists_allOffset_iff (ha : a ∈ cells shape) :
    (∃ o ∈ allOffsets shape.length, shift? shape a o = some b) ↔
      b ∈ cells shape ∧ AreClose a b := by
  induction shape generalizing a b with
  | nil =>
    obtain rfl := List.mem_singleton.mp ha
    constructor
    · rintro ⟨o, -, ⟨⟩⟩
      exact ⟨List.mem_singleton_self [], trivial⟩
    · rintro ⟨hb, -⟩
      obtain rfl := List.mem_singleton.mp hb
      exact ⟨[], List.mem_singleton_self [], rfl⟩
  | cons d shape ih =>
    obtain ⟨k, hk, cell, hcell, rfl⟩ := mem_cells_cons.mp ha
    constructor
    · rintro ⟨o, ho, h⟩
      obtain ⟨s, hs, o, htail, rfl⟩ := mem_allOffsets_succ.mp ho
      obtain ⟨v, rest, hv, hrest, rfl⟩ := shift?_cons_eq_some_iff.mp h
      obtain ⟨hv, hlt⟩ := move?_eq_some_iff.mp hv
      obtain ⟨hmem, hclose⟩ := (ih hcell).mp ⟨o, htail, hrest⟩
      simp only [List.mem_cons, List.not_mem_nil, or_false] at hs
      exact ⟨cons_mem_cells.mpr ⟨hlt, hmem⟩, by omega, by omega, hclose⟩
    · rintro ⟨hb, hclose⟩
      obtain ⟨v, hlt, rest, hrest, rfl⟩ := mem_cells_cons.mp hb
      obtain ⟨hahead, hback, hclose⟩ := hclose
      obtain ⟨o, ho, hshift⟩ := (ih hcell).mpr ⟨hrest, hclose⟩
      have hstep : (v : Int) - k ∈ [-1, 0, 1] := by
        simp only [List.mem_cons, List.not_mem_nil, or_false]
        omega
      refine ⟨(v - k) :: o, mem_allOffsets_succ.mpr ⟨_, hstep, o, ho, rfl⟩, ?_⟩
      exact shift?_cons_eq_some_iff.mpr
        ⟨v, rest, move?_eq_some_iff.mpr ⟨by omega, hlt⟩, hshift, rfl⟩

/-- Only the offset that stays leads back to the cell. -/
theorem any_ne_zero_iff (ho : o.length = shape.length) (ha : a ∈ cells shape)
    (h : shift? shape a o = some b) : (o.any (· != 0)) = true ↔ a ≠ b := by
  induction shape generalizing a o b with
  | nil =>
    obtain rfl := List.length_eq_zero_iff.mp ho
    obtain rfl := List.mem_singleton.mp ha
    cases h
    simp
  | cons d shape ih =>
    obtain ⟨k, -, cell, hcell, rfl⟩ := mem_cells_cons.mp ha
    obtain ⟨s, o, rfl⟩ := List.exists_cons_of_length_eq_add_one ho
    obtain ⟨v, rest, hv, hrest, rfl⟩ := shift?_cons_eq_some_iff.mp h
    obtain ⟨hv, -⟩ := move?_eq_some_iff.mp hv
    have hsame : s = 0 ↔ k = v := by omega
    rw [List.any_cons, Bool.or_eq_true, ih (Nat.succ.inj ho) hcell hrest, bne_iff_ne, Ne, hsame,
      Ne, Ne, List.cons.injEq, not_and_or]

/-- The offsets of a cell lead to its neighbours. -/
theorem exists_offset_iff {c : Connectivity} (ha : a ∈ cells shape) :
    (∃ o ∈ offsets c shape.length, shift? shape a o = some b) ↔
      b ∈ cells shape ∧ AreNeighbours c a b := by
  cases c with
  | axis => exact exists_axisOffset_iff ha
  | full =>
    constructor
    · rintro ⟨o, ho, h⟩
      obtain ⟨ho, hmoves⟩ := List.mem_filter.mp ho
      obtain ⟨hb, hclose⟩ := (exists_allOffset_iff ha).mp ⟨o, ho, h⟩
      exact ⟨hb, (any_ne_zero_iff (length_of_mem_allOffsets ho) ha h).mp hmoves, hclose⟩
    · rintro ⟨hb, hne, hclose⟩
      obtain ⟨o, ho, h⟩ := (exists_allOffset_iff ha).mpr ⟨hb, hclose⟩
      have hmoves := (any_ne_zero_iff (length_of_mem_allOffsets ho) ha h).mpr hne
      exact ⟨o, List.mem_filter.mpr ⟨ho, hmoves⟩, h⟩

/-! ## Pairs -/

section

variable {c : Connectivity} {base : Int} {t : List Int}

theorem mem_laterNeighbours {n : Nat} (ha : a ∈ cells shape) : n ∈ laterNeighbours c shape a ↔
    ∃ b ∈ cells shape, AreNeighbours c a b ∧ number shape a < number shape b ∧
      n = number shape b := by
  unfold laterNeighbours
  simp only [List.mem_filter, List.mem_map, List.mem_filterMap, decide_eq_true_eq]
  constructor
  · rintro ⟨⟨b, hb, rfl⟩, hlater⟩
    obtain ⟨hmem, hneighbours⟩ := (exists_offset_iff ha).mp hb
    exact ⟨b, hmem, hneighbours, hlater, rfl⟩
  · rintro ⟨b, hmem, hneighbours, hlater, rfl⟩
    exact ⟨⟨b, (exists_offset_iff ha).mpr ⟨hmem, hneighbours⟩, rfl⟩, hlater⟩

theorem pairwise_laterNeighbours (ha : a ∈ cells shape) :
    (laterNeighbours c shape a).Pairwise (· < ·) := by
  refine List.Pairwise.filter _ (List.pairwise_map.mpr (List.pairwise_filterMap.mpr ?_))
  refine (pairwise_offsets c shape.length).imp_of_mem fun {o o'} ho ho' hlt b hb b' hb' => ?_
  have hlength := length_of_mem_offsets ho
  have hlength' := length_of_mem_offsets ho'
  exact (number_lt_number_iff (mem_of_shift? hlength ha hb) (mem_of_shift? hlength' ha hb')).mpr
    (shift?_lt hlength hlength' ha hb hb' hlt)

/-- The pairs are those of a cell and a later neighbour. -/
theorem mem_pairs_iff : t ∈ pairs c shape base ↔ ∃ a ∈ cells shape, ∃ b ∈ cells shape,
    AreNeighbours c a b ∧ number shape a < number shape b ∧
      t = [(number shape a : Int) + base, (number shape b : Int) + base] := by
  unfold pairs
  rw [List.mem_flatMap]
  refine exists_congr fun a => and_congr_right fun ha => ?_
  simp only [List.mem_map, mem_laterNeighbours ha]
  constructor
  · rintro ⟨n, ⟨b, hb, hneighbours, hlater, rfl⟩, rfl⟩
    exact ⟨b, hb, hneighbours, hlater, rfl⟩
  · rintro ⟨b, hb, hneighbours, hlater, rfl⟩
    exact ⟨_, ⟨b, hb, hneighbours, hlater, rfl⟩, rfl⟩

/-- The pairs are in increasing order: by the first cell, and then by the second one. -/
theorem pairwise_pairs : (pairs c shape base).Pairwise (· < ·) := by
  refine List.pairwise_flatMap.mpr ⟨fun a ha => ?_, ?_⟩
  · refine List.pairwise_map.mpr ((pairwise_laterNeighbours ha).imp fun {m n} hlt => ?_)
    exact List.cons_lt_cons_iff.mpr
      (Or.inr ⟨rfl, List.cons_lt_cons_iff.mpr (Or.inl (by omega))⟩)
  · refine (pairwise_cells shape).imp_of_mem fun {a a'} ha ha' hlt x hx y hy => ?_
    obtain ⟨m, -, rfl⟩ := List.mem_map.mp hx
    obtain ⟨n, -, rfl⟩ := List.mem_map.mp hy
    have hnumber := (number_lt_number_iff ha ha').mpr hlt
    exact List.cons_lt_cons_iff.mpr (Or.inl (by omega))

end

end Grid

end EnergyGraph
