-- Positions in row-major order. The places of the cells of an array count its positions,
-- each once, and a position that comes earlier in the lexicographic order has the smaller
-- place.
import EnergyGraph.Tensor
import Mathlib.Data.Nat.Basic

namespace EnergyGraph

namespace Shape

theorem offset?_cons_eq_some {d k o : Nat} {shape : Shape} {rest : List Nat} :
    Shape.offset? (d :: shape) (k :: rest) = some o ↔
      k < d ∧ ∃ r, shape.offset? rest = some r ∧ o = k * shape.cellCount + r := by
  rw [offset?]
  split
  · rename_i hk
    rw [Option.map_eq_some_iff]
    simp only [hk, true_and, eq_comm (a := o)]
  · rename_i hk
    simp [hk]

/-- A step along the first axis is a whole stretch of places. -/
theorem stretch_le {c k l : Nat} (h : k < l) : k * c + c ≤ l * c := by
  calc k * c + c = (k + 1) * c := (Nat.succ_mul k c).symm
    _ ≤ l * c := Nat.mul_le_mul_right c h

theorem offset?_lt {shape : Shape} {position : List Nat} {o : Nat}
    (h : shape.offset? position = some o) : o < shape.cellCount := by
  induction shape generalizing position o with
  | nil =>
    cases position with
    | nil =>
      cases h
      exact Nat.zero_lt_one
    | cons k rest => cases h
  | cons d shape ih =>
    cases position with
    | nil => cases h
    | cons k rest =>
      obtain ⟨hk, r, hr, rfl⟩ := offset?_cons_eq_some.mp h
      have hrest := ih hr
      have hstretch := stretch_le (c := Shape.cellCount shape) hk
      change _ < d * Shape.cellCount shape
      omega

/-- A place is that of its position. -/
theorem offset?_position {shape : Shape} {place : Nat} (h : place < shape.cellCount) :
    shape.offset? (shape.position place) = some place := by
  induction shape generalizing place with
  | nil =>
    have hzero : place = 0 := Nat.lt_one_iff.mp h
    rw [hzero]
    rfl
  | cons d shape ih =>
    change place < d * Shape.cellCount shape at h
    have hpos : 0 < Shape.cellCount shape := Nat.pos_of_mul_pos_left (Nat.zero_lt_of_lt h)
    have hfirst : place / Shape.cellCount shape < d := (Nat.div_lt_iff_lt_mul hpos).mpr h
    refine offset?_cons_eq_some.mpr ⟨?_, _, ih (Nat.mod_lt place hpos), ?_⟩
    · rwa [Nat.mod_eq_of_lt hfirst]
    · rw [Nat.mod_eq_of_lt hfirst, Nat.mul_comm]
      exact (Nat.div_add_mod place (Shape.cellCount shape)).symm

/-- The earlier position has the smaller place. -/
theorem offset?_lt_offset?_iff {shape : Shape} {p q : List Nat} {m n : Nat}
    (hp : shape.offset? p = some m) (hq : shape.offset? q = some n) : m < n ↔ p < q := by
  induction shape generalizing p q m n with
  | nil =>
    cases p with
    | cons _ _ => cases hp
    | nil =>
      cases q with
      | cons _ _ => cases hq
      | nil =>
        cases hp
        cases hq
        simp
  | cons d shape ih =>
    cases p with
    | nil => cases hp
    | cons k p =>
      cases q with
      | nil => cases hq
      | cons l q =>
        obtain ⟨-, r, hr, rfl⟩ := offset?_cons_eq_some.mp hp
        obtain ⟨-, t, ht, rfl⟩ := offset?_cons_eq_some.mp hq
        have hrlt := offset?_lt hr
        have htlt := offset?_lt ht
        rw [List.cons_lt_cons_iff, ← ih hr ht]
        rcases Nat.lt_trichotomy k l with hkl | rfl | hlk
        · have hstretch := stretch_le (c := Shape.cellCount shape) hkl
          simp only [hkl, true_or, iff_true]
          omega
        · simp
        · have hstretch := stretch_le (c := Shape.cellCount shape) hlk
          constructor
          · intro h
            omega
          · rintro (h | ⟨rfl, -⟩) <;> omega

end Shape

namespace Tensor

variable {α : Type}

theorem at?_eq_some_iff {t : Tensor α} {p : List Nat} {x : α} :
    t.at? p = some x ↔ ∃ k, t.shape.offset? p = some k ∧ t.cells[k]? = some x := by
  simp [at?, Option.bind_eq_some_iff]

/-- Each cell has a position. -/
theorem at?_position {t : Tensor α} {k : Nat} {x : α} (h : t.cells[k]? = some x) :
    t.at? (t.shape.position k) = some x := by
  obtain ⟨hk, -⟩ := Array.getElem?_eq_some_iff.mp h
  rw [t.size_eq] at hk
  exact at?_eq_some_iff.mpr ⟨k, Shape.offset?_position hk, h⟩

end Tensor

end EnergyGraph
