-- Which values a variable can take. The check goes through the cells in row-major order and
-- tells of the first that it finds bad: of the bounds first, over all cells, and only then of
-- the type. An array without axes has no positions to tell of, and is never found bad.
import EnergyGraph.Energy.Assignment
import EnergyGraph.Proofs.Doubles
import EnergyGraph.Proofs.Positions

namespace EnergyGraph

namespace Energy

/-! ## The first bad cell -/

section

variable {α : Type} {t : Tensor α} {isBad : Nat → α → Bool} {P : List Nat → Prop}
  {p : List Nat} {x : α}

/-- A position with some property; no earlier one has it. -/
def IsFirst (P : List Nat → Prop) (p : List Nat) : Prop := P p ∧ ∀ q, P q → ¬ q < p

/-- A test of cells by their places tells of a property of positions. -/
structure Tells (t : Tensor α) (isBad : Nat → α → Bool) (P : List Nat → Prop) : Prop where
  inside : ∀ p, P p → ∃ x, t.at? p = some x
  iff : ∀ p k x, t.shape.offset? p = some k → t.cells[k]? = some x → (isBad k x = true ↔ P p)

theorem firstBad_eq_some (h : Tells t isBad P) (hfound : firstBad t isBad = some (p, x)) :
    t.shape ≠ [] ∧ IsFirst P p ∧ t.at? p = some x := by
  unfold firstBad at hfound
  split at hfound
  · cases hfound
  · rename_i hshape
    obtain ⟨⟨y, k⟩, hfind, heq⟩ := Option.map_eq_some_iff.mp hfound
    obtain ⟨rfl, rfl⟩ := Prod.mk.inj heq
    obtain ⟨hbad, i, hi, hget, hbefore⟩ := List.find?_eq_some_iff_getElem.mp hfind
    rw [List.getElem_zipIdx] at hget
    obtain ⟨hcell, hplace⟩ := Prod.mk.inj hget
    have hk : i = k := by omega
    subst hk
    have hsize : i < t.cells.size := by simpa using hi
    have hsome : t.cells[i]? = some y := by
      rw [Array.getElem?_eq_getElem hsize]
      simpa using hcell
    have hoffset := Shape.offset?_position (t.size_eq ▸ hsize)
    refine ⟨hshape, ⟨(h.iff _ i y hoffset hsome).mp hbad, ?_⟩, Tensor.at?_position hsome⟩
    intro q hq hlt
    obtain ⟨z, hz⟩ := h.inside q hq
    obtain ⟨j, hj, hjz⟩ := Tensor.at?_eq_some_iff.mp hz
    have hji : j < i := (Shape.offset?_lt_offset?_iff hj hoffset).mpr hlt
    have hfine := hbefore j hji
    rw [List.getElem_zipIdx] at hfine
    obtain ⟨hjsize, rfl⟩ := Array.getElem?_eq_some_iff.mp hjz
    have hbad := (h.iff q j _ hj hjz).mpr hq
    simp [hbad] at hfine

theorem firstBad_eq_none (h : Tells t isBad P) :
    firstBad t isBad = none ↔ t.shape = [] ∨ ∀ p, ¬ P p := by
  constructor
  · intro hnone
    unfold firstBad at hnone
    split at hnone
    · exact Or.inl ‹_›
    · refine Or.inr fun p hp => ?_
      obtain ⟨x, hx⟩ := h.inside p hp
      obtain ⟨k, hk, hkx⟩ := Tensor.at?_eq_some_iff.mp hx
      have hmem : (x, k) ∈ t.cells.toList.zipIdx := by
        rw [List.mk_mem_zipIdx_iff_getElem?, Array.getElem?_toList]
        exact hkx
      exact List.find?_eq_none.mp (Option.map_eq_none_iff.mp hnone) _ hmem
        ((h.iff p k x hk hkx).mpr hp)
  · intro hfine
    rcases hfound : firstBad t isBad with _ | ⟨p, x⟩
    · rfl
    · obtain ⟨hshape, hfirst, -⟩ := firstBad_eq_some h hfound
      rcases hfine with hempty | hnone
      · exact absurd hempty hshape
      · exact absurd hfirst.1 (hnone p)

end

/-! ## The declared domain -/

open EnergyGraph.Graph (Bound VariableSpec)

/-- A bound of a variable is a number, or an array with a cell for each of the variable's. -/
def Fits (shape : Shape) : Bound → Prop
  | .number _ => True
  | .array t => t.shape = [] ∨ t.shape = shape

/-- The bound at a position. What has no axes counts for every position. -/
def boundOf (bound : Bound) (p : List Nat) : Option Float :=
  match bound with
  | .number x => some x
  | .array t => t.at? (if t.shape = [] then [] else p)

/-- A value lies on the wrong side of a bound at its position; what is no number bounds nothing. -/
inductive Crosses (v : VariableSpec) (p : List Nat) (x : Float) : Prop
  | lower {b : Float} (at_position : boundOf v.lower p = some b) (number : b.isNaN = false)
      (outside : ¬ b ≤ x) : Crosses v p x
  | upper {b : Float} (at_position : boundOf v.upper p = some b) (number : b.isNaN = false)
      (outside : ¬ x ≤ b) : Crosses v p x

/-- The values that a variable of a type takes. -/
def OfType : VariableType → Float → Prop
  | .continuous, _ => True
  | .binary, x => (x == 0.0) = true ∨ (x == 1.0) = true
  | .integer, x => IsInteger x ∨ x.isInf = true

variable {v : VariableSpec} {values : Tensor Float} {p : List Nat} {x : Float} {k : Nat}

/-- The value at a position is outside of the bounds there. -/
def IsOutside (v : VariableSpec) (values : Tensor Float) (p : List Nat) : Prop :=
  ∃ x, values.at? p = some x ∧ Crosses v p x

/-- The value at a position is none of the variable's type. -/
def IsOfOtherType (v : VariableSpec) (values : Tensor Float) (p : List Nat) : Prop :=
  ∃ x, values.at? p = some x ∧ ¬ OfType v.type x

theorem boundAt_boundArray {bound : Bound} {shape : Shape} (hfits : Fits shape bound)
    (hp : shape.offset? p = some k) : boundAt (boundArray bound) k = boundOf bound p := by
  cases bound with
  | number b => rfl
  | array t =>
    have hsame : (boundArray (.array t) : Tensor Float) = t := by
      change t.map (id : Float → Float) = t
      unfold Tensor.map
      simp
    unfold boundAt boundOf
    rw [hsame]
    dsimp only
    by_cases hempty : t.shape = []
    · simp only [hempty, if_true, Tensor.at?]
      rfl
    · have hshape : t.shape = shape := hfits.resolve_left hempty
      rw [if_neg hempty, if_neg hempty, Tensor.at?, hshape, hp]
      rfl

theorem isBelow_iff {b : Option Float} (hx : x.isNaN = false) :
    isBelow b x = true ↔ ∃ y, b = some y ∧ y.isNaN = false ∧ ¬ y ≤ x := by
  rcases b with _ | y
  · simp [isBelow]
  · change decide (x < y) = true ↔ _
    rw [decide_eq_true_iff]
    constructor
    · intro h
      have hy : y.isNaN = false := Bool.eq_false_iff.mpr fun hy => (not_lt_of_isNaN hy).1 h
      exact ⟨y, rfl, hy, (lt_iff_not_le hx hy).mp h⟩
    · rintro ⟨_, ⟨⟩, hy, hle⟩
      exact (lt_iff_not_le hx hy).mpr hle

theorem isAbove_iff {b : Option Float} (hx : x.isNaN = false) :
    isAbove b x = true ↔ ∃ y, b = some y ∧ y.isNaN = false ∧ ¬ x ≤ y := by
  rcases b with _ | y
  · simp [isAbove]
  · change decide (y < x) = true ↔ _
    rw [decide_eq_true_iff]
    constructor
    · intro h
      have hy : y.isNaN = false := Bool.eq_false_iff.mpr fun hy => (not_lt_of_isNaN hy).2 h
      exact ⟨y, rfl, hy, (lt_iff_not_le hy hx).mp h⟩
    · rintro ⟨_, ⟨⟩, hy, hle⟩
      exact (lt_iff_not_le hy hx).mpr hle

theorem isNotOfType_iff {type : VariableType} : isNotOfType type x = true ↔ ¬ OfType type x := by
  cases type with
  | continuous => simp [isNotOfType, OfType]
  | binary =>
    change (!(x == 0.0) && !(x == 1.0)) = true ↔ ¬ ((x == 0.0) = true ∨ (x == 1.0) = true)
    simp
  | integer =>
    change (!isIntegral x && !x.isInf) = true ↔ ¬ (IsInteger x ∨ x.isInf = true)
    rw [← isIntegral_iff]
    simp

theorem isOutOfBounds_iff (hlower : Fits values.shape v.lower) (hupper : Fits values.shape v.upper)
    (hp : values.shape.offset? p = some k) (hx : x.isNaN = false) :
    isOutOfBounds (boundArray v.lower) (boundArray v.upper) k x = true ↔ Crosses v p x := by
  unfold isOutOfBounds
  rw [Bool.or_eq_true, boundAt_boundArray hlower hp, boundAt_boundArray hupper hp,
    isBelow_iff hx, isAbove_iff hx]
  constructor
  · rintro (⟨b, hb, hn, hout⟩ | ⟨b, hb, hn, hout⟩)
    · exact .lower hb hn hout
    · exact .upper hb hn hout
  · rintro (⟨hb, hn, hout⟩ | ⟨hb, hn, hout⟩)
    · exact Or.inl ⟨_, hb, hn, hout⟩
    · exact Or.inr ⟨_, hb, hn, hout⟩

/-- A test of values that agrees with a property of values at their positions. -/
theorem tells_of_cells {isBad : Nat → Float → Bool} {Q : List Nat → Float → Prop}
    (h : ∀ p k x, values.shape.offset? p = some k → values.cells[k]? = some x →
      (isBad k x = true ↔ Q p x)) :
    Tells values isBad fun p => ∃ x, values.at? p = some x ∧ Q p x where
  inside := fun _ ⟨x, hx, _⟩ => ⟨x, hx⟩
  iff := by
    intro p k x hp hk
    have hx : values.at? p = some x := Tensor.at?_eq_some_iff.mpr ⟨k, hp, hk⟩
    rw [h p k x hp hk]
    constructor
    · intro hq
      exact ⟨x, hx, hq⟩
    · rintro ⟨y, hy, hq⟩
      rw [hx] at hy
      cases hy
      exact hq

/-! ## What the check tells -/

/-- The check of the values of a variable. -/
def check (v : VariableSpec) (values : Tensor Float) : Except Failure Unit :=
  checkFeasible v.name v.type (boundArray v.lower) (boundArray v.upper) values

section

variable (hlower : Fits values.shape v.lower) (hupper : Fits values.shape v.upper)
  (hnumbers : ∀ x ∈ values.cells, x.isNaN = false)

include hlower hupper hnumbers in
theorem tells_isOutside :
    Tells values (isOutOfBounds (boundArray v.lower) (boundArray v.upper)) (IsOutside v values) :=
  tells_of_cells fun _ _ _ hp hk =>
    isOutOfBounds_iff hlower hupper hp (hnumbers _ (Array.mem_of_getElem? hk))

theorem tells_isOfOtherType :
    Tells values (fun _ x => isNotOfType v.type x) (IsOfOtherType v values) :=
  tells_of_cells fun _ _ _ _ _ => isNotOfType_iff

/-- What the check can answer, and when. -/
inductive Verdict (v : VariableSpec) (values : Tensor Float) : Except Failure Unit → Prop
  | outside {p : List Nat} {x : Float} (axes : values.shape ≠ [])
      (first : IsFirst (IsOutside v values) p) (cell : values.at? p = some x) :
      Verdict v values (fail (.outOfBounds v.name p (.float x)))
  | otherType {p : List Nat} {x : Float} (axes : values.shape ≠ [])
      (inside : ∀ q, ¬ IsOutside v values q)
      (first : IsFirst (IsOfOtherType v values) p) (cell : values.at? p = some x) :
      Verdict v values (fail (.notOfType v.name v.type p (.float x)))
  | fine (fine : values.shape = [] ∨ ∀ q, ¬ IsOutside v values q ∧ ¬ IsOfOtherType v values q) :
      Verdict v values (.ok ())

include hlower hupper hnumbers in
theorem check_verdict : Verdict v values (check v values) := by
  have hbounds := tells_isOutside hlower hupper hnumbers
  have htypes : Tells values (fun _ x => isNotOfType v.type x) (IsOfOtherType v values) :=
    tells_isOfOtherType
  unfold check checkFeasible
  rcases hout : firstBad values (isOutOfBounds (boundArray v.lower) (boundArray v.upper)) with
    _ | ⟨p, x⟩
  · rcases htype : firstBad values fun _ x => isNotOfType v.type x with _ | ⟨p, x⟩
    · refine .fine ?_
      rcases (firstBad_eq_none hbounds).mp hout with hempty | hinside
      · exact Or.inl hempty
      · rcases (firstBad_eq_none htypes).mp htype with hempty | hkind
        · exact Or.inl hempty
        · exact Or.inr fun q => ⟨hinside q, hkind q⟩
    · obtain ⟨haxes, hfirst, hcell⟩ := firstBad_eq_some htypes htype
      have hinside := ((firstBad_eq_none hbounds).mp hout).resolve_left haxes
      exact .otherType haxes hinside hfirst hcell
  · obtain ⟨haxes, hfirst, hcell⟩ := firstBad_eq_some hbounds hout
    exact .outside haxes hfirst hcell

end

/-- The check fails with a diagnostic of this code. -/
def Raises (result : Except Failure Unit) (code : String) : Prop :=
  ∃ d, result = .error (.diagnostic d) ∧ d.code = code

theorem raises_fail {f : Fault} {code : String} : Raises (fail f) code ↔ f.code = code := by
  constructor
  · rintro ⟨d, hd, hcode⟩
    injection hd with hd
    injection hd with hd
    rw [← hcode, ← hd]
    rfl
  · intro hcode
    exact ⟨f.diagnostic, rfl, hcode⟩

theorem not_raises_ok {code : String} : ¬ Raises (.ok ()) code := by
  rintro ⟨d, hd, -⟩
  cases hd

section

variable {result : Except Failure Unit}

theorem Verdict.raises_bounds (h : Verdict v values result)
    (hraises : Raises result "BoundsViolation") :
    values.shape ≠ [] ∧ ∃ p x, IsFirst (IsOutside v values) p ∧ values.at? p = some x ∧
      result = fail (.outOfBounds v.name p (.float x)) := by
  cases h with
  | outside axes first cell => exact ⟨axes, _, _, first, cell, rfl⟩
  | otherType => exact absurd (raises_fail.mp hraises) (by simp [Fault.code])
  | fine => exact absurd hraises not_raises_ok

theorem Verdict.raises_type (h : Verdict v values result)
    (hraises : Raises result "TypeMismatch") :
    values.shape ≠ [] ∧ (∀ q, ¬ IsOutside v values q) ∧ ∃ p x, IsFirst (IsOfOtherType v values) p ∧
      values.at? p = some x ∧ result = fail (.notOfType v.name v.type p (.float x)) := by
  cases h with
  | outside => exact absurd (raises_fail.mp hraises) (by simp [Fault.code])
  | otherType axes inside first cell => exact ⟨axes, inside, _, _, first, cell, rfl⟩
  | fine => exact absurd hraises not_raises_ok

theorem Verdict.of_isOutside (h : Verdict v values result) (axes : values.shape ≠ [])
    (hp : IsOutside v values p) : Raises result "BoundsViolation" := by
  cases h with
  | outside => exact raises_fail.mpr rfl
  | otherType _ inside => exact absurd hp (inside p)
  | fine fine => exact absurd hp ((fine.resolve_left axes) p).1

theorem Verdict.of_isOfOtherType (h : Verdict v values result) (axes : values.shape ≠ [])
    (inside : ∀ q, ¬ IsOutside v values q) (hp : IsOfOtherType v values p) :
    Raises result "TypeMismatch" := by
  cases h with
  | outside _ first => exact absurd first.1 (inside _)
  | otherType => exact raises_fail.mpr rfl
  | fine fine => exact absurd hp ((fine.resolve_left axes) p).2

theorem Verdict.eq_ok_iff (h : Verdict v values result) :
    result = .ok () ↔
      values.shape = [] ∨ ∀ p, ¬ IsOutside v values p ∧ ¬ IsOfOtherType v values p := by
  cases h with
  | outside axes first =>
    refine iff_of_false (by rintro ⟨⟩) ?_
    rintro (hempty | hfine)
    · exact axes hempty
    · exact (hfine _).1 first.1
  | otherType axes _ first =>
    refine iff_of_false (by rintro ⟨⟩) ?_
    rintro (hempty | hfine)
    · exact axes hempty
    · exact (hfine _).2 first.1
  | fine fine => exact iff_of_true rfl fine

end

/-- The check of a variable with axes tells of the first value outside of the bounds, and if
there is none, of the first value of another type. A variable without axes passes it whatever
its value is. -/
theorem check_decides (v : VariableSpec) (values : Tensor Float) (hshape : values.shape = v.shape)
    (hlower : Fits v.shape v.lower) (hupper : Fits v.shape v.upper)
    (hnumbers : ∀ x ∈ values.cells, x.isNaN = false) :
    (Raises (check v values) "BoundsViolation" ↔ v.shape ≠ [] ∧ ∃ p, IsOutside v values p) ∧
      (Raises (check v values) "TypeMismatch" ↔
        v.shape ≠ [] ∧ (∀ p, ¬ IsOutside v values p) ∧ ∃ p, IsOfOtherType v values p) ∧
      (check v values = .ok () ↔
        v.shape = [] ∨ ∀ p, ¬ IsOutside v values p ∧ ¬ IsOfOtherType v values p) ∧
      (Raises (check v values) "BoundsViolation" → ∃ p x, IsFirst (IsOutside v values) p ∧
        values.at? p = some x ∧ check v values = fail (.outOfBounds v.name p (.float x))) ∧
      (Raises (check v values) "TypeMismatch" → ∃ p x, IsFirst (IsOfOtherType v values) p ∧
        values.at? p = some x ∧ check v values = fail (.notOfType v.name v.type p (.float x))) := by
  rw [← hshape] at hlower hupper ⊢
  have hverdict := check_verdict hlower hupper hnumbers
  refine ⟨⟨fun h => ?_, ?_⟩, ⟨fun h => ?_, ?_⟩, hverdict.eq_ok_iff, fun h => ?_, fun h => ?_⟩
  · obtain ⟨axes, p, -, first, -⟩ := hverdict.raises_bounds h
    exact ⟨axes, p, first.1⟩
  · rintro ⟨axes, p, hp⟩
    exact hverdict.of_isOutside axes hp
  · obtain ⟨axes, inside, p, -, first, -⟩ := hverdict.raises_type h
    exact ⟨axes, inside, p, first.1⟩
  · rintro ⟨axes, inside, p, hp⟩
    exact hverdict.of_isOfOtherType axes inside hp
  · exact (hverdict.raises_bounds h).2
  · exact (hverdict.raises_type h).2.2

/-- A variable of three steps down, none or up. -/
def steps : VariableSpec := ⟨"step", .integer, [3], .number (-1.0), .number 1.0⟩

/-- A switch with a single cell. -/
def switch : VariableSpec := ⟨"on", .binary, [], .number 0.0, .number 1.0⟩

/-- The second step is too far. A switch that is too far up passes. -/
theorem check_decides_steps :
    Raises (check steps ⟨[3], #[0.0, 2.0, 0.5], rfl⟩) "BoundsViolation" ∧
      IsOutside switch ⟨[], #[5.0], rfl⟩ [] ∧ check switch ⟨[], #[5.0], rfl⟩ = .ok () := by
  refine ⟨?_, ?_, ?_⟩
  · exact (check_decides steps _ rfl trivial trivial (by decide)).1.mpr
      ⟨by decide, [1], 2.0, rfl, .upper rfl (by decide) (by decide)⟩
  · exact ⟨5.0, rfl, .upper rfl (by decide) (by decide)⟩
  · exact (check_decides switch _ rfl trivial trivial (by decide)).2.2.1.mpr (Or.inl rfl)

end Energy

end EnergyGraph
