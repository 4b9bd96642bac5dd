-- Integers of 64 bits in nested lists. Whether the lists are an array or not, the payload
-- that is made of them holds the same lists: an array keeps its shape and its cells in
-- row-major order, and cells that are all integers stay integers.
import EnergyGraph.Data.Payload

namespace EnergyGraph.Payload

/-! ## Cells nested by a shape -/

section

variable {items : List Value} {inner : Shape}

theorem shapeOf?_of_mem (h : shapeOfItems? items = some inner) {v : Value} (hv : v ∈ items) :
    shapeOf? v = some inner := by
  induction items with
  | nil => cases hv
  | cons w rest ih =>
    cases rest with
    | nil =>
      rw [shapeOfItems?] at h
      rwa [List.mem_singleton.mp hv]
    | cons w' rest =>
      rw [shapeOfItems?] at h
      split at h
      · rename_i s t hw hrest
        split at h
        · rename_i hst
          cases h
          rcases List.mem_cons.mp hv with rfl | hv
          · exact hw
          · exact ih (hst ▸ hrest) hv
        · cases h
      · cases h

/-- The cells of the item at a place, when all items have equally many. -/
theorem take_drop_leavesOf {n : Nat} (h : ∀ v ∈ items, (leaves v).length = n) {k : Nat}
    (hk : k < items.length) : ((leavesOf items).drop (k * n)).take n = leaves items[k] := by
  induction items generalizing k with
  | nil => cases hk
  | cons v rest ih =>
    obtain ⟨hv, hrest⟩ := List.forall_mem_cons.mp h
    cases k with
    | zero =>
      rw [Nat.zero_mul, List.drop_zero, leavesOf, List.take_left' hv, List.getElem_cons_zero]
    | succ k =>
      have hplace : (k + 1) * n = (leaves v).length + k * n := by
        rw [hv, Nat.succ_mul, Nat.add_comm]
      rw [hplace, leavesOf, List.drop_length_add_append, ih hrest (Nat.lt_of_succ_lt_succ hk),
        List.getElem_cons_succ]

end

mutual

/-- Nested lists are their own leaves, nested by their shape. -/
theorem nested_leaves {v : Value} {shape : Shape} (h : shapeOf? v = some shape) :
    nested shape (leaves v) = v := by
  cases v with
  | list items =>
    simp only [shapeOf?, Option.map_eq_some_iff] at h
    obtain ⟨inner, hinner, rfl⟩ := h
    have hcount : ∀ v ∈ items, (leaves v).length = Shape.cellCount inner := fun v hv =>
      length_leaves (shapeOf?_of_mem hinner hv)
    rw [nested, leaves]
    refine congrArg Value.list (List.ext_getElem (by simp) fun k _ hk => ?_)
    rw [List.getElem_map, List.getElem_range, take_drop_leavesOf hcount hk]
    exact nested_leaves_of_mem items (fun v hv => shapeOf?_of_mem hinner hv) _
      (List.getElem_mem hk)
  | _ =>
    simp only [shapeOf?, Option.some.injEq] at h
    subst h
    rfl

theorem nested_leaves_of_mem (items : List Value) {inner : Shape}
    (h : ∀ v ∈ items, shapeOf? v = some inner) : ∀ v ∈ items, nested inner (leaves v) = v := by
  match items with
  | [] => nofun
  | v :: rest =>
    obtain ⟨hv, hrest⟩ := List.forall_mem_cons.mp h
    exact List.forall_mem_cons.mpr ⟨nested_leaves hv, nested_leaves_of_mem rest hrest⟩

end

/-! ## Integers -/

/-- An integer of 64 bits with a sign. -/
def Fits (n : Int) : Prop := -0x8000000000000000 ≤ n ∧ n < 0x8000000000000000

/-- Such an integer has few digits. -/
theorem Fits.length_toDigits {n : Int} (h : Fits n) : (Nat.toDigits 10 n.natAbs).length ≤ 19 := by
  refine (Nat.length_toDigits_le_iff (by decide) (by decide)).mpr ?_
  obtain ⟨hlow, hhigh⟩ := h
  omega

/-- Nothing but integers of 64 bits, however nested. -/
def HoldsIntegers (v : Value) : Prop := ∀ leaf ∈ leaves v, ∃ n, leaf = .int n ∧ Fits n

theorem holdsIntegers_int {n : Int} : HoldsIntegers (.int n) ↔ Fits n := by
  refine ⟨fun h => ?_, fun h leaf hleaf => ⟨n, List.mem_singleton.mp hleaf, h⟩⟩
  obtain ⟨k, hk, hfits⟩ := h (.int n) List.mem_cons_self
  cases hk
  exact hfits

theorem holdsIntegers_cons {v : Value} {items : List Value} :
    HoldsIntegers (.list (v :: items)) ↔ HoldsIntegers v ∧ HoldsIntegers (.list items) := by
  unfold HoldsIntegers
  rw [leaves, leaves, leavesOf]
  exact List.forall_mem_append

theorem holdsIntegers_list {items : List Value} :
    HoldsIntegers (.list items) ↔ ∀ v ∈ items, HoldsIntegers v := by
  induction items with
  | nil => exact ⟨fun _ => nofun, fun _ => nofun⟩
  | cons v rest ih => rw [holdsIntegers_cons, ih, List.forall_mem_cons]

theorem holdsIntegers_ints {ks : List Int} (h : ∀ k ∈ ks, Fits k) :
    HoldsIntegers (.ints ks) :=
  holdsIntegers_list.mpr (List.forall_mem_map.mpr fun k hk => holdsIntegers_int.mpr (h k hk))

theorem cellKind_int {n : Int} (h : Fits n) : cellKind (.int n) = .int := if_pos h

theorem foldl_join_int {values : List Value} (h : ∀ v ∈ values, cellKind v = .int) :
    values.foldl (fun k w => CellKind.join k (cellKind w)) .int = .int := by
  induction values with
  | nil => rfl
  | cons v rest ih =>
    obtain ⟨hv, hrest⟩ := List.forall_mem_cons.mp h
    rw [List.foldl_cons, hv]
    exact ih hrest

/-- Integers are the cells of an array as they are. -/
theorem values_cellsOf {values : List Value} (h : ∀ v ∈ values, ∃ n, v = .int n ∧ Fits n)
    {cells : Cells} (hcells : cellsOf (kindOf values) values = some cells) :
    cells.values = values := by
  cases values with
  | nil =>
    cases hcells
    rfl
  | cons v rest =>
    have hkinds : ∀ w ∈ v :: rest, cellKind w = .int := fun w hw => by
      obtain ⟨n, rfl, hn⟩ := h w hw
      exact cellKind_int hn
    obtain ⟨hv, hrest⟩ := List.forall_mem_cons.mp hkinds
    have hself : ∀ w ∈ v :: rest, Value.int (asInt w) = w := fun w hw => by
      obtain ⟨n, rfl, -⟩ := h w hw
      rfl
    rw [kindOf, hv, foldl_join_int hrest, cellsOf, Option.some.injEq] at hcells
    subst hcells
    rw [Cells.values, List.toList_toArray, List.map_map]
    exact (List.map_congr_left hself).trans (List.map_id _)

/-- The payload of nested integers holds the lists that it was made of. -/
theorem exists_ofValue {items : List Value} (h : HoldsIntegers (.list items)) :
    ∃ p, ofValue (.list items) = .ok p ∧ p.value = .list items := by
  unfold ofValue
  split
  · rename_i a ha
    refine ⟨.array a, rfl, ?_⟩
    unfold array? at ha
    split at ha
    · cases ha
    · rename_i shape hshape
      split at ha
      · cases ha
      · rename_i cells hcells
        cases ha
        show nested shape cells.values = _
        rw [values_cellsOf h hcells]
        exact nested_leaves (Option.eq_some_of_filter_eq_some hshape)
  · exact ⟨.listed items, rfl, rfl⟩

end EnergyGraph.Payload
