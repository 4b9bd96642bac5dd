-- The order of a walk. The stack is as long as the expression is wide, and a turn of the loop can
-- make it longer; what falls with each turn is the number of parts on the stack and below. So the
-- loop comes to an end, and it takes each part once, as the recursion does: a part before the
-- parts below it, and these from left to right.
import EnergyGraph.Proofs.Walking
import Mathlib.Data.List.Lex
import Mathlib.Logic.Function.Iterate

namespace EnergyGraph.Expr

/-! ## The loop -/

/-- One turn of the loop: the part on top of the stack gives way to the parts right below it. -/
def turn : List Part → List Part
  | [] => []
  | p :: stack => p.children ++ stack

section

variable {stack : List Part}

theorem length_walkFrom (stack : List Part) : (walkFrom stack).length = Part.totalSize stack := by
  induction stack using walkFrom.induct with
  | case1 => rw [walkFrom, List.length_nil, Part.totalSize]
  | case2 p stack ih =>
    rw [walkFrom, List.length_cons, ih, Part.totalSize_append, Part.totalSize, p.size_eq]
    omega

theorem head?_walkFrom : (walkFrom stack).head? = stack.head? := by
  cases stack with
  | nil => rw [walkFrom]
  | cons p stack => rw [walkFrom, List.head?_cons, List.head?_cons]

theorem walkFrom_turn : walkFrom (turn stack) = (walkFrom stack).tail := by
  cases stack with
  | nil => rw [turn, walkFrom, List.tail_nil]
  | cons p stack => rw [turn, walkFrom.eq_def (p :: stack), List.tail_cons]

/-- What is left of the walk after some turns is the walk from the stack as it is then. -/
theorem walkFrom_turns (k : ℕ) : walkFrom (turn^[k] stack) = (walkFrom stack).drop k := by
  induction k generalizing stack with
  | zero => rw [Function.iterate_zero_apply, List.drop_zero]
  | succ k ih => rw [Function.iterate_succ_apply, ih, walkFrom_turn, List.drop_tail]

theorem head?_turns (k : ℕ) : (turn^[k] stack).head? = (walkFrom stack)[k]? := by
  rw [← head?_walkFrom, walkFrom_turns, List.head?_drop]

theorem turns_eq_nil_iff {k : ℕ} : turn^[k] stack = [] ↔ Part.totalSize stack ≤ k := by
  rw [← List.head?_eq_none_iff, head?_turns, List.getElem?_eq_none_iff, length_walkFrom]

end

/-! ## The recursion -/

mutual

/-- A part, then what is below it from left to right. -/
def preorder : Expr → List Part
  | .literal value span => [.expr (.literal value span)]
  | .ref name indices span => .expr (.ref name indices span) :: indices.map .index
  | .reduction fold symbol body span => .expr (.reduction fold symbol body span) :: body.preorder
  | .call function args span => .expr (.call function args span) :: preorderAll args
  | .binary op left right span =>
    .expr (.binary op left right span) :: (left.preorder ++ right.preorder)
  | .negate operand span => .expr (.negate operand span) :: operand.preorder

def preorderAll : List Expr → List Part
  | [] => []
  | e :: rest => e.preorder ++ preorderAll rest

end

theorem preorderAll_eq (args : List Expr) : preorderAll args = args.flatMap preorder := by
  induction args with
  | nil => rw [preorderAll, List.flatMap_nil]
  | cons e rest ih => rw [preorderAll, List.flatMap_cons, ih]

theorem walk_eq_preorder (e : Expr) : e.walk = e.preorder := by
  induction e with
  | literal value span => rw [walk_literal, preorder]
  | ref name indices span => rw [walk_ref, preorder]
  | reduction fold symbol body span ih => rw [walk_reduction, preorder, ih]
  | call function args span ih =>
    rw [walk_call, preorder, preorderAll_eq, List.flatMap_congr ih]
  | binary op left right span ihl ihr => rw [walk_binary, preorder, ihl, ihr]
  | negate operand span ih => rw [walk_negate, preorder, ih]

/-! ## Places of parts -/

/-- The part at a place: the place tells which part below to go to, from step to step. -/
def Part.at? (p : Part) : List ℕ → Option Part
  | [] => some p
  | k :: place =>
    match p.children[k]? with
    | some child => child.at? place
    | none => none

/-- The part at a place below, where the first step goes to one of several parts. -/
def below? (parts : List Part) : List ℕ → Option Part
  | [] => none
  | k :: place =>
    match parts[k]? with
    | some part => part.at? place
    | none => none

/-- Parts come in the order of their places. A place is before those below it, and of two places
that part from each other the one on the left is before the other; so no place comes twice. -/
structure InPlaces (found? : List ℕ → Option Part) (places : List (List ℕ)) (visited : List Part) :
    Prop where
  ordered : places.Pairwise (· < ·)
  complete : ∀ place, place ∈ places ↔ (found? place).isSome = true
  visits : places.map found? = visited.map some

/-- The same place with its first step one further to the right. -/
def besides : List ℕ → List ℕ
  | [] => []
  | k :: place => (k + 1) :: place

section

variable {p : Part} {parts : List Part} {places places' : List (List ℕ)}
  {visited visited' : List Part}

theorem below?_zero (place : List ℕ) : below? (p :: parts) (0 :: place) = p.at? place := rfl

theorem below?_besides (place : List ℕ) :
    below? (p :: parts) (besides place) = below? parts place := by
  cases place <;> rfl

theorem besides_lt {x y : List ℕ} (h : x < y) : besides x < besides y := by
  cases h with
  | nil => exact .nil
  | rel h => exact .rel (Nat.succ_lt_succ h)
  | cons h => exact .cons h

theorem InPlaces.ne_nil (h : InPlaces (below? parts) places visited) {place : List ℕ}
    (hplace : place ∈ places) : place ≠ [] := by
  rintro rfl
  cases (h.complete []).mp hplace

theorem inPlaces_nil : InPlaces (below? []) [] [] where
  ordered := .nil
  complete place := by cases place <;> simp [below?]
  visits := rfl

/-- The first of several parts has its places, and then the others have theirs. -/
theorem inPlaces_cons (h : InPlaces p.at? places visited)
    (h' : InPlaces (below? parts) places' visited') :
    InPlaces (below? (p :: parts)) (places.map (0 :: ·) ++ places'.map besides)
      (visited ++ visited') where
  ordered := by
    refine List.pairwise_append.mpr ⟨?_, ?_, ?_⟩
    · exact List.pairwise_map.mpr (h.ordered.imp fun hlt => .cons hlt)
    · exact List.pairwise_map.mpr (h'.ordered.imp besides_lt)
    · intro x hx y hy
      obtain ⟨first, -, rfl⟩ := List.mem_map.mp hx
      obtain ⟨other, hother, rfl⟩ := List.mem_map.mp hy
      obtain ⟨k, rest, rfl⟩ := List.exists_cons_of_ne_nil (h'.ne_nil hother)
      exact .rel (Nat.succ_pos k)
  complete place := by
    rw [List.mem_append, List.mem_map, List.mem_map]
    constructor
    · rintro (⟨place, hplace, rfl⟩ | ⟨place, hplace, rfl⟩)
      · rw [below?_zero]
        exact (h.complete place).mp hplace
      · rw [below?_besides]
        exact (h'.complete place).mp hplace
    · intro hfound
      match place with
      | [] => cases hfound
      | 0 :: place => exact Or.inl ⟨place, (h.complete place).mpr hfound, rfl⟩
      | (k + 1) :: place => exact Or.inr ⟨k :: place, (h'.complete (k :: place)).mpr hfound, rfl⟩
  visits := by
    rw [List.map_append, List.map_append, List.map_map, List.map_map, ← h.visits, ← h'.visits]
    refine congrArg (_ ++ ·) (List.map_congr_left fun place _ => ?_)
    exact below?_besides place

theorem exists_places_below (h : ∀ p ∈ parts, ∃ places, InPlaces p.at? places (walkFrom [p])) :
    ∃ places, InPlaces (below? parts) places (walkFrom parts) := by
  induction parts with
  | nil =>
    rw [walkFrom]
    exact ⟨[], inPlaces_nil⟩
  | cons p rest ih =>
    obtain ⟨hp, hrest⟩ := List.forall_mem_cons.mp h
    obtain ⟨places, hplaces⟩ := hp
    obtain ⟨places', hplaces'⟩ := ih hrest
    rw [← List.singleton_append, walkFrom_append]
    exact ⟨_, inPlaces_cons hplaces hplaces'⟩

/-- A part itself is at the first place. -/
theorem exists_places (h : ∀ c ∈ p.children, ∃ places, InPlaces c.at? places (walkFrom [c])) :
    ∃ places, InPlaces p.at? places (walkFrom [p]) := by
  obtain ⟨places, hbelow⟩ := exists_places_below h
  have hsame (place : List ℕ) (hplace : place ≠ []) : p.at? place = below? p.children place := by
    obtain ⟨k, place, rfl⟩ := List.exists_cons_of_ne_nil hplace
    rfl
  refine ⟨[] :: places, ?_, fun place => ?_, ?_⟩
  · refine List.pairwise_cons.mpr ⟨fun place hplace => ?_, hbelow.ordered⟩
    obtain ⟨k, place, rfl⟩ := List.exists_cons_of_ne_nil (hbelow.ne_nil hplace)
    exact .nil
  · cases place with
    | nil => simp [Part.at?]
    | cons k place =>
      rw [hsame _ (List.cons_ne_nil k place), ← hbelow.complete]
      simp
  · rw [walkFrom, List.append_nil, List.map_cons, List.map_cons, ← hbelow.visits]
    refine congrArg (_ :: ·) (List.map_congr_left fun place hplace => ?_)
    exact hsame place (hbelow.ne_nil hplace)

theorem exists_places_index (i : Index) :
    ∃ places, InPlaces (Part.index i).at? places (walkFrom [.index i]) :=
  exists_places fun _ h => nomatch h

end

theorem exists_places_walk (e : Expr) : ∃ places, InPlaces (Part.expr e).at? places e.walk := by
  unfold walk
  induction e with
  | literal value span => exact exists_places fun _ h => nomatch h
  | ref name indices span =>
    refine exists_places fun c hc => ?_
    obtain ⟨i, -, rfl⟩ := List.mem_map.mp hc
    exact exists_places_index i
  | reduction fold symbol body span ih =>
    refine exists_places fun c hc => ?_
    obtain rfl := List.mem_singleton.mp hc
    exact ih
  | call function args span ih =>
    refine exists_places fun c hc => ?_
    obtain ⟨arg, harg, rfl⟩ := List.mem_map.mp hc
    exact ih arg harg
  | binary op left right span ihl ihr =>
    refine exists_places fun c hc => ?_
    rcases List.mem_cons.mp hc with rfl | hc
    · exact ihl
    · obtain rfl := List.mem_singleton.mp hc
      exact ihr
  | negate operand span ih =>
    refine exists_places fun c hc => ?_
    obtain rfl := List.mem_singleton.mp hc
    exact ih

end EnergyGraph.Expr
