-- The shapes that indices are checked against are those of the arrays that an
-- evaluation gets. A graph is built before there are values: its variables have their
-- declared shapes then, and its data the shapes of what the source delivers.
import EnergyGraph.Energy.Evaluate
import EnergyGraph.Proofs.Building

namespace EnergyGraph

/-! ## Tables made of lists -/

/-- Two answers that go together are both missing, or both there. -/
theorem rel_cases {β γ : Type} {R : β → γ → Prop} {x : Option β} {y : Option γ}
    (h : Option.Rel R x y) : (x = none ∧ y = none) ∨ ∃ b c, x = some b ∧ y = some c ∧ R b c := by
  cases h with
  | none => exact Or.inl ⟨rfl, rfl⟩
  | some h => exact Or.inr ⟨_, _, rfl, rfl, h⟩

/-- A table with an entry for each item answers like a search among the items. -/
theorem lookup_of_forall₂ {ι β : Type} {R : ι → β → Prop} (key : ι → String) {xs : List ι}
    {table : List (String × β)} (h : List.Forall₂ (fun x p => p.1 = key x ∧ R x p.2) xs table)
    (name : String) : Option.Rel R (xs.find? fun x => key x == name) (table.lookup name) := by
  induction h with
  | nil => exact .none
  | @cons x p xs table hp _ ih =>
    obtain ⟨n, b⟩ := p
    obtain ⟨rfl, hb⟩ := hp
    rw [List.lookup_cons, List.find?_cons]
    by_cases hname : key x = name
    · subst hname
      simpa using hb
    · rw [beq_eq_false_iff_ne.mpr hname, beq_eq_false_iff_ne.mpr fun h => hname h.symm]
      exact ih

/-! ## Rectangular data -/

/-- All data that a source delivers are arrays. -/
def Lookup.IsRectangular (data : Lookup) : Prop :=
  ∀ name p, data name = .ok p → ∃ a, p = .array a

theorem Payload.shape_of_floats {a : DataArray} {t : Tensor Float}
    (h : (Payload.array a).floats = .ok t) : t.shape = (Payload.array a).shape := by
  unfold floats tensorOf at h
  dsimp only at h
  split at h
  · cases h
    rfl
  · cases h

namespace Graph

/-- The shape of the array that a name stands for: the declared one of a variable, and the
delivered one of data. -/
def shapeOf? (g : Graph) (data : Lookup) (name : String) : Option Shape :=
  match g.specOf? name with
  | some v => some v.shape
  | none => if name ∈ g.dataNames then (data name).toOption.map Payload.shape else none

end Graph

namespace Energy

open EnergyGraph.Graph

variable {α : Type} {g : Graph} {data : Lookup} {name : String}

/-! ## The arrays of an evaluation -/

theorem shape_of_valueOf {a : Assignment α} {v : VariableSpec} {t : Tensor α}
    (h : valueOf a v = .ok t) : t.shape = v.shape := by
  unfold valueOf at h
  split at h
  · cases h
  · split at h <;> cases h
  · cases h
  · dsimp only at h
    split at h
    · cases h
      assumption
    · cases h

theorem lookup_normalize {a : Assignment α} {vars : Arrays α} (h : normalize g a = .ok vars)
    (name : String) :
    Option.Rel (fun v t => t.shape = v.shape) (g.specOf? name) (vars.lookup name) := by
  refine lookup_of_forall₂ VariableSpec.name ?_ name
  refine (mapM_eq_ok.mp h).imp fun v p hp => ?_
  obtain ⟨t, ht, hp⟩ := bind_eq_ok.mp hp
  cases hp
  exact ⟨rfl, shape_of_valueOf ht⟩

theorem shape_of_feed (hdata : data.IsRectangular) {t : Tensor Float}
    (h : feedOf data name = .ok t) : (data name).toOption.map Payload.shape = some t.shape := by
  unfold feedOf at h
  obtain ⟨p, hp, h⟩ := bind_eq_ok.mp h
  obtain ⟨a, rfl⟩ := hdata name p hp
  rw [Payload.shape_of_floats h, hp]
  rfl

theorem find?_beq {names : List String} (h : name ∈ names) :
    names.find? (· == name) = some name := by
  rcases hfound : names.find? (· == name) with _ | n
  · exact absurd (beq_self_eq_true name) (List.find?_eq_none.mp hfound name h)
  · rw [eq_of_beq (List.find?_some (p := (· == name)) hfound)]

theorem lookup_loadData (hdata : data.IsRectangular) {arrays : Arrays Float}
    (h : loadData g (feedOf data) = .ok arrays) (hname : name ∈ g.referencedArrays) :
    (arrays.lookup name).map (·.shape) =
      if name ∈ g.dataNames then (data name).toOption.map Payload.shape else none := by
  unfold loadData at h
  have hrel : Option.Rel (fun n t => (data n).toOption.map Payload.shape = some t.shape)
      ((g.dataNames.filter (g.referencedArrays.contains ·)).find? (· == name))
      (arrays.lookup name) := by
    refine lookup_of_forall₂ id ?_ name
    refine (mapM_eq_ok.mp h).imp fun n p hp => ?_
    split at hp
    · rename_i t ht
      cases hp
      exact ⟨rfl, shape_of_feed hdata ht⟩
    · unfold fail at hp
      split at hp <;> cases hp
  by_cases hmem : name ∈ g.dataNames
  · rw [find?_beq (List.mem_filter.mpr ⟨hmem, by simpa using hname⟩)] at hrel
    rw [if_pos hmem]
    obtain ⟨h, -⟩ | ⟨n, t, hn, ht, hshape⟩ := rel_cases hrel
    · cases h
    · cases hn
      rw [ht, hshape]
      rfl
  · have hnone : (g.dataNames.filter (g.referencedArrays.contains ·)).find? (· == name) = none := by
      rw [List.find?_eq_none]
      intro n hn heq
      exact hmem (eq_of_beq heq ▸ (List.mem_filter.mp hn).1)
    rw [hnone] at hrel
    rw [if_neg hmem]
    obtain ⟨-, ht⟩ | ⟨n, t, hn, -, -⟩ := rel_cases hrel
    · rw [ht]
      rfl
    · cases hn

/-- The array that a name of the graph stands for has the shape that the name has. -/
theorem shape_of_arrays (hdata : data.IsRectangular) {a : Assignment Float}
    {vars arrays : Arrays Float} (hvars : normalize g a = .ok vars)
    (harrays : loadData g (feedOf data) = .ok arrays) (hname : name ∈ g.referencedArrays) :
    ((vars ++ arrays).lookup name).map (·.shape) = g.shapeOf? data name := by
  rw [List.lookup_append]
  unfold shapeOf?
  obtain ⟨hspec, hlookup⟩ | ⟨v, t, hspec, hlookup, hshape⟩ :=
    rel_cases (lookup_normalize hvars name)
  · rw [hspec, hlookup, Option.none_or]
    exact lookup_loadData hdata harrays hname
  · rw [hspec, hlookup]
    exact congrArg some hshape

end Energy

/-! ## The shapes of a build -/

namespace Graph

variable {d : Document} {s : Surroundings} {dataShapes : List (String × Shape)} {a : Assembly}
  {g : Graph} {name : String} {shape : Shape}

theorem shape_of_dataShape {x : DataDecl} {p : String × Shape} (h : dataShape s x = .ok p) :
    p.1 = x.name ∧ (s.data x.name).toOption.map Payload.shape = some p.2 := by
  unfold dataShape at h
  split at h
  · unfold fail at h
    split at h <;> cases h
  · rename_i payload hpayload
    obtain ⟨_, -, h⟩ := bind_eq_ok.mp h
    cases h
    exact ⟨rfl, by rw [hpayload]; rfl⟩

/-- What a name had the shape of while the graph was built, it has the shape of in the graph. -/
theorem Assembled.shapeOf?_eq (h : Assembled d s dataShapes a g)
    (hshape : (scopeOf s g.vars dataShapes).shapes.lookup name = some shape) :
    g.shapeOf? s.data name = some shape := by
  have hvars : Option.Rel (fun v t => t = v.shape) (g.specOf? name)
      ((g.vars.map fun v => (v.name, v.shape)).lookup name) := by
    refine lookup_of_forall₂ VariableSpec.name ?_ name
    rw [List.forall₂_map_right_iff, List.forall₂_same]
    exact fun v _ => ⟨rfl, rfl⟩
  have hdata := lookup_of_forall₂ DataDecl.name
    (R := fun x shape => (s.data x.name).toOption.map Payload.shape = some shape)
    (h.shapes.imp fun _ _ hp => shape_of_dataShape hp) name
  unfold scopeOf at hshape
  rw [List.lookup_append] at hshape
  unfold shapeOf?
  obtain ⟨hspec, hlookup⟩ | ⟨v, t, hspec, hlookup, rfl⟩ := rel_cases hvars
  · rw [hlookup, Option.none_or] at hshape
    rw [hspec]
    obtain ⟨-, hnone⟩ | ⟨x, t, hfound, hlookup, hx⟩ := rel_cases hdata
    · rw [hnone] at hshape
      cases hshape
    · rw [hlookup] at hshape
      cases hshape
      obtain rfl : x.name = name := by simpa using List.find?_some hfound
      have hmem : x.name ∈ g.dataNames := by
        rw [h.dataNames_eq]
        exact List.mem_map_of_mem (List.mem_filter.mp (List.mem_of_find?_eq_some hfound)).1
      rw [if_pos hmem]
      exact hx
  · rw [hlookup] at hshape
    rw [hspec]
    exact hshape

end Graph

end EnergyGraph
