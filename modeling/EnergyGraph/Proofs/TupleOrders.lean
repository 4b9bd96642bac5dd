-- The order of ranges. The tuples of some ranges are those of the others, with each value of one
-- range put in at its place. As lists the two differ in their order, but both begin with the
-- smallest tuple, and under its symbols a tuple stands for the same either way.
import EnergyGraph.Interaction.Range
import EnergyGraph.Proofs.Enumeration
import Mathlib.Data.Multiset.Bind

namespace EnergyGraph

/-! ## Tuples -/

/-- Of two lists, either can be gone through inside of the other. -/
theorem perm_flatMap_swap {ι κ γ : Type} (f : ι → κ → γ) (xs : List ι) (ys : List κ) :
    (xs.flatMap fun x => ys.map (f x)).Perm (ys.flatMap fun y => xs.map fun x => f x y) := by
  have hbags := Multiset.bind_map_comm (xs : Multiset ι) (ys : Multiset κ) (f := f)
  simpa [Multiset.coe_bind] using hbags

namespace Range

/-- The tuples of some ranges, with each value of one more range at a place. -/
def inserted (place : Nat) (r : Range) (tuples : List (List Int)) : List (List Int) :=
  tuples.flatMap fun ks => r.values.map fun k => ks.insertIdx place k

theorem tuples_perm_inserted (r : Range) (before after : List Range) :
    (tuples (before ++ r :: after)).Perm
      (inserted before.length r (tuples (before ++ after))) := by
  unfold inserted
  induction before with
  | nil => exact perm_flatMap_swap (fun k ks => k :: ks) r.values (tuples after)
  | cons b rest ih =>
    rw [List.cons_append, List.cons_append, tuples, tuples, List.flatMap_assoc]
    refine List.Perm.flatMap_left _ fun j _ => ?_
    have hrest := ih.map (j :: ·)
    rw [List.map_flatMap] at hrest
    rw [List.flatMap_map]
    simpa [List.map_map, Function.comp_def] using hrest

theorem values_eq_nil_or_cons (r : Range) : r.values = [] ∨ ∃ rest, r.values = r.low :: rest := by
  unfold values
  cases r.size with
  | zero => exact Or.inl rfl
  | succ n =>
    refine Or.inr ⟨(List.range n).map fun k => r.low + (k + 1 : Nat), ?_⟩
    rw [List.range_succ_eq_map, List.map_cons, List.map_map, Int.natCast_zero, Int.add_zero]
    rfl

/-- The first tuple holds the smallest value of each range. -/
theorem head?_tuples (rs : List Range) :
    tuples rs = [] ∨ (tuples rs).head? = some (rs.map low) := by
  induction rs with
  | nil => exact Or.inr rfl
  | cons r rest ih =>
    rw [tuples]
    rcases values_eq_nil_or_cons r with hr | ⟨ks, hr⟩
    · rw [hr]
      exact Or.inl rfl
    · rcases ih with hrest | hrest
      · rw [hrest]
        simp
      · obtain ⟨tail, htail⟩ := List.head?_eq_some_iff.mp hrest
        rw [hr, htail]
        exact Or.inr rfl

theorem insertIdx_map_low (r : Range) (before after : List Range) :
    ((before ++ after).map low).insertIdx before.length r.low = (before ++ r :: after).map low := by
  induction before with
  | nil => rfl
  | cons b rest ih =>
    rw [List.cons_append, List.map_cons, List.length_cons, List.insertIdx_succ_cons, ih]
    rfl

theorem head?_inserted (r : Range) (before after : List Range) :
    (tuples (before ++ r :: after)).head? =
      (inserted before.length r (tuples (before ++ after))).head? := by
  have hperm := tuples_perm_inserted r before after
  rcases head?_tuples (before ++ r :: after) with hnone | hfirst
  · rw [hnone] at hperm ⊢
    rw [hperm.nil_eq]
  · have hsome : inserted before.length r (tuples (before ++ after)) ≠ [] := by
      intro hempty
      rw [hempty] at hperm
      rw [hperm.eq_nil] at hfirst
      cases hfirst
    rw [hfirst]
    rcases values_eq_nil_or_cons r with hr | ⟨ks, hr⟩
    · exact absurd (by simp [inserted, hr]) hsome
    · rcases head?_tuples (before ++ after) with hnone | hother
      · exact absurd (by simp [inserted, hnone]) hsome
      · obtain ⟨rest, hrest⟩ := List.head?_eq_some_iff.mp hother
        rw [inserted, hr, hrest, List.flatMap_cons, List.map_cons, insertIdx_map_low]
        rfl

end Range

/-! ## Symbols -/

/-- A tuple with a value put in stands for the same as the tuple without, and the symbol bound
to the value. -/
theorem Symbols.agrees_insertIdx {symbol : String} {before after : List String} {ks : List Int}
    (hsymbol : symbol ∉ before) (hlength : before.length ≤ ks.length) (k : Int) :
    Agrees (Symbols.set ((before ++ after).zip ks) symbol k)
      ((before ++ symbol :: after).zip (ks.insertIdx before.length k)) := by
  induction before generalizing ks with
  | nil =>
    intro name
    rw [List.nil_append, List.nil_append, List.length_nil, List.insertIdx_zero,
      List.zip_cons_cons, List.lookup_cons]
    by_cases hname : name = symbol
    · rw [hname, lookup_set_self, beq_self_eq_true]
    · rw [lookup_set_ne hname, beq_eq_false_iff_ne.mpr hname]
  | cons b rest ih =>
    cases ks with
    | nil => cases hlength
    | cons j ks =>
      rw [List.mem_cons, not_or] at hsymbol
      have hrest := ih hsymbol.2 (Nat.le_of_succ_le_succ hlength)
      intro name
      have hset : Symbols.set ((b :: rest ++ after).zip (j :: ks)) symbol k =
          (b, j) :: Symbols.set ((rest ++ after).zip ks) symbol k := by
        rw [List.cons_append, List.zip_cons_cons, set,
          if_neg (by simpa using fun h => hsymbol.1 h.symm)]
      rw [hset, List.cons_append, List.length_cons, List.insertIdx_succ_cons, List.zip_cons_cons,
        List.lookup_cons, List.lookup_cons, hrest name]

end EnergyGraph
