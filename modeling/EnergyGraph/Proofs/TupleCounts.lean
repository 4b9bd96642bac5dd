-- How many tuples there are. The number is a product of the sizes of ranges, and the tuples are
-- gone through one by one. Both take the ranges of the chosen symbols in the chosen order, so
-- that they agree on any choice. A range of more values than a machine word counts has neither,
-- even where another range is empty and there is nothing to go through.
import EnergyGraph.Proofs.AuditCaps
import EnergyGraph.Proofs.Extents
import EnergyGraph.Proofs.Neighbours

namespace EnergyGraph

/-! ## Tuples of ranges -/

namespace Range

variable {rs : List Range}

/-- Some tuples are all those with one value out of each range, each once and in order. -/
structure Enumerates (rs : List Range) (ts : List (List Int)) : Prop where
  ordered : ts.Pairwise (· < ·)
  mem : ∀ ks, ks ∈ ts ↔ List.Forall₂ (fun r k => r.low ≤ k ∧ k ≤ r.high) rs ks
  of_none : rs = [] → ts = [[]]
  of_empty : (∃ r ∈ rs, r.high < r.low) → ts = []

theorem pairwise_values (r : Range) : r.values.Pairwise (· < ·) := by
  refine List.pairwise_map.mpr (List.pairwise_lt_range.imp fun hlt => ?_)
  omega

theorem pairwise_tuples (rs : List Range) : (tuples rs).Pairwise (· < ·) := by
  induction rs with
  | nil => exact List.pairwise_singleton _ _
  | cons r rest ih => exact Grid.pairwise_flatMap_cons r.pairwise_values ih

/-- Without a value for one place there is no tuple. -/
theorem tuples_eq_nil (h : ∃ r ∈ rs, r.high < r.low) : tuples rs = [] := by
  obtain ⟨r, hr, hlt⟩ := h
  rw [List.eq_nil_iff_forall_not_mem]
  intro ks hks
  obtain ⟨k, -, hk⟩ := exists_of_mem_left (mem_tuples.mp hks) hr
  rw [mem_values] at hk
  omega

theorem enumerates_tuples (rs : List Range) : Enumerates rs (tuples rs) where
  ordered := pairwise_tuples rs
  mem ks := by simp only [mem_tuples, mem_values]
  of_none h := by rw [h, tuples]
  of_empty := tuples_eq_nil

end Range

namespace Interaction

variable {s : Surroundings} {d : InteractionDecl} {i : Interaction} {chosen : List String}
  {bounds rs : List Range} {symbol : String} {r : Range}

/-! ## Ranges of symbols -/

/-- The range of a symbol is the one that stands at its first place. -/
def HasRange (i : Interaction) (symbol : String) (r : Range) : Prop :=
  ∃ bounds, i.domain = .ranges bounds ∧ (i.symbols.zip bounds).lookup symbol = some r

theorem hasRange_of_rangeOf (hdomain : i.domain = .ranges bounds)
    (hr : i.rangeOf symbol = .ok r) : i.HasRange symbol r := by
  obtain ⟨place, hplace, hbound⟩ := rangeOf_eq_ok hdomain hr
  exact ⟨bounds, hdomain, (lookup_zip_of_findIdx? bounds hplace).trans hbound⟩

theorem countable_eq_ok (h : r.size < Nat.pow 2 63) : countable r = .ok r := if_pos h

theorem countable_tooLarge (h : Nat.pow 2 63 ≤ r.size) :
    countable r = Failure.refuse .tooLarge := if_neg (Nat.not_lt.mpr h)

/-- Each chosen symbol has its range. -/
theorem exists_ranges (hdomain : i.domain = .ranges bounds) (hfits : i.domain.Fits i.symbols)
    (hchosen : chosen ⊆ i.symbols) : ∃ rs, chosen.mapM i.rangeOf = .ok rs :=
  mapM_total fun _ hsymbol => Energy.rangeOf_total hdomain hfits (hchosen hsymbol)

theorem rangesOf_eq_bind (hrs : chosen.mapM i.rangeOf = .ok rs) :
    i.rangesOf chosen = rs.mapM countable := by
  have hall := mapM_eq_ok.mp hrs
  clear hrs
  induction hall with
  | nil => rfl
  | cons hr _ ih =>
    unfold rangesOf at ih ⊢
    rw [List.mapM_cons, List.mapM_cons, hr, ok_bind, ih]

theorem mapM_countable (h : ∀ r ∈ rs, r.size < Nat.pow 2 63) : rs.mapM countable = .ok rs := by
  induction rs with
  | nil => rfl
  | cons r rest ih =>
    rw [List.mapM_cons, countable_eq_ok (h r List.mem_cons_self),
      ih fun r' hr' => h r' (List.mem_cons_of_mem r hr')]
    rfl

theorem mapM_tooLarge (h : ∃ r ∈ rs, Nat.pow 2 63 ≤ r.size) :
    rs.mapM countable = Failure.refuse .tooLarge := by
  obtain ⟨r, hr, hlarge⟩ := h
  refine (mapM_ok_or_error fun r _ => ?_).resolve_left ?_
  · rcases Nat.lt_or_ge r.size (Nat.pow 2 63) with hsmall | hlarge
    · exact Or.inl ⟨r, countable_eq_ok hsmall⟩
    · exact Or.inr (countable_tooLarge hlarge)
  · rintro ⟨rs', hrs'⟩
    obtain ⟨r', -, hr'⟩ := exists_of_mem_left (mapM_eq_ok.mp hrs') hr
    rw [countable_tooLarge hlarge] at hr'
    cases hr'

/-! ## Counting -/

/-- An interaction has as many tuples as it tells. -/
def Counts (i : Interaction) (chosen : List String) (ts : List (List Int)) : Prop :=
  i.tuples chosen = .ok ts ∧ i.size chosen = .ok ts.length

theorem counts_ranges (hdomain : i.domain = .ranges bounds) (hrs : i.rangesOf chosen = .ok rs) :
    i.Counts chosen (Range.tuples rs) := by
  unfold Counts tuples size
  rw [hdomain, hrs, Range.length_tuples]
  exact ⟨rfl, rfl⟩

theorem refused_of_rangesOf (hdomain : i.domain = .ranges bounds)
    (hrs : i.rangesOf chosen = Failure.refuse .tooLarge) :
    i.tuples chosen = Failure.refuse .tooLarge ∧ i.size chosen = Failure.refuse .tooLarge := by
  unfold tuples size
  rw [hdomain, hrs]
  exact ⟨rfl, rfl⟩

/-- Other kinds than ranges have their tuples whatever is chosen. -/
theorem exists_counts (hkind : i.kind = .none ∨ i.kind = .sparse ∨ i.kind = .laplacian)
    (chosen : List String) : ∃ ts, i.Counts chosen ts := by
  obtain ⟨id, symbols, domain, base⟩ := i
  cases domain with
  | single => exact ⟨[[]], rfl, rfl⟩
  | tuples items => exact ⟨items, rfl, rfl⟩
  | grid shape c => exact ⟨Grid.pairs c shape base, rfl, rfl⟩
  | ranges _ | groups _ | factor _ => rcases hkind with h | h | h <;> cases h

theorem exists_bounds (hkind : i.kind = .allIndices) : ∃ bounds, i.domain = .ranges bounds := by
  obtain ⟨id, symbols, domain, base⟩ := i
  cases domain with
  | ranges bounds => exact ⟨bounds, rfl⟩
  | single | tuples _ | groups _ | grid _ _ | factor _ => cases hkind

/-- The size of an interaction is the number of its tuples, and over ranges the tuples of any
chosen symbols are those with a value of each, once and in order. The ranges must be countable:
a chosen one with more values than a machine word counts leaves neither tuples nor a size. -/
theorem size_eq_length_tuples (h : resolve s d = .ok i) :
    (i.kind = .none ∨ i.kind = .sparse ∨ i.kind = .laplacian →
      ∀ chosen, ∃ ts, i.tuples chosen = .ok ts ∧ i.size chosen = .ok ts.length) ∧
    (i.kind = .allIndices → ∀ chosen, chosen ⊆ i.symbols →
      ∃ rs, List.Forall₂ i.HasRange chosen rs ∧
        ((∀ r ∈ rs, r.size < Nat.pow 2 63) → ∃ ts, Range.Enumerates rs ts ∧
          i.tuples chosen = .ok ts ∧ i.size chosen = .ok ts.length) ∧
        ((∃ r ∈ rs, Nat.pow 2 63 ≤ r.size) → i.tuples chosen = Failure.refuse .tooLarge ∧
          i.size chosen = Failure.refuse .tooLarge)) := by
  refine ⟨exists_counts, fun hkind chosen hchosen => ?_⟩
  obtain ⟨bounds, hdomain⟩ := exists_bounds hkind
  obtain ⟨rs, hrs⟩ := exists_ranges hdomain (fits_of_resolve h).1 hchosen
  have hranges := rangesOf_eq_bind hrs
  refine ⟨rs, (mapM_eq_ok.mp hrs).imp fun _ _ => hasRange_of_rangeOf hdomain,
    fun hsmall => ?_, fun hlarge => ?_⟩
  · rw [mapM_countable hsmall] at hranges
    exact ⟨_, Range.enumerates_tuples rs, counts_ranges hdomain hranges⟩
  · rw [mapM_tooLarge hlarge] at hranges
    exact refused_of_rangesOf hdomain hranges

/-! ## Two small ranges and a large one -/

/-- Ranges from 0 to 1, from 5 to 6 and from 0 to the 63rd power of two. -/
def threeRanges : InteractionDecl :=
  ⟨"it", .allIndices, some ["i", "j", "k"], [("ranges", .object [("i", .list [.int 0, .int 1]),
    ("j", .list [.int 5, .int 6]), ("k", .list [.int 0, .int 9223372036854775808])])], false⟩

def overThreeRanges : Interaction :=
  ⟨"it", ["i", "j", "k"], .ranges [⟨0, 1⟩, ⟨5, 6⟩, ⟨0, 9223372036854775808⟩], 0⟩

theorem resolve_threeRanges : resolve noData threeRanges = .ok overThreeRanges := by
  with_unfolding_all rfl

/-- The ranges of some of the symbols are found in the table of all. -/
theorem ranges_overThreeRanges (found : List Range)
    (h : List.Forall₂ overThreeRanges.HasRange chosen rs)
    (hfound : (chosen.map fun symbol => (["i", "j", "k"].zip
      [(⟨0, 1⟩ : Range), ⟨5, 6⟩, ⟨0, 9223372036854775808⟩]).lookup symbol) = found.map some) :
    rs = found := by
  refine (Option.some_injective _).list_map ((map_eq_of_forall₂ (h.imp ?_)).trans hfound)
  rintro symbol r ⟨bounds, hdomain, hlookup⟩
  cases hdomain
  exact hlookup.symm

/-- The second symbol before the first one has four tuples, and the third one is refused. -/
theorem size_eq_length_tuples_three_ranges :
    (∃ ts, Range.Enumerates [⟨5, 6⟩, ⟨0, 1⟩] ts ∧ [6, 0] ∈ ts ∧
      overThreeRanges.tuples ["j", "i"] = .ok ts ∧
      overThreeRanges.size ["j", "i"] = .ok ts.length) ∧
    overThreeRanges.tuples ["k"] = Failure.refuse .tooLarge ∧
    overThreeRanges.size ["k"] = Failure.refuse .tooLarge := by
  have hcounted := (size_eq_length_tuples resolve_threeRanges).2 rfl
  constructor
  · obtain ⟨rs, hrs, hsmall, -⟩ := hcounted ["j", "i"] (by decide)
    obtain rfl := ranges_overThreeRanges [⟨5, 6⟩, ⟨0, 1⟩] hrs (by decide)
    obtain ⟨ts, henumerates, hcounts⟩ := hsmall (by decide)
    exact ⟨ts, henumerates, (henumerates.mem _).mpr (by decide), hcounts⟩
  · obtain ⟨rs, hrs, -, hlarge⟩ := hcounted ["k"] (by decide)
    obtain rfl := ranges_overThreeRanges [⟨0, 9223372036854775808⟩] hrs (by decide)
    exact hlarge (by decide)

end Interaction

end EnergyGraph
