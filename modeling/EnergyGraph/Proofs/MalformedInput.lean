-- Documents and data of any kind. A document is read, or told what is wrong with it, and so is a
-- declaration that is resolved over data of any kind, except where they stumble; and there they
-- are refused, however many mistakes have been found before.
import EnergyGraph.Proofs.ResolvingRefusals

namespace EnergyGraph

open Findings

/-! ## Values that are no data -/

/-- Nothing at all, and an integer that does not fit into 64 bits. -/
def Value.IsUnheld : Value → Prop
  | .null => True
  | .int n => n < -0x8000000000000000 ∨ 0x10000000000000000 ≤ n
  | _ => False

theorem Payload.cellKind_eq_other {n : Int} :
    cellKind (.int n) = .other ↔ (Value.int n).IsUnheld := by
  unfold cellKind Value.IsUnheld
  dsimp only
  split
  · exact iff_of_false nofun (by omega)
  · split
    · exact iff_of_false nofun (by omega)
    · exact iff_of_true rfl (by omega)

theorem Payload.cellsOf_eq_none {kind : CellKind} {values : List Value} :
    cellsOf kind values = none ↔ kind = .other := by
  cases kind with
  | other => exact iff_of_true rfl rfl
  | _ => exact iff_of_false nofun nofun

/-- An integer alone is data if it has a kind of cells. -/
theorem Payload.array?_int {n : Int} : array? (.int n) = none ↔ (Value.int n).IsUnheld := by
  rw [← cellKind_eq_other, ← @cellsOf_eq_none _ [.int n]]
  unfold array?
  split
  · rename_i hnone
    cases hnone
  · split
    · rename_i hnone
      exact iff_of_true rfl hnone
    · rename_i cells hcells
      exact iff_of_false nofun fun hnone => nomatch hcells.symm.trans hnone

theorem Payload.ofValue_eq_ok {v : Value} : (∃ p, ofValue v = .ok p) ↔ ¬ v.IsUnheld := by
  cases v with
  | null => exact iff_of_false nofun fun h => h trivial
  | int n =>
    rw [← array?_int]
    unfold ofValue
    cases array? (.int n) with
    | none => exact iff_of_false nofun fun h => h rfl
    | some a => exact iff_of_true ⟨_, rfl⟩ nofun
  | list items =>
    refine iff_of_true ?_ id
    unfold ofValue
    split <;> exact ⟨_, rfl⟩
  | object members =>
    refine iff_of_true ?_ id
    unfold ofValue
    split <;> exact ⟨_, rfl⟩
  | _ => exact iff_of_true ⟨_, rfl⟩ id

/-- Data can be given exactly if each value can be. -/
theorem Store.ofArrays_eq_ok {arrays : Object} :
    (∃ store, ofArrays arrays = .ok store) ↔ ∀ e ∈ arrays, ¬ e.2.IsUnheld := by
  simp only [← Payload.ofValue_eq_ok]
  constructor
  · rintro ⟨store, h⟩ e he
    obtain ⟨known, hknown, -⟩ := bind_eq_ok.mp h
    obtain ⟨entry, -, hentry⟩ := exists_of_mem_left (mapM_eq_ok.mp hknown) he
    obtain ⟨p, hp, -⟩ := bind_eq_ok.mp hentry
    exact ⟨p, hp⟩
  · intro h
    obtain ⟨known, hknown⟩ : ∃ known, arrays.mapM (fun e => do
        .ok (e.1, ← Payload.ofValue e.2) : _ → Except Failure _) = .ok known :=
      mapM_total fun e he => by
        obtain ⟨p, hp⟩ := h e he
        exact ⟨(e.1, p), bind_eq_ok.mpr ⟨p, hp, rfl⟩⟩
    exact ⟨_, bind_eq_ok.mpr ⟨known, hknown, rfl⟩⟩

/-! ## Documents -/

namespace Document

theorem parse_eq_refused {v : Value} {r : Refusal} :
    parse v true = .error (.refusal r) ↔ (check v : Silent Document) = .error r :=
  gathered_eq_refused.trans (by rw [related_check (R := silenced) v []])

/-- The mode that tells everything comes to an answer unless the document stumbles. -/
theorem carried_parse (v : Value) : Carried (parse v true) ↔ ∀ r, ¬ Stumbles v r := by
  constructor
  · intro hcarried r hr
    obtain ⟨r', hr'⟩ := (blames_check v).refused r hr
    exact hcarried r' (parse_eq_refused.mpr hr')
  · intro hnone r hr
    exact hnone r ((blames_check v).blames r (parse_eq_refused.mp hr))

/-- The mode that ends with the first mistake is refused as the other one is, unless there is a
mistake before. -/
theorem parse_first_eq_refused {v : Value} {r : Refusal} : parse v false = .error (.refusal r) ↔
    parse v true = .error (.refusal r) ∧ ((check v : Findings Document).run.run []).2 = [] := by
  change (check v : Except Failure Document) = .error (.refusal r) ↔
    gathered (check v) = .error (.refusal r) ∧ ((check v : Findings Document).run.run []).2 = []
  rw [eq_refused_iff (agrees_check v : Agrees True _ _), gathered_eq_refused, Prod.ext_iff]

end Document

/-! ## Malformed input -/

/-- Whatever a document, data and a declaration are, their mistakes are told and nothing is refused,
except exactly where they stumble: in reading the document, in holding the data by name, and in
resolving the declaration over them, of which the mistakes are told under its own path, once. -/
theorem refused_iff_stumbles (v : Value) (arrays : Object) (d : InteractionDecl)
    (parameters : Numbers) (base : Int) (files : Files) (baseDir : Option String) :
    ((Carried (Document.parse v true) ↔ ∀ r, ¬ Document.Stumbles v r) ∧
      (∀ r, Document.parse v true = .error (.refusal r) → Document.Stumbles v r) ∧
      ∀ r, Document.parse v false = .error (.refusal r) ↔
        Document.parse v true = .error (.refusal r) ∧
          ((Document.check v : Findings Document).run.run []).2 = []) ∧
    ((∃ store, Store.ofArrays arrays = .ok store) ↔ ∀ e ∈ arrays, ¬ e.2.IsUnheld) ∧
    ∀ store, Store.ofArrays arrays = .ok store →
      (∀ r, Interaction.resolve ⟨store.lookup files, parameters, base, files, baseDir⟩ d =
          .error (.refusal r) ↔
        Interaction.Stumbles ⟨store.lookup files, parameters, base, files, baseDir⟩ d r) ∧
      ∀ f, Interaction.resolve ⟨store.lookup files, parameters, base, files, baseDir⟩ d = .error f →
        f.IsToldUnder (Interaction.path d.id []) := by
  refine ⟨⟨Document.carried_parse v, fun r hr => ?_, fun r => Document.parse_first_eq_refused⟩,
    Store.ofArrays_eq_ok, fun store hstore => ?_⟩
  · exact (Document.blames_check v).blames r (Document.parse_eq_refused.mp hr)
  · have hresolve := Interaction.settles_resolve d
      (s := ⟨store.lookup files, parameters, base, files, baseDir⟩)
      (Store.isGiven_of_ofArrays hstore files)
    exact ⟨hresolve.refused, hresolve.told⟩

/-- A term that is compatible with a number. -/
def numberedTerm : Object := [("expr", .text "1"), ("compat", .int 5)]

/-- A document of that term. -/
def numbered : Value := .object [("version", .text "1.0.0"), ("name", .text "numbered"),
  ("terms", .object [("t", .object numberedTerm)])]

/-- A single number as the only data. -/
def single : Store := ⟨[("k", .array ⟨[], .ints #[3], rfl⟩)], [], none, .standard⟩

/-- An interaction over the pairs that the number should be. -/
def pairless : InteractionDecl := ⟨"pairs", .sparse, none, [("source", .text "data:k")], false⟩

/-- Both are refused, where a list is wanted. -/
theorem refused_iff_stumbles_bare : ¬ Carried (Document.parse numbered true) ∧
    Interaction.resolve ⟨single.lookup default, [], 0, default, none⟩ pairless =
      .error (.refusal (.plain .badType)) := by
  obtain ⟨⟨hcarried, -⟩, -, hresolve⟩ :=
    refused_iff_stumbles numbered [("k", .int 3)] pairless [] 0 default none
  constructor
  · have hterm : Document.TermStumbles numberedTerm (.plain .badType) :=
      .compat (rfl : Document.termKind? numberedTerm = some .analytic) rfl trivial
    rw [hcarried]
    exact fun hnone => hnone _ (.term (List.mem_singleton.mpr rfl) rfl hterm)
  · refine ((hresolve single rfl).1 _).mpr ?_
    exact Interaction.ListStumbles.lone rfl ⟨_, rfl, rfl, nofun⟩

end EnergyGraph
