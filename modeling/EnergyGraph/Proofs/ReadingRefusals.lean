-- Where the reading of a document is refused. Besides its terms these are the weights of uses,
-- as formulas; what a hamiltonian couples, where that is no list, no text and no mapping; and a
-- parameter of an aggregator that is an integer beyond the range of doubles. Everything else that
-- is wrong with a document is told.
import EnergyGraph.Proofs.FiniteDoubles
import EnergyGraph.Proofs.TermRefusals

namespace EnergyGraph

namespace Document

/-! ## Aggregators -/

/-- An integer beyond the range of doubles. -/
def IsTooLarge (v : Value) : Prop := ∃ n : Int, v = .int n ∧ Decimal.limit ≤ n.natAbs

theorem number_cases (v : Value) : (IsTooLarge v ∧ Payload.number v = .error (.plain .tooLarge)) ∨
    ¬ IsTooLarge v ∧ ((∃ x, Payload.number v = .ok x) ∨
      ∃ r, Payload.number v = .error r ∧ (r.kind = .badType ∨ r.kind = .badValue)) := by
  unfold IsTooLarge Payload.number
  cases v with
  | int n =>
    simp only [Value.int.injEq, exists_eq_left', ← Decimal.ofInt?_eq_none_iff]
    cases Decimal.ofInt? n with
    | none => exact Or.inl ⟨rfl, rfl⟩
    | some x => exact Or.inr ⟨nofun, Or.inl ⟨x, rfl⟩⟩
  | text s =>
    dsimp only
    cases Decimal.readFloat? s with
    | none => exact Or.inr ⟨by simp, Or.inr ⟨_, rfl, Or.inr rfl⟩⟩
    | some x => exact Or.inr ⟨by simp, Or.inl ⟨x, rfl⟩⟩
  | bool b => exact Or.inr ⟨by simp, Or.inl ⟨_, rfl⟩⟩
  | float x => exact Or.inr ⟨by simp, Or.inl ⟨_, rfl⟩⟩
  | _ => exact Or.inr ⟨by simp, Or.inr ⟨_, rfl, Or.inl rfl⟩⟩

/-- The parameters of an aggregator, which are read one after the other. -/
def betaOf (o : Object) : Value := (member? o "beta").getD (.float 1.0)

def alphaOf (o : Object) : Value := (member? o "alpha").getD (.float 0.95)

/-- A parameter of an aggregator is too large, and those before it are numbers. -/
def HasLargeParameter (o : Object) : Prop :=
  IsTooLarge (betaOf o) ∨ (∃ x, Payload.number (betaOf o) = .ok x) ∧ IsTooLarge (alphaOf o)

/-- An aggregator is made, is told why it is none, or has a parameter that is too large. -/
theorem aggregatorOf_cases (kind : Aggregator.Kind) (o : Object) :
    (HasLargeParameter o ∧ aggregatorOf kind o = .error (.plain .tooLarge)) ∨
      ¬ HasLargeParameter o ∧ ((∃ a, aggregatorOf kind o = .ok a) ∨
        ∃ r, aggregatorOf kind o = .error r ∧ (r.kind = .badType ∨ r.kind = .badValue)) := by
  unfold HasLargeParameter aggregatorOf
  rw [← betaOf, ← alphaOf]
  rcases number_cases (betaOf o) with ⟨hlarge, h⟩ | ⟨hbeta, ⟨beta, h⟩ | ⟨r, h, hkind⟩⟩
  · exact Or.inl ⟨Or.inl hlarge, by rw [h]; rfl⟩
  · rw [h, ok_bind]
    rcases number_cases (alphaOf o) with ⟨hlarge, h'⟩ | ⟨halpha, ⟨alpha, h'⟩ | ⟨r, h', hkind⟩⟩
    · exact Or.inl ⟨Or.inr ⟨⟨beta, rfl⟩, hlarge⟩, by rw [h']; rfl⟩
    · refine Or.inr ⟨by simp [hbeta, halpha], ?_⟩
      rw [h', ok_bind]
      cases Aggregator.check ⟨kind, beta, alpha⟩ with
      | ok a => exact Or.inl ⟨a, rfl⟩
      | error f => exact Or.inr ⟨_, rfl, Or.inr rfl⟩
    · exact Or.inr ⟨by simp [hbeta, halpha], Or.inr ⟨r, by rw [h']; rfl, hkind⟩⟩
  · exact Or.inr ⟨by simp [hbeta, h], Or.inr ⟨r, by rw [h]; rfl, hkind⟩⟩

/-- The members of an aggregator; a text is the name of its kind. -/
def aggregatorMembers? : Value → Option Object
  | .text s => some [("kind", .text s)]
  | .object o => some o
  | _ => none

/-- An aggregator of a known kind with a parameter that is too large. -/
def AggregatorStumbles (v : Value) : Prop :=
  ∃ o kind, aggregatorMembers? v = some o ∧
    word? Aggregator.Kind.ofName? (memberOr o "kind" "type") = some kind ∧ HasLargeParameter o

theorem silent_readAggregatorOf (o : Object) (path : List String) {r : Refusal} :
    (readAggregatorOf o path : Silent (Option (Aggregator Float))) = .error r ↔
      (∃ kind, word? Aggregator.Kind.ofName? (memberOr o "kind" "type") = some kind) ∧
        HasLargeParameter o ∧ r = .plain .tooLarge := by
  unfold readAggregatorOf
  dsimp only
  rw [silent_readWord, ok_bind]
  cases word? Aggregator.Kind.ofName? (memberOr o "kind" "type") with
  | none => exact iff_of_false nofun (by simp)
  | some kind =>
    dsimp only
    rcases aggregatorOf_cases kind o with ⟨hlarge, h⟩ | ⟨hsmall, ⟨a, h⟩ | ⟨r', h, hkind⟩⟩
    · rw [h]
      simp only [hlarge, Option.some.injEq, exists_eq', true_and]
      exact ⟨fun h => by cases h; rfl, fun h => by cases h; rfl⟩
    · rw [h]
      exact iff_of_false nofun (by simp [hsmall])
    · rw [h]
      dsimp only
      rw [if_pos hkind]
      exact iff_of_false nofun (by simp [hsmall])

theorem aggregatorStumbles_iff {v : Value} {o : Object} (h : aggregatorMembers? v = some o) :
    AggregatorStumbles v ↔
      (∃ kind, word? Aggregator.Kind.ofName? (memberOr o "kind" "type") = some kind) ∧
        HasLargeParameter o := by
  constructor
  · rintro ⟨o', kind, h', hkind, hlarge⟩
    cases h.symm.trans h'
    exact ⟨⟨kind, hkind⟩, hlarge⟩
  · rintro ⟨⟨kind, hkind⟩, hlarge⟩
    exact ⟨o, kind, h, hkind, hlarge⟩

theorem silent_readAggregator (raw : Value) (path : List String) {r : Refusal} :
    (readAggregator raw path : Silent (Option (Aggregator Float))) = .error r ↔
      AggregatorStumbles raw ∧ r = .plain .tooLarge := by
  unfold readAggregator
  cases raw with
  | text s =>
    rw [silent_readAggregatorOf, aggregatorStumbles_iff rfl, and_assoc]
  | object o =>
    rw [silent_readAggregatorOf, aggregatorStumbles_iff rfl, and_assoc]
  | _ => exact iff_of_false nofun (by simp [AggregatorStumbles, aggregatorMembers?])

/-! ## Components -/

theorem passes_readBind (raw : Value) (path : List String) : Passes (readBind raw path) := by
  unfold readBind
  dsimp only
  split
  · exact passes_ok _
  · split
    · exact passes_ok _
    · split <;> exact passes_ok _

theorem passes_readInteraction (id : String) (body : Value) (path : List String) (inline : Bool) :
    Passes (readInteraction id body path inline) := by
  unfold readInteraction
  split
  · dsimp only
    split
    · exact passes_ok _
    · refine passes_bind (passes_readWord _ _ _ _ _) fun kind => ?_
      cases kind with
      | none => exact passes_ok _
      | some kind => exact passes_bind (passes_readBind _ _) fun _ => passes_ok _
  · exact passes_ok _

/-- The interaction of a component; nothing at all is the name of one. -/
def interactionOf (o : Object) : Value :=
  match member o "interaction" with
  | .null => .text "none"
  | v => v

/-- The term and the interaction of a component are named, or declared without a mistake. -/
def ReferencesRead (id : String) (o : Object) (term : Value) : Prop :=
  (∃ t, (readReference term id "term" ["components", id] readTerm :
      Silent (Option (Reference TermDecl))) = .ok (some t)) ∧
    ∃ i, (readReference (interactionOf o) id "interaction" ["components", id] readInteraction :
      Silent (Option (Reference InteractionDecl))) = .ok (some i)

/-- Why the reading of a component is refused: for a term that is declared in place, or else for
its aggregator. -/
inductive ComponentStumbles (id : String) : Value → Refusal → Prop
  | term {o m : Object} {r : Refusal} (hterm : member? o "term" = some (.object m))
      (h : TermStumbles m r) : ComponentStumbles id (.object o) r
  | aggregator {o : Object} {term : Value} (hterm : member? o "term" = some term)
      (hread : ReferencesRead id o term) (h : AggregatorStumbles (memberOr o "agg" "aggregator")) :
    ComponentStumbles id (.object o) (.plain .tooLarge)

theorem silent_readReference_term (raw : Value) (id : String) (path : List String) {r : Refusal} :
    (readReference raw id "term" path readTerm : Silent (Option (Reference TermDecl))) = .error r ↔
      ∃ m, raw = .object m ∧ TermStumbles m r := by
  unfold readReference
  cases raw with
  | object m =>
    dsimp only
    simp only [Value.object.injEq, exists_eq_left']
    rw [bind_eq_error, silent_readTerm_object]
    exact or_iff_left nofun
  | _ => exact iff_of_false nofun (by simp)

theorem passes_readReference_interaction (raw : Value) (id : String) (path : List String) :
    Passes (readReference raw id "interaction" path readInteraction) := by
  unfold readReference
  split
  · exact passes_bind (passes_readInteraction _ _ _ _) fun _ => passes_ok _
  · exact passes_ok _

theorem componentStumbles_iff {id : String} {o : Object} {term : Value} {r : Refusal}
    (hterm : member? o "term" = some term) : ComponentStumbles id (.object o) r ↔
      (∃ m, term = .object m ∧ TermStumbles m r) ∨
        ReferencesRead id o term ∧ AggregatorStumbles (memberOr o "agg" "aggregator") ∧
          r = .plain .tooLarge := by
  constructor
  · rintro (⟨hterm', h⟩ | ⟨hterm', hread, h⟩)
    · exact Or.inl ⟨_, Option.some.inj (hterm.symm.trans hterm'), h⟩
    · cases hterm.symm.trans hterm'
      exact Or.inr ⟨hread, h, rfl⟩
  · rintro (⟨m, rfl, h⟩ | ⟨hread, h, rfl⟩)
    · exact .term hterm h
    · exact .aggregator hterm hread h

/-- Where nothing is told of an aggregator, none is read. -/
theorem silent_aggregator {β : Type} {raw : Value} {path : List String} {nothing : β}
    {something : Option (Aggregator Float) → Silent β} (hf : ∀ a, ∃ b, something a = .ok b)
    {r : Refusal} :
    (match raw with
      | .null => .ok nothing
      | raw => readAggregator raw path >>= something : Silent β) = .error r ↔
        AggregatorStumbles raw ∧ r = .plain .tooLarge := by
  have hread : ∀ raw : Value, (readAggregator raw path >>= something : Silent β) = .error r ↔
      AggregatorStumbles raw ∧ r = .plain .tooLarge := by
    intro raw
    rw [bind_eq_error, silent_readAggregator]
    refine or_iff_left ?_
    rintro ⟨a, -, h⟩
    obtain ⟨b, hb⟩ := hf a
    rw [hb] at h
    cases h
  cases raw with
  | null => exact iff_of_false nofun (by simp [AggregatorStumbles, aggregatorMembers?])
  | _ => exact hread _

theorem silent_readComponent (id : String) (body : Value) {r : Refusal} :
    (readComponent id body ["components", id] : Silent (Option ComponentDecl)) = .error r ↔
      ComponentStumbles id body r := by
  unfold readComponent
  cases body with
  | object o =>
    dsimp only
    rcases hterm : member? o "term" with _ | term
    · refine iff_of_false nofun ?_
      rintro (⟨hterm', -⟩ | ⟨hterm', -, -⟩) <;> exact absurd (hterm.symm.trans hterm') nofun
    dsimp only
    rw [componentStumbles_iff hterm, ← silent_readReference_term term id ["components", id]]
    unfold ReferencesRead
    rcases hread : (readReference term id "term" ["components", id] readTerm :
      Silent (Option (Reference TermDecl))) with r' | _ | t
    · refine ⟨fun h => Or.inl (by cases h; rfl), ?_⟩
      rintro (h | ⟨⟨⟨t, h⟩, -⟩, -⟩) <;> cases h
      rfl
    · exact iff_of_false nofun (by simp)
    rw [ok_bind]
    obtain ⟨i?, hi⟩ := passes_readReference_interaction (interactionOf o) id ["components", id]
    refine (bind_of_ok hi).trans ?_
    rw [hi]
    cases i? with
    | none => exact iff_of_false nofun (by simp)
    | some i =>
      refine (silent_aggregator fun a => by cases a <;> exact ⟨_, rfl⟩).trans ?_
      simp
  | _ => exact iff_of_false nofun nofun

/-! ## Hamiltonians and the ensemble -/

/-- The weight of a use that is a mapping, under a key. -/
def weightOf? (key : String) : Value → Option Value
  | .object o => if (member? o "use").isSome then some ((member? o key).getD (.int 1)) else none
  | _ => none

/-- A weight with an integer that has too many digits. -/
def UseStumbles (key : String) (item : Value) : Prop :=
  ∃ w, weightOf? key item = some w ∧ w.HasLongInteger

/-- An id alone, or a mapping with a weight that is a formula. -/
def UseReads (key : String) (item : Value) : Prop :=
  (∃ id, item = .text id) ∨ ∃ w f, weightOf? key item = some w ∧
    Formula.ofValue w (.count 0) = .ok f

theorem silent_readUse (item : Value) (key : String) (path : List String) {r : Refusal} :
    (readUse item key path : Silent (Option WeightedUse)) = .error r ↔
      UseStumbles key item ∧ r = .plain .badValue := by
  unfold readUse UseStumbles
  cases item with
  | object o =>
    dsimp only [weightOf?]
    cases member? o "use" with
    | none => exact iff_of_false nofun (by simp)
    | some use =>
      dsimp only
      simp only [Option.isSome_some, if_true, Option.some.injEq, exists_eq_left']
      rw [bind_eq_error, silent_readFormula isNatural_zero]
      refine or_iff_left ?_
      rintro ⟨f, -, h⟩
      cases f <;> cases h
  | _ => exact iff_of_false nofun (by simp [weightOf?])

theorem silent_readUse_eq_some {item : Value} {key : String} (path : List String) :
    (∃ use, (readUse item key path : Silent (Option WeightedUse)) = .ok (some use)) ↔
      UseReads key item := by
  unfold readUse UseReads
  cases item with
  | text id => exact iff_of_true ⟨_, rfl⟩ (Or.inl ⟨id, rfl⟩)
  | object o =>
    dsimp only [weightOf?]
    cases member? o "use" with
    | none => exact iff_of_false nofun (by simp)
    | some use =>
      dsimp only
      simp only [reduceCtorEq, exists_false, false_or, Option.isSome_some, if_true,
        Option.some.injEq, exists_and_left, exists_eq_left']
      constructor
      · rintro ⟨use', h⟩
        obtain ⟨f, hf, h⟩ := bind_eq_ok.mp h
        cases f with
        | none => cases h
        | some f => exact ⟨f, silent_readFormula_eq_some.mp hf⟩
      · rintro ⟨f, hf⟩
        exact ⟨⟨use.plain, f⟩, bind_eq_ok.mpr ⟨some f, silent_readFormula_eq_some.mpr hf, rfl⟩⟩
  | _ => exact iff_of_false nofun (by simp [weightOf?])

theorem silent_readUses (key : String) (path : List String) (place : Nat) (items : List Value)
    {r : Refusal} : (readUses key path place items : Silent (List (Option WeightedUse))) =
      .error r ↔ (∃ item ∈ items, UseStumbles key item) ∧ r = .plain .badValue := by
  induction items generalizing place with
  | nil => exact iff_of_false nofun (by simp)
  | cons item rest ih =>
    unfold readUses
    rw [bind_eq_error, silent_readUse]
    rw [List.exists_mem_cons_iff, or_and_right]
    constructor
    · rintro (h | ⟨use, -, h⟩)
      · exact Or.inl h
      · exact Or.inr ((ih _).mp ((bind_eq_error.mp h).resolve_right nofun))
    · rintro (h | h)
      · exact Or.inl h
      · rcases huse : (readUse item key (path ++ [toString place]) :
          Silent (Option WeightedUse)) with r' | use
        · -- An item before is refused as well, and all of them for the same reason.
          obtain ⟨hitem, rfl⟩ := (silent_readUse item key _).mp huse
          exact Or.inl ⟨hitem, h.2⟩
        · exact Or.inr ⟨use, rfl, bind_eq_error.mpr (Or.inl ((ih _).mpr h))⟩

/-- The uses of a list are all there exactly if each of them is read. -/
theorem silent_readUses_eq_ok {key : String} {path : List String} {place : Nat}
    {items : List Value} {uses : List (Option WeightedUse)}
    (h : (readUses key path place items : Silent (List (Option WeightedUse))) = .ok uses) :
    (∃ cs, uses.mapM (fun use => use) = some cs) ↔ ∀ item ∈ items, UseReads key item := by
  induction items generalizing place uses with
  | nil =>
    cases h
    exact iff_of_true ⟨[], rfl⟩ (List.forall_mem_nil _)
  | cons item rest ih =>
    unfold readUses at h
    obtain ⟨use, huse, h⟩ := bind_eq_ok.mp h
    obtain ⟨others, hothers, h⟩ := bind_eq_ok.mp h
    cases h
    rw [List.forall_mem_cons, ← ih hothers, ← silent_readUse_eq_some (path ++ [toString place]),
      huse, List.mapM_cons]
    cases use with
    | none => exact iff_of_false nofun (by simp)
    | some u =>
      cases others.mapM fun use => use with
      | none => exact iff_of_false nofun (by simp)
      | some us => exact iff_of_true ⟨_, rfl⟩ ⟨⟨u, rfl⟩, ⟨us, rfl⟩⟩

/-- Why the reading of a hamiltonian is refused: for a weight, or for what it couples if all its
components are read. -/
inductive HamiltonianStumbles : Value → Refusal → Prop
  | weight {o : Object} {items : List Value} (hitems : member o "components" = .list items)
      (h : ∃ item ∈ items, UseStumbles "alpha" item) :
    HamiltonianStumbles (.object o) (.plain .badValue)
  | couples {o : Object} {items : List Value} (hitems : member o "components" = .list items)
      (hread : ∀ item ∈ items, UseReads "alpha" item) (htruthy : (member o "couples").truthy = true)
      (hbare : IsBare (member o "couples")) :
    HamiltonianStumbles (.object o) (.plain .badType)

theorem not_useStumbles_of_reads {key : String} {item : Value} (h : UseReads key item) :
    ¬ UseStumbles key item := by
  rintro ⟨w, hw, hlong⟩
  rcases h with ⟨id, rfl⟩ | ⟨w', f, hw', hf⟩
  · cases hw
  · cases hw.symm.trans hw'
    have hrefused := (Formula.ofValue_eq_refused isNatural_zero).mpr ⟨hlong, rfl⟩
    rw [hf] at hrefused
    cases hrefused

theorem hamiltonianStumbles_iff {o : Object} {items : List Value} {r : Refusal}
    (hitems : member o "components" = .list items) : HamiltonianStumbles (.object o) r ↔
      ((∃ item ∈ items, UseStumbles "alpha" item) ∧ r = .plain .badValue) ∨
        (∀ item ∈ items, UseReads "alpha" item) ∧ (member o "couples").truthy = true ∧
          IsBare (member o "couples") ∧ r = .plain .badType := by
  constructor
  · rintro (⟨hitems', h⟩ | ⟨hitems', hread, htruthy, hbare⟩) <;>
      cases hitems.symm.trans hitems'
    · exact Or.inl ⟨h, rfl⟩
    · exact Or.inr ⟨hread, htruthy, hbare, rfl⟩
  · rintro (⟨h, rfl⟩ | ⟨hread, htruthy, hbare, rfl⟩)
    · exact .weight hitems h
    · exact .couples hitems hread htruthy hbare

theorem silent_readCouples (raw : Value) {r : Refusal} :
    (readCouples raw : Silent (List String)) = .error r ↔
      raw.truthy = true ∧ IsBare raw ∧ r = .plain .badType := by
  unfold readCouples
  split
  · rename_i htruthy
    rcases silent_readTexts raw with ⟨hbare, h⟩ | ⟨hlisted, texts, h⟩
    · rw [h]
      simp only [htruthy, hbare, true_and]
      exact ⟨fun h => by cases h; rfl, fun h => by cases h; rfl⟩
    · rw [h]
      exact iff_of_false nofun (by simp [hlisted])
  · rename_i hfalsy
    exact iff_of_false nofun (by simp [hfalsy])

theorem silent_readHamiltonian (id : String) (body : Value) (path : List String) {r : Refusal} :
    (readHamiltonian id body path : Silent (Option HamiltonianDecl)) = .error r ↔
      HamiltonianStumbles body r := by
  unfold readHamiltonian
  cases body with
  | object o =>
    dsimp only
    have hnone : (∀ items, member o "components" ≠ .list items) →
        ¬ HamiltonianStumbles (.object o) r := by
      rintro h (⟨hitems, -⟩ | ⟨hitems, -⟩) <;> exact h _ hitems
    cases hitems : member o "components" with
    | list items =>
      rw [hamiltonianStumbles_iff hitems, ← silent_readUses "alpha" (path ++ ["components"]) 0]
      dsimp only
      rcases huses : (readUses "alpha" (path ++ ["components"]) 0 items :
        Silent (List (Option WeightedUse))) with r' | uses
      · -- A weight is refused, so that not all uses are read.
        obtain ⟨⟨item, hmem, hitem⟩, -⟩ := (silent_readUses _ _ _ _).mp huses
        refine ⟨fun h => Or.inl (by cases h; rfl), ?_⟩
        rintro (h | ⟨hread, -⟩)
        · cases h
          rfl
        · exact absurd hitem (not_useStumbles_of_reads (hread item hmem))
      · rw [← silent_readUses_eq_ok huses, ← silent_readCouples]
        refine (bind_of_ok rfl).trans ?_
        cases uses.mapM fun use => use with
        | none => exact iff_of_false nofun (by simp)
        | some cs =>
          dsimp only
          rw [bind_eq_error]
          simp only [reduceCtorEq, Option.some.injEq, exists_eq', true_and, false_or]
          refine or_iff_left ?_
          rintro ⟨couples, -, h⟩
          split at h
          · cases h
          · rw [silent_readWord, ok_bind] at h
            split at h <;> cases h
    | _ => exact iff_of_false nofun (hnone (by simp [hitems]))
  | _ => exact iff_of_false nofun nofun

/-- The uses of an ensemble, listed or under one of two names. -/
def ensembleList : Value → Value
  | .object o => memberOr o "hamiltonians" "members"
  | v => v

theorem silent_listedUses {key : String} {path : List String} {f : Fault} {fpath : List String}
    (listed : Value) {r : Refusal} :
    ((match listed with
      | .list items => do
        let uses ← readUses key path 0 items
        pure (uses.filterMap fun use => use)
      | _ => do
        report f fpath
        pure []) : Silent (List WeightedUse)) = .error r ↔
      ∃ items, listed = .list items ∧ (∃ item ∈ items, UseStumbles key item) ∧
        r = .plain .badValue := by
  cases listed with
  | list items =>
    simp only [Value.list.injEq, exists_eq_left']
    rw [bind_eq_error, silent_readUses]
    exact or_iff_left nofun
  | _ => exact iff_of_false nofun (by simp)

theorem silent_readEnsemble (raw : Value) {r : Refusal} :
    (readEnsemble raw : Silent (List WeightedUse)) = .error r ↔
      ∃ items, ensembleList raw = .list items ∧ (∃ item ∈ items, UseStumbles "weight" item) ∧
        r = .plain .badValue := by
  unfold readEnsemble
  split
  · rename_i hnull
    cases raw with
    | null => exact iff_of_false nofun (by simp [ensembleList])
    | _ => cases hnull
  · exact silent_listedUses (ensembleList raw)

/-! ## Documents -/

/-- Why the reading of a document is refused. -/
inductive Stumbles : Value → Refusal → Prop
  | term {o : Object} {e : String × Value} {m : Object} {r : Refusal}
      (he : e ∈ entriesOf (member o "terms")) (hm : termMembers? e.2 = some m)
      (h : TermStumbles m r) : Stumbles (.object o) r
  | component {o : Object} {e : String × Value} {r : Refusal}
      (he : e ∈ entriesOf (member o "components")) (h : ComponentStumbles e.1 e.2 r) :
    Stumbles (.object o) r
  | hamiltonian {o : Object} {e : String × Value} {r : Refusal}
      (he : e ∈ entriesOf (member o "hamiltonians")) (h : HamiltonianStumbles e.2 r) :
    Stumbles (.object o) r
  | ensemble {o : Object} {items : List Value} {item : Value}
      (hitems : ensembleList (member o "ensemble") = .list items) (hitem : item ∈ items)
      (h : UseStumbles "weight" item) : Stumbles (.object o) (.plain .badValue)

theorem passes_readSection {α : Type} (raw : Value) (part : String)
    {read : String → Value → List String → Silent (Option α)}
    (h : ∀ key body path, Passes (read key body path)) : Passes (readSection raw part read) := by
  unfold readSection
  rw [silent_entries]
  exact passes_filterMapM _ fun e => h _ _ _

theorem passes_readBounds (raw : Value) (path : List String) :
    Passes (readBounds raw path) := by
  unfold readBounds
  split <;> exact passes_ok _

theorem passes_readShape (raw : Value) (path : List String) : Passes (readShape raw path) := by
  unfold readShape
  dsimp only
  split <;> exact passes_ok _

theorem passes_readParameter (name : String) (body : Value) (path : List String) :
    Passes (readParameter name body path) := by
  unfold readParameter
  split
  · exact passes_ok _
  · dsimp only
    split
    · split
      · exact passes_ok _
      · exact passes_bind (passes_readBounds _ _) fun _ => passes_ok _
    · exact passes_ok _

theorem passes_readVariable (name : String) (body : Value) (path : List String) :
    Passes (readVariable name body path) := by
  unfold readVariable
  split
  · exact passes_ok _
  refine passes_bind (passes_readWord _ _ _ _ _) fun type => ?_
  cases type with
  | none => exact passes_ok _
  | some type =>
    refine passes_bind (passes_readShape _ _) fun shape => ?_
    cases shape with
    | none => exact passes_ok _
    | some shape => exact passes_bind (passes_readBounds _ _) fun _ => passes_ok _

theorem passes_readData (name : String) (body : Value) (path : List String) :
    Passes (readData name body path) := by
  unfold readData
  split
  · exact passes_ok _
  · split
    · exact passes_ok _
    · dsimp only
      split
      · exact passes_bind (passes_readShape _ _) fun _ => passes_ok _
      · exact passes_bind (passes_ok none) fun _ => passes_ok _
  · exact passes_ok _

theorem passes_readFunction (id : String) (body : Value) (path : List String) :
    Passes (readFunction id body path) := by
  unfold readFunction
  split
  · dsimp only
    split
    · exact passes_ok _
    · refine passes_bind (passes_readWord _ _ _ _ _) fun kind => ?_
      cases kind <;> exact passes_ok _
  · exact passes_ok _

theorem passes_checkNamespaces (named : List (String × List String)) :
    Passes (checkNamespaces named) := by
  refine passes_bind (passes_foldlM _ _ fun owners entry => ?_) fun _ => passes_ok _
  dsimp only
  split <;> exact passes_ok _

theorem passes_checkHeader (o : Object) : Passes (checkHeader o) := by
  refine passes_bind (passes_forIn _ _ fun entry _ => ?_) fun _ => passes_bind ?_ fun _ => ?_
  · dsimp only
    split <;> exact passes_ok _
  · unfold checkVersion
    split
    · exact passes_ok _
    · split <;> exact passes_ok _
  · unfold checkName
    split
    · exact passes_ok _
    · split <;> exact passes_ok _
    · exact passes_ok _

theorem passes_readConventions (raw : Value) : Passes (readConventions raw) := by
  unfold readConventions
  split
  · exact passes_ok _
  · refine passes_bind ?_ fun base => passes_bind ?_ fun _ => passes_ok _
    · unfold readIndexBase
      split <;> exact passes_ok _
    · unfold checkLanguage
      split <;> exact passes_ok _
  · exact passes_ok _

theorem blames_terms (raw : Value) :
    Blames (readSection raw "terms" fun id body path => readTerm id body path false) fun r =>
      ∃ e ∈ entriesOf raw, ∃ m, termMembers? e.2 = some m ∧ TermStumbles m r :=
  blames_readSection raw "terms"
    (fun _ body r => ∃ m, termMembers? body = some m ∧ TermStumbles m r) fun key body =>
      Blames.of_iff fun _ => silent_readTerm key body ["terms", key] false

theorem blames_components (raw : Value) :
    Blames (readSection raw "components" readComponent) fun r =>
      ∃ e ∈ entriesOf raw, ComponentStumbles e.1 e.2 r :=
  blames_readSection raw "components" ComponentStumbles fun key body =>
    Blames.of_iff fun _ => silent_readComponent key body

theorem blames_hamiltonians (raw : Value) :
    Blames (readSection raw "hamiltonians" readHamiltonian) fun r =>
      ∃ e ∈ entriesOf raw, HamiltonianStumbles e.2 r :=
  blames_readSection raw "hamiltonians" (fun _ => HamiltonianStumbles) fun key body =>
    Blames.of_iff fun _ => silent_readHamiltonian key body ["hamiltonians", key]

theorem stumbles_iff {o : Object} {r : Refusal} : Stumbles (.object o) r ↔
    (∃ e ∈ entriesOf (member o "terms"), ∃ m, termMembers? e.2 = some m ∧ TermStumbles m r) ∨
      (∃ e ∈ entriesOf (member o "components"), ComponentStumbles e.1 e.2 r) ∨
        (∃ e ∈ entriesOf (member o "hamiltonians"), HamiltonianStumbles e.2 r) ∨
          ∃ items, ensembleList (member o "ensemble") = .list items ∧
            (∃ item ∈ items, UseStumbles "weight" item) ∧ r = .plain .badValue := by
  constructor
  · rintro (⟨he, hm, h⟩ | ⟨he, h⟩ | ⟨he, h⟩ | ⟨hitems, hitem, h⟩)
    · exact Or.inl ⟨_, he, _, hm, h⟩
    · exact Or.inr (Or.inl ⟨_, he, h⟩)
    · exact Or.inr (Or.inr (Or.inl ⟨_, he, h⟩))
    · exact Or.inr (Or.inr (Or.inr ⟨_, hitems, ⟨_, hitem, h⟩, rfl⟩))
  · rintro (⟨e, he, m, hm, h⟩ | ⟨e, he, h⟩ | ⟨e, he, h⟩ | ⟨items, hitems, ⟨item, hitem, h⟩, rfl⟩)
    · exact .term he hm h
    · exact .component he h
    · exact .hamiltonian he h
    · exact .ensemble hitems hitem h

/-- The reading of a document is refused exactly if it stumbles, and as something that it stumbles
over is. -/
theorem blames_check (v : Value) : Blames (check v : Silent Document) (Stumbles v) := by
  unfold check
  split
  · rename_i o
    refine .after (passes_checkHeader o) fun _ => ?_
    refine .after (passes_readConventions _) fun ⟨_, _⟩ => ?_
    refine .after (passes_readSection _ _ passes_readParameter) fun _ => ?_
    refine .after (passes_readSection _ _ passes_readVariable) fun _ => ?_
    refine .after (passes_readSection _ _ passes_readData) fun _ => ?_
    refine .after (passes_readSection _ _ passes_readFunction) fun _ => ?_
    refine .after (passes_checkNamespaces _) fun _ => ?_
    refine .after (passes_readSection _ _ fun _ _ _ => passes_readInteraction _ _ _ _) fun _ => ?_
    refine Blames.congr ?_ fun r => stumbles_iff.symm
    refine (blames_terms _).bind fun _ => (blames_components _).bind fun _ =>
      (blames_hamiltonians _).bind fun _ => ?_
    refine .of_iff fun r => ?_
    rw [bind_eq_error, silent_readEnsemble]
    exact or_iff_left nofun
  · rename_i hother
    refine .of_iff fun r => iff_of_false nofun ?_
    rintro (_ | _ | _ | _) <;> exact hother _ rfl

end Document

end EnergyGraph
