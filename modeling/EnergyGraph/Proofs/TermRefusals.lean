-- Where the reading of a term is refused: for what it is compatible with, where that is no list,
-- no text and no mapping, and for an integer inside of a formula that has too many digits. What
-- every section of a document shares, its entries and its words, is never refused.
import EnergyGraph.Proofs.SilentReading

namespace EnergyGraph

/-! ## Formulas -/

/-- A text with an integer that has too many digits, and no mistake before it that shows up
when the text is cut into tokens. -/
def Value.HasLongInteger (v : Value) : Prop :=
  ∃ text, v = .text text ∧ Expr.tokensFrom 0 text.toList = .error .longInteger

/-- A number of symbols, if it is one, is not negative. -/
def Arity.IsNatural (a : Arity) : Prop := ∀ n, a = .count n → 0 ≤ n

theorem Expr.parse_eq_longInteger {text : String} :
    parse text = .error .longInteger ↔ tokensFrom 0 text.toList = .error .longInteger := by
  unfold parse
  dsimp only
  rw [bind_eq_error]
  constructor
  · rintro (h | ⟨tokens, -, h⟩)
    · exact h
    · cases hparsed : ofTokens text.toList.length tokens with
      | error m =>
        rw [hparsed] at h
        cases h
      | ok e =>
        rw [hparsed] at h
        cases h
  · exact Or.inl

theorem Formula.ofText_eq_longInteger {text : String} {arity : Arity} (harity : arity.IsNatural) :
    ofText text arity = .error .longInteger ↔
      Expr.tokensFrom 0 text.toList = .error .longInteger := by
  rw [← Expr.parse_eq_longInteger]
  have hplain : ∀ a : Arity, (Expr.parse text >>= fun e => .ok ⟨text, e, a⟩ :
      Except Expr.Unreadable Formula) = .error .longInteger ↔
        Expr.parse text = .error .longInteger := by
    intro a
    rw [bind_eq_error]
    exact or_iff_left nofun
  unfold ofText
  cases arity with
  | unspecified => exact hplain _
  | named name => exact hplain _
  | count n =>
    dsimp only
    rw [if_neg (Int.not_lt.mpr (harity n rfl)), bind_eq_error]
    refine or_iff_left ?_
    rintro ⟨e, -, h⟩
    split at h <;> cases h

theorem Formula.ofValue_eq_refused {v : Value} {arity : Arity} (harity : arity.IsNatural)
    {r : Refusal} : ofValue v arity = .error (.refusal r) ↔
      v.HasLongInteger ∧ r = .plain .badValue := by
  unfold Value.HasLongInteger
  cases v with
  | text s =>
    have hlong : ofText s arity = .error .longInteger ↔ _ := ofText_eq_longInteger harity
    simp only [Value.text.injEq, exists_eq_left', ← hlong]
    change (ofText s arity).mapError _ = _ ↔ _
    rcases ofText s arity with (m | _) | f
    · exact iff_of_false nofun (by simp)
    · simp [Except.mapError, Expr.Unreadable.failure, eq_comm]
    · exact iff_of_false nofun (by simp)
  | _ => exact iff_of_false nofun (by simp)

namespace Document

/-! ## What is never refused -/

/-- The word that a value names. -/
def word? {α : Type} (ofName? : String → Option α) : Value → Option α
  | .text s => ofName? s
  | _ => none

theorem silent_readWord {α : Type} (what : String) (expected : List String)
    (ofName? : String → Option α) (given : Value) (path : List String) :
    (readWord what expected ofName? given path : Silent (Option α)) =
      .ok (word? ofName? given) := by
  cases given with
  | text s =>
    unfold readWord word?
    dsimp only
    cases ofName? s <;> rfl
  | _ => rfl

theorem passes_readWord {α : Type} (what : String) (expected : List String)
    (ofName? : String → Option α) (given : Value) (path : List String) :
    Passes (readWord what expected ofName? given path) :=
  ⟨_, silent_readWord what expected ofName? given path⟩

/-- The entries of a list that have a key, under it. -/
def keyedItems (items : List Value) : Object :=
  items.filterMap fun item =>
    match item with
    | .object o => (entryKey? o).map fun key => (key.plain, item)
    | _ => none

/-- The first entry of each key. -/
def firstEntries (seen : List String) : Object → Object
  | [] => []
  | (key, body) :: rest =>
    if key ∈ seen then firstEntries seen rest else (key, body) :: firstEntries (key :: seen) rest

/-- The entries of a section that are read. -/
def entriesOf : Value → Object
  | .object members => firstEntries [] members
  | .list items => firstEntries [] (keyedItems items)
  | _ => []

theorem silent_listEntries (part : String) (place : Nat) (items : List Value) :
    (listEntries part place items : Silent Object) = .ok (keyedItems items) := by
  induction items generalizing place with
  | nil => rfl
  | cons item rest ih =>
    unfold listEntries keyedItems
    cases item with
    | object o =>
      dsimp only
      rw [List.filterMap_cons]
      dsimp only
      cases entryKey? o with
      | none => exact ih (place + 1)
      | some key =>
        dsimp only
        rw [ih]
        rfl
    | _ => exact ih (place + 1)

theorem silent_distinctEntries (part : String) (seen : List String) (members : Object) :
    (distinctEntries part seen members : Silent Object) = .ok (firstEntries seen members) := by
  induction members generalizing seen with
  | nil => rfl
  | cons entry rest ih =>
    unfold distinctEntries firstEntries
    split
    · exact ih seen
    · rw [ih]
      rfl

theorem silent_entries (raw : Value) (part : String) :
    (entries raw part : Silent Object) = .ok (entriesOf raw) := by
  unfold entries
  cases raw with
  | object members => exact silent_distinctEntries part [] members
  | list items =>
    dsimp only
    rw [silent_listEntries]
    exact silent_distinctEntries part [] (keyedItems items)
  | _ => rfl

/-- A section is refused exactly if one of its entries is. -/
theorem blames_readSection {α : Type} (raw : Value) (part : String)
    {read : String → Value → List String → Silent (Option α)}
    (cause : String → Value → Refusal → Prop)
    (h : ∀ key body, Blames (read key body [part, key]) (cause key body)) :
    Blames (readSection raw part read) fun r => ∃ e ∈ entriesOf raw, cause e.1 e.2 r := by
  unfold readSection
  rw [silent_entries]
  exact Blames.filterMapM (entriesOf raw) fun e => h e.1 e.2

/-! ## Terms -/

/-- The number of symbols that a value declares. -/
def arity? : Value → Option Arity
  | .null => some .unspecified
  | .text s => some (.named s)
  | .int n => if 0 ≤ n then some (.count n) else none
  | _ => none

theorem silent_readArity (raw : Value) (path : List String) :
    (readArity raw path : Silent (Option Arity)) = .ok (arity? raw) := by
  unfold readArity arity?
  cases raw with
  | int n =>
    dsimp only
    split <;> rfl
  | _ => rfl

theorem isNatural_zero : (Arity.count 0).IsNatural := by
  rintro n ⟨⟩
  exact Int.le_refl 0

theorem isNatural_of_arity? {raw : Value} {a : Arity} (h : arity? raw = some a) : a.IsNatural := by
  rintro n rfl
  cases raw with
  | int k =>
    unfold arity? at h
    dsimp only at h
    split at h
    · cases h
      assumption
    · cases h
  | _ => cases h

/-- A value that has no items and is no text. -/
def IsBare : Value → Prop
  | .null | .bool _ | .int _ | .float _ => True
  | .text _ | .list _ | .object _ => False

theorem silent_readTexts (raw : Value) :
    (IsBare raw ∧ (readTexts raw : Silent (List String)) = .error (.plain .badType)) ∨
      (¬ IsBare raw ∧ ∃ texts, (readTexts raw : Silent (List String)) = .ok texts) := by
  cases raw with
  | text s => exact Or.inr ⟨id, _, rfl⟩
  | list items => exact Or.inr ⟨id, _, rfl⟩
  | object members => exact Or.inr ⟨id, _, rfl⟩
  | _ => exact Or.inl ⟨trivial, rfl⟩

theorem silent_readFormula {v : Value} {arity : Arity} (harity : arity.IsNatural)
    (path : List String) {r : Refusal} :
    (readFormula v arity path : Silent (Option Formula)) = .error r ↔
      v.HasLongInteger ∧ r = .plain .badValue := by
  rw [← Formula.ofValue_eq_refused harity]
  have hsingly := Formula.singly_ofValue v arity
  unfold readFormula
  generalize Formula.ofValue v arity = x at hsingly ⊢
  rcases x with (d | ds | r') | f
  · exact iff_of_false nofun nofun
  · exact False.elim (hsingly _ rfl)
  · exact ⟨fun h => by cases h; rfl, fun h => by cases h; rfl⟩
  · exact iff_of_false nofun nofun

theorem silent_readFormula_eq_some {v : Value} {arity : Arity} {path : List String} {f : Formula} :
    (readFormula v arity path : Silent (Option Formula)) = .ok (some f) ↔
      Formula.ofValue v arity = .ok f := by
  have hsingly := Formula.singly_ofValue v arity
  unfold readFormula
  generalize Formula.ofValue v arity = x at hsingly ⊢
  rcases x with (d | ds | r') | f'
  · exact iff_of_false nofun nofun
  · exact False.elim (hsingly _ rfl)
  · exact iff_of_false nofun nofun
  · exact ⟨fun h => by cases h; rfl, fun h => by cases h; rfl⟩

/-- A formula has an integer with too many digits, and those before it are read. -/
def FormulasStumble (arity : Arity) : List Value → Refusal → Prop :=
  Interrupted (fun v => Formula.ofValue v arity) fun v r => v.HasLongInteger ∧ r = .plain .badValue

theorem silent_readArgs {arity : Arity} (harity : arity.IsNatural) (path : List String)
    (place : Nat) (items : List Value) {r : Refusal} :
    (readArgs arity path place items : Silent (Option (List Formula))) = .error r ↔
      FormulasStumble arity items r := by
  unfold FormulasStumble
  induction items generalizing place with
  | nil => exact iff_of_false nofun not_interrupted_nil
  | cons v rest ih =>
    unfold readArgs
    rw [interrupted_cons, bind_eq_error, silent_readFormula harity]
    refine or_congr_right ?_
    constructor
    · rintro ⟨o, hv, h⟩
      cases o with
      | none => cases h
      | some f =>
        rcases bind_eq_error.mp h with h | ⟨others, -, h⟩
        · exact ⟨⟨f, silent_readFormula_eq_some.mp hv⟩, (ih _).mp h⟩
        · cases others <;> cases h
    · rintro ⟨⟨f, hv⟩, hrest⟩
      exact ⟨some f, silent_readFormula_eq_some.mpr hv,
        bind_eq_error.mpr (Or.inl ((ih _).mpr hrest))⟩

/-- The members of a term's declaration. A number or a text alone declares a term too. -/
def termMembers? : Value → Option Object
  | .int n => some [("kind", .text "constant"), ("value", .int n)]
  | .float x => some [("kind", .text "constant"), ("value", .float x)]
  | .text s => some [("kind", .text "analytic"), ("expr", .text s)]
  | .object o => some o
  | _ => none

/-- The kind of a term, named or implied. -/
def termKind? (o : Object) : Option TermKind :=
  word? TermKind.ofName? <|
    match member o "kind" with
    | .null => .text (impliedKind o)
    | v => v

/-- What a term is compatible with. -/
def compatOf (o : Object) : Value := (member? o "compat").getD (.list [])

/-- The formulas of a term, in the order in which they are read. -/
def formulasOf (o : Object) : TermKind → List Value
  | .constant => (member? o "value").toList
  | .analytic => [memberOr o "expr" "expression"]
  | .functional =>
    if (member o "function").isNull then []
    else
      match (member? o "args").getD (.list []) with
      | .list items => items
      | _ => []

/-- Why the reading of a term of a known kind and a legible arity is refused. -/
inductive TermStumbles (o : Object) : Refusal → Prop
  | compat {kind : TermKind} {arity : Arity} (hkind : termKind? o = some kind)
      (harity : arity? (member o "arity") = some arity) (hbare : IsBare (compatOf o)) :
    TermStumbles o (.plain .badType)
  | formula {kind : TermKind} {arity : Arity} {r : Refusal} (hkind : termKind? o = some kind)
      (harity : arity? (member o "arity") = some arity) (hlisted : ¬ IsBare (compatOf o))
      (hformulas : FormulasStumble arity (formulasOf o kind) r) : TermStumbles o r

theorem termStumbles_iff {o : Object} {kind : TermKind} {arity : Arity} {r : Refusal}
    (hkind : termKind? o = some kind) (harity : arity? (member o "arity") = some arity) :
    TermStumbles o r ↔ IsBare (compatOf o) ∧ r = .plain .badType ∨
      ¬ IsBare (compatOf o) ∧ FormulasStumble arity (formulasOf o kind) r := by
  constructor
  · rintro (⟨-, -, hbare⟩ | ⟨hkind', harity', hlisted, hformulas⟩)
    · exact Or.inl ⟨hbare, rfl⟩
    · cases hkind.symm.trans hkind'
      cases harity.symm.trans harity'
      exact Or.inr ⟨hlisted, hformulas⟩
  · rintro (⟨hbare, rfl⟩ | ⟨hlisted, hformulas⟩)
    · exact .compat hkind harity hbare
    · exact .formula hkind harity hlisted hformulas

/-- What is read after a formula is never refused. -/
theorem formula_then {β : Type} {v : Value} {arity arity' : Arity} (harity : arity.IsNatural)
    {path : List String} {f : Option Formula → Silent β} (hf : ∀ o, ∃ b, f o = .ok b)
    {r : Refusal} :
    ((readFormula v arity path : Silent (Option Formula)) >>= f) = .error r ↔
      FormulasStumble arity' [v] r := by
  rw [FormulasStumble, interrupted_singleton, bind_eq_error, silent_readFormula harity]
  refine or_iff_left ?_
  rintro ⟨o, -, h⟩
  obtain ⟨b, hb⟩ := hf o
  rw [hb] at h
  cases h

theorem silent_readTerm_object (id : String) (o : Object) (path : List String) (inline : Bool)
    {r : Refusal} :
    (readTerm id (.object o) path inline : Silent (Option TermDecl)) = .error r ↔
      TermStumbles o r := by
  unfold readTerm
  dsimp only
  rw [silent_readWord, ok_bind]
  generalize hword : word? TermKind.ofName? _ = kind?
  have hkind : termKind? o = kind? := hword
  rcases kind? with _ | kind
  · refine iff_of_false (fun h => by cases h) ?_
    rintro (⟨hkind', -, -⟩ | ⟨hkind', -, -, -⟩) <;> cases hkind.symm.trans hkind'
  dsimp only
  rw [silent_readArity, ok_bind]
  rcases harity : arity? (member o "arity") with _ | arity
  · refine iff_of_false (fun h => by cases h) ?_
    rintro (⟨-, harity', -⟩ | ⟨-, harity', -, -⟩) <;> cases harity.symm.trans harity'
  dsimp only
  rw [termStumbles_iff hkind harity]
  have hnatural := isNatural_of_arity? harity
  rcases silent_readTexts (compatOf o) with ⟨hbare, htexts⟩ | ⟨hlisted, texts, htexts⟩
  · rw [← compatOf, htexts]
    simp only [hbare, not_true_eq_false, true_and, false_and, or_false]
    exact ⟨fun h => by cases h; rfl, fun h => by cases h; rfl⟩
  · rw [← compatOf, htexts, ok_bind]
    simp only [hlisted, not_false_eq_true, true_and, false_and, false_or]
    cases kind with
    | constant =>
      unfold formulasOf
      dsimp only
      cases member? o "value" with
      | none => exact iff_of_false (fun h => by cases h) not_interrupted_nil
      | some value => exact formula_then isNatural_zero fun f => by cases f <;> exact ⟨_, rfl⟩
    | analytic =>
      unfold formulasOf
      dsimp only
      split
      · rename_i hnull
        refine iff_of_false (fun h => by cases h) ?_
        rw [FormulasStumble, interrupted_singleton]
        rintro ⟨⟨text, htext, -⟩, -⟩
        rw [htext] at hnull
        cases hnull
      · exact formula_then hnatural fun f => by cases f <;> exact ⟨_, rfl⟩
    | functional =>
      unfold formulasOf
      dsimp only
      split
      · exact iff_of_false (fun h => by cases h) not_interrupted_nil
      · cases (member? o "args").getD (.list []) with
        | list items =>
          dsimp only
          rw [bind_eq_error, silent_readArgs hnatural]
          refine or_iff_left ?_
          rintro ⟨args, -, h⟩
          cases args <;> cases h
        | _ => exact iff_of_false (fun h => by cases h) not_interrupted_nil

/-- The reading of a term is refused exactly if its declaration stumbles. -/
theorem silent_readTerm (id : String) (body : Value) (path : List String) (inline : Bool)
    {r : Refusal} :
    (readTerm id body path inline : Silent (Option TermDecl)) = .error r ↔
      ∃ o, termMembers? body = some o ∧ TermStumbles o r := by
  cases body with
  | object o => exact (silent_readTerm_object id o path inline).trans (by simp [termMembers?])
  | text s =>
    exact (silent_readTerm_object id [("kind", .text "analytic"), ("expr", .text s)] path
      inline).trans (by simp [termMembers?])
  | int n =>
    exact (silent_readTerm_object id [("kind", .text "constant"), ("value", .int n)] path
      inline).trans (by simp [termMembers?])
  | float x =>
    exact (silent_readTerm_object id [("kind", .text "constant"), ("value", .float x)] path
      inline).trans (by simp [termMembers?])
  | _ => exact iff_of_false nofun (by simp [termMembers?])

end Document

end EnergyGraph
