-- Replacing names by numbers is giving the names these numbers for values. Names that are kept
-- from being replaced may stand for symbols; all others stand for arrays, and where each of
-- them is given an array with its number as the only cell, the expression has the value that
-- it has with the numbers in place.
import EnergyGraph.Proofs.Legible
import EnergyGraph.Proofs.Values

namespace EnergyGraph

variable {α : Type} {values : Numbers} {kept : List String}

namespace Expr

/-! ## What stays the same -/

theorem both?_eq_none_iff {β γ : Type} {b : β} {d : γ} {b' : Option β} {d' : Option γ} :
    both? b d b' d' = none ↔ b' = none ∧ d' = none := by
  cases b' <;> cases d' <;> simp [both?]

theorem getD_both? {β γ : Type} {b : β} {d : γ} {b' : Option β} {d' : Option γ} :
    (both? b d b' d').getD (b, d) = (b'.getD b, d'.getD d) := by
  cases b' <;> cases d' <;> rfl

theorem getD_map {β γ : Type} (f : β → γ) (b' : Option β) (b : β) :
    (b'.map f).getD (f b) = f (b'.getD b) := by
  cases b' <;> rfl

theorem getD_replacedAll? {args : List Expr}
    (h : ∀ e ∈ args, (e.replaced? values kept).getD e = e.replace values kept) :
    (replacedAll? values kept args).getD args = args.map (replace values kept) := by
  induction args with
  | nil => rfl
  | cons e rest ih =>
    have hrest := ih fun e he => h e (List.mem_cons_of_mem _ he)
    rw [replacedAll?, getD_map (fun p : Expr × List Expr => p.1 :: p.2) _ (e, rest), getD_both?,
      h e List.mem_cons_self, hrest, List.map_cons]

/-- Where nothing is replaced, the expression is as it is after replacing. -/
theorem getD_replaced? (e : Expr) : (e.replaced? values kept).getD e = e.replace values kept := by
  induction e with
  | literal value span => rfl
  | ref name indices span =>
    cases indices with
    | nil =>
      rw [replaced?, replace]
      cases replacement? values kept name <;> rfl
    | cons first rest => rfl
  | reduction fold symbol body span ih =>
    rw [replaced?, replace, getD_map (reduction fold symbol · span), ih]
  | call function args span ih =>
    rw [replaced?, replace, getD_map (call function · span), getD_replacedAll? ih,
      replaceAll_eq_map]
  | binary op left right span ihl ihr =>
    rw [replaced?, replace, getD_map (fun p : Expr × Expr => binary op p.1 p.2 span) _ (left, right),
      getD_both?, ihl, ihr]
  | negate operand span ih => rw [replaced?, replace, getD_map (negate · span), ih]

theorem replacedAll?_eq_none_iff {args : List Expr} :
    replacedAll? values kept args = none ↔ ∀ e ∈ args, e.replaced? values kept = none := by
  induction args with
  | nil => simp [replacedAll?]
  | cons e rest ih =>
    rw [replacedAll?, Option.map_eq_none_iff, both?_eq_none_iff, ih, List.forall_mem_cons]

/-- An expression stays the very same exactly if no name is replaced that stands in it, index
lists apart. -/
theorem replaced?_eq_none_iff (e : Expr) : e.replaced? values kept = none ↔
    ∀ name span, Part.expr (.ref name [] span) ∈ e.walk → replacement? values kept name = none := by
  induction e with
  | literal value span => simp [replaced?, walk_literal]
  | ref name indices span =>
    cases indices with
    | nil => simp [replaced?, walk_ref]
    | cons first rest => simp [replaced?, walk_ref]
  | reduction fold symbol body span ih =>
    rw [replaced?, Option.map_eq_none_iff, ih, walk_reduction]
    simp
  | call function args span ih =>
    rw [replaced?, Option.map_eq_none_iff, replacedAll?_eq_none_iff, walk_call]
    simp only [List.mem_cons, Part.expr.injEq, reduceCtorEq, false_or, List.mem_flatMap]
    constructor
    · rintro h name span ⟨a, ha, hmem⟩
      exact (ih a ha).mp (h a ha) name span hmem
    · intro h a ha
      exact (ih a ha).mpr fun name span hmem => h name span ⟨a, ha, hmem⟩
  | binary op left right span ihl ihr =>
    rw [replaced?, Option.map_eq_none_iff, both?_eq_none_iff, ihl, ihr, walk_binary]
    simp [or_imp, forall_and]
  | negate operand span ih =>
    rw [replaced?, Option.map_eq_none_iff, ih, walk_negate]
    simp

/-- What becomes of a part. A name that is replaced turns into its number, at the same place of
the text; all else keeps its place and whatever does not lie below it: index lists as they are,
reductions with their symbols. -/
inductive Part.Becomes (values : Numbers) (kept : List String) : Part → Part → Prop
  | index {i} : Becomes values kept (.index i) (.index i)
  | literal {value span} :
    Becomes values kept (.expr (.literal value span)) (.expr (.literal value span))
  | number {name span n} (h : replacement? values kept name = some n) :
    Becomes values kept (.expr (.ref name [] span)) (.expr (.literal n span))
  | name {name span} (h : replacement? values kept name = none) :
    Becomes values kept (.expr (.ref name [] span)) (.expr (.ref name [] span))
  | cell {name first rest span} :
    Becomes values kept (.expr (.ref name (first :: rest) span))
      (.expr (.ref name (first :: rest) span))
  | reduction {fold symbol body body' span} :
    Becomes values kept (.expr (.reduction fold symbol body span))
      (.expr (.reduction fold symbol body' span))
  | call {function args args' span} (h : args'.length = args.length) :
    Becomes values kept (.expr (.call function args span)) (.expr (.call function args' span))
  | binary {op left left' right right' span} :
    Becomes values kept (.expr (.binary op left right span))
      (.expr (.binary op left' right' span))
  | negate {operand operand' span} :
    Becomes values kept (.expr (.negate operand span)) (.expr (.negate operand' span))

theorem Part.becomes_replace (p : Part) : p.Becomes values kept (p.replace values kept) := by
  cases p with
  | index i => exact .index
  | expr e =>
    cases e with
    | literal value span => exact .literal
    | ref name indices span =>
      cases indices with
      | nil =>
        rw [Part.replace, Expr.replace]
        split
        · exact .number ‹_›
        · exact .name ‹_›
      | cons first rest => exact .cell
    | reduction fold symbol body span => exact .reduction
    | call function args span =>
      rw [Part.replace, Expr.replace, replaceAll_eq_map]
      exact .call (List.length_map _)
    | binary op left right span => exact .binary
    | negate operand span => exact .negate

/-- The parts after replacing are those before it, one by one. -/
theorem becomes_walk (e : Expr) :
    List.Forall₂ (Part.Becomes values kept) e.walk (e.replace values kept).walk := by
  rw [walk_replace, List.forall₂_map_right_iff, List.forall₂_same]
  exact fun p _ => p.becomes_replace

/-! ## Numbers as arrays -/

variable [Scalar α]

/-- The numbers that names are replaced by, each as an array of its own without axes. -/
def numberCells (values : Numbers) (kept : List String) : Arrays α :=
  values.filterMap fun (name, n) =>
    if name ∈ kept then none else (Scalar.ofNumber? n).map fun x => (name, Tensor.scalar x)

/-- Numbers that are all within the range of the scalars. -/
def Representable (α : Type) [Scalar α] (values : Numbers) : Prop :=
  ∀ p ∈ values, ∃ x : α, Scalar.ofNumber? p.2 = some x

theorem lookup_numberCells (h : Representable α values) (name : String) :
    (numberCells values kept : Arrays α).lookup name =
      (replacement? values kept name).bind fun n => (Scalar.ofNumber? n).map Tensor.scalar := by
  induction values with
  | nil =>
    unfold replacement?
    split <;> rfl
  | cons p rest ih =>
    obtain ⟨other, n⟩ := p
    obtain ⟨x, hx⟩ := h (other, n) List.mem_cons_self
    have hrest := ih fun p hp => h p (List.mem_cons_of_mem _ hp)
    unfold numberCells replacement? at hrest ⊢
    rw [List.filterMap_cons, List.lookup_cons]
    by_cases hname : name = other
    · subst hname
      by_cases hkept : name ∈ kept
      · simpa [hkept] using hrest
      · simp [hkept, hx]
    · rw [beq_eq_false_iff_ne.mpr hname]
      by_cases hkept : other ∈ kept
      · simpa [hkept] using hrest
      · simpa [hkept, hx, List.lookup_cons, beq_eq_false_iff_ne.mpr hname] using hrest

end Expr

/-- The context in which the names that are replaced stand for their numbers. -/
def EvalContext.withNumbers [Scalar α] (c : EvalContext α) (values : Numbers)
    (kept : List String) : EvalContext α :=
  { c with arrays := Expr.numberCells values kept ++ c.arrays }

namespace Expr

variable [Scalar α] {c : EvalContext α} {s : Symbols}

theorem lookup_withNumbers (h : Representable α values) {name : String}
    (hname : replacement? values kept name = none) :
    (c.withNumbers values kept).arrays.lookup name = c.arrays.lookup name := by
  unfold EvalContext.withNumbers
  rw [List.lookup_append, lookup_numberCells h, hname]
  rfl

/-- A name that stands for no symbol has the value of its number. -/
theorem scalarNamed_withNumbers (h : Representable α values) {name : String} {n : Number} {x : α}
    (hname : replacement? values kept name = some n) (hx : Scalar.ofNumber? n = some x)
    (hs : s.lookup name = none) :
    scalarNamed (c.withNumbers values kept) s name = .ok x := by
  have hlookup : (c.withNumbers values kept).arrays.lookup name = some (Tensor.scalar x) := by
    unfold EvalContext.withNumbers
    rw [List.lookup_append, lookup_numberCells h, hname, Option.bind_some, hx]
    rfl
  unfold scalarNamed
  rw [hs, hlookup]
  rfl

/-! ## Values -/

/-- Replacing names agrees with this part: a reduction runs over a symbol that is kept, and an
array that is indexed is none of the names that are replaced. -/
def Part.Allows (values : Numbers) (kept : List String) : Part → Prop
  | .expr (.reduction _ symbol _ _) => symbol ∈ kept
  | .expr (.ref name (_ :: _) _) => replacement? values kept name = none
  | _ => True

/-- All symbols with a value are kept from being replaced. -/
def OnlyKept (kept : List String) (s : Symbols) : Prop := ∀ name, name ∉ kept → s.lookup name = none

theorem OnlyKept.set (h : OnlyKept kept s) {symbol : String} (hsymbol : symbol ∈ kept) (k : Int) :
    OnlyKept kept (s.set symbol k) := by
  intro name hname
  have hne : name ≠ symbol := fun heq => hname (heq ▸ hsymbol)
  rw [Symbols.lookup_set_ne hne, h name hname]

/-- An expression with numbers in the places of names has the value that it has where the names
stand for these numbers. -/
theorem valueAt_replace (hvalues : Representable α values) {e : Expr}
    (hparts : ∀ p ∈ e.walk, p.Allows values kept) (hs : OnlyKept kept s) :
    (e.replace values kept).valueAt c s = e.valueAt (c.withNumbers values kept) s := by
  induction e generalizing s with
  | literal value span => rw [replace, valueAt_literal, valueAt_literal]
  | ref name indices span =>
    cases indices with
    | nil =>
      rw [replace, valueAt_name]
      rcases hname : replacement? values kept name with _ | n
      · dsimp only
        rw [valueAt_name]
        unfold scalarNamed
        rw [lookup_withNumbers hvalues hname]
      · -- The name is not kept, so that no symbol can stand in front of its number.
        have hkept : name ∉ kept := fun h => by simp [replacement?, h] at hname
        obtain ⟨x, hx⟩ := hvalues (name, n) (mem_of_replacement? hname)
        dsimp only
        rw [valueAt_literal, hx, scalarNamed_withNumbers hvalues hname hx (hs name hkept)]
    | cons first rest =>
      have hname : replacement? values kept name = none :=
        hparts (.expr (.ref name (first :: rest) span)) (by rw [walk_ref]; exact List.mem_cons_self)
      rw [replace_indexed, valueAt_cell, valueAt_cell]
      unfold cellNamed
      rw [lookup_withNumbers hvalues hname]
      rfl
  | reduction fold symbol body span ih =>
    rw [walk_reduction, List.forall_mem_cons] at hparts
    obtain ⟨hsymbol, hbody⟩ := hparts
    rw [replace, valueAt_reduction, valueAt_reduction]
    have hvalue : ∀ k, (body.replace values kept).valueAt c (s.set symbol k) =
        body.valueAt (c.withNumbers values kept) (s.set symbol k) :=
      fun k => ih hbody (hs.set hsymbol k)
    simp only [hvalue]
    rfl
  | call function args span ih =>
    rw [walk_call, List.forall_mem_cons] at hparts
    rw [replace, replaceAll_eq_map, valueAt_call, valueAt_call, List.mapM_map]
    have hargs : ∀ a ∈ args, (valueAt c s ∘ replace values kept) a =
        a.valueAt (c.withNumbers values kept) s := fun a ha =>
      ih a ha (fun p hp => hparts.2 p (List.mem_flatMap.mpr ⟨a, ha, hp⟩)) hs
    rw [mapM_congr hargs]
  | binary op left right span ihl ihr =>
    rw [walk_binary, List.forall_mem_cons, List.forall_mem_append] at hparts
    rw [replace, valueAt_binary, valueAt_binary, ihl hparts.2.1 hs, ihr hparts.2.2 hs]
  | negate operand span ih =>
    rw [walk_negate, List.forall_mem_cons] at hparts
    rw [replace, valueAt_negate, valueAt_negate, ih hparts.2 hs]

end Expr

/-! ## Formulas -/

namespace Formula

variable [Scalar α] {f : Formula} {isProtected : List String}

/-- What a substitution gives is the formula itself where it is the very same. -/
theorem getD_substitute? (f : Formula) (values : Numbers) (isProtected : List String) :
    (f.substitute? values isProtected).getD f = f.substitute values isProtected := by
  unfold substitute? substitute
  rw [← Expr.getD_replaced?]
  exact Expr.getD_map (fun body => { f with body }) _ f.body

/-- A formula in which names are substituted evaluates as it does itself where these names stand
for their numbers. No part of it changes but the names that become numbers, and it is the very
same exactly if there are none. -/
theorem substitute_evaluates (hvalues : Expr.Representable α values) (c : EvalContext α)
    {s : Symbols} (hs : ∀ p ∈ s, p.1 ∈ isProtected)
    (hindexed : ∀ p ∈ values, p.1 ∉ isProtected → p.1 ∉ f.body.reductionSymbols →
      ∀ first rest span, Expr.Part.expr (.ref p.1 (first :: rest) span) ∉ f.body.walk) :
    (f.substitute values isProtected).body.evaluate c s =
      f.body.evaluate (c.withNumbers values (isProtected ++ f.body.reductionSymbols)) s ∧
    List.Forall₂ (Expr.Part.Becomes values (isProtected ++ f.body.reductionSymbols)) f.body.walk
      (f.substitute values isProtected).body.walk ∧
    (f.substitute? values isProtected).getD f = f.substitute values isProtected ∧
    (f.substitute? values isProtected = none ↔
      ∀ name span, Expr.Part.expr (.ref name [] span) ∈ f.body.walk → name ∈ values.map Prod.fst →
        name ∈ isProtected ∨ name ∈ f.body.reductionSymbols) := by
  have hkept : ∀ name, name ∈ isProtected ++ f.body.reductionSymbols ↔
      name ∈ isProtected ∨ name ∈ f.body.reductionSymbols := fun name => List.mem_append
  have hparts : ∀ p ∈ f.body.walk, p.Allows values (isProtected ++ f.body.reductionSymbols) := by
    intro p hp
    unfold Expr.Part.Allows
    split
    · exact (hkept _).mpr (Or.inr (Expr.mem_reductionSymbols.mpr ⟨_, _, _, hp⟩))
    · rename_i name first rest span
      by_contra hreplaced
      rw [Expr.replacement?_eq_none_iff, Classical.not_imp, hkept, not_or, List.mem_map] at hreplaced
      obtain ⟨⟨q, hq, rfl⟩, hname⟩ := hreplaced
      exact hindexed q hq hname.1 hname.2 first rest span hp
    · trivial
  have honly : Expr.OnlyKept (isProtected ++ f.body.reductionSymbols) s := by
    refine fun name hname => lookup_eq_none_iff.mpr fun hmem => hname ?_
    obtain ⟨p, hp, rfl⟩ := List.mem_map.mp hmem
    exact (hkept p.1).mpr (Or.inl (hs p hp))
  refine ⟨?_, Expr.becomes_walk f.body, getD_substitute? f values isProtected, ?_⟩
  · have hvalue : (f.substitute values isProtected).body.valueAt c s = _ :=
      Expr.valueAt_replace hvalues hparts honly
    calc (f.substitute values isProtected).body.evaluate c s
      _ = ((f.substitute values isProtected).body.valueAt c s, s) := Expr.gives_eval _ s
      _ = (f.body.valueAt (c.withNumbers values _) s, s) := by rw [hvalue]
      _ = f.body.evaluate (c.withNumbers values _) s := (Expr.gives_eval _ s).symm
  · unfold substitute?
    rw [Option.map_eq_none_iff, Expr.replaced?_eq_none_iff]
    refine forall_congr' fun name => forall_congr' fun span => imp_congr_right fun _ => ?_
    rw [Expr.replacement?_eq_none_iff, hkept]

/-- The expression of the text below, and what is added up there. -/
def shadowedBody : Expr :=
  .binary .add (.ref "x" [.symbol "k" ⟨12, 13⟩] ⟨10, 14⟩) (.ref "k" [] ⟨17, 18⟩) ⟨10, 18⟩

def shadowed : Expr :=
  .binary .add
    (.binary .mul (.ref "a" [] ⟨0, 1⟩) (.reduction .sum "k" shadowedBody ⟨4, 19⟩) ⟨0, 19⟩)
    (.ref "i" [] ⟨22, 23⟩) ⟨0, 23⟩

open EnergyGraph.Expr in
theorem parse_shadowed : parse "a * sum_k(x[k] + k) + i" = .ok shadowed := by
  have hbody : ofTokens 0 [⟨.name, "x", 10, 11⟩, ⟨.openBracket, "[", 11, 12⟩, ⟨.name, "k", 12, 13⟩,
      ⟨.closeBracket, "]", 13, 14⟩, ⟨.operator .add, "+", 15, 16⟩, ⟨.name, "k", 17, 18⟩] =
        .ok shadowedBody := by cbv
  have hsum : Derives .operand (⟨.name, "sum_k", 4, 9⟩ :: ⟨.openParen, "(", 9, 10⟩ ::
      (_ ++ [⟨.closeParen, ")", 18, 19⟩])) (.reduction .sum "k" shadowedBody ⟨4, 19⟩) :=
    .reduction rfl rfl rfl rfl (by decide) (ofTokens_eq_ok.mp hbody)
  have hname (t : Token) (h : t.kind = .name) :
      Derives .power [t] (.ref t.text [] ⟨t.start, t.stop⟩) := .signed (.operand (.name h))
  have hproduct : Derives .product ([⟨.name, "a", 0, 1⟩] ++ ⟨.operator .mul, "*", 2, 3⟩ :: _) _ :=
    .multiplied rfl (Or.inl rfl) (.power (hname _ rfl)) (.signed (.operand hsum))
  have hall : Derives .sum (_ ++ ⟨.operator .add, "+", 20, 21⟩ :: [⟨.name, "i", 22, 23⟩]) _ :=
    .added rfl (Or.inl rfl) (.product hproduct) (.power (hname _ rfl))
  exact parse_of_derives (by with_unfolding_all rfl) hall

/-- The number of a protected symbol and that of the symbol of a reduction are not used. -/
theorem substitute_evaluates_shadowed :
    ∃ f, ofText "a * sum_k(x[k] + k) + i" .unspecified = .ok f ∧
      (f.substitute [("a", .int 2), ("k", .float 0.5), ("i", .int 4)] ["i"]).body.evaluate
          ⟨[("x", ⟨[2], #[1.5, 2.5], rfl⟩)], 0, [("k", [0, 1])]⟩ [("i", 7)] =
        f.body.evaluate (EvalContext.withNumbers (α := Float)
          ⟨[("x", ⟨[2], #[1.5, 2.5], rfl⟩)], 0, [("k", [0, 1])]⟩
          [("a", .int 2), ("k", .float 0.5), ("i", .int 4)] (["i"] ++ f.body.reductionSymbols))
          [("i", 7)] := by
  have hf := ofText_unspecified parse_shadowed
  refine ⟨_, hf, (substitute_evaluates ?_ _ ?_ ?_).1⟩
  · intro p hp
    simp only [List.mem_cons, List.not_mem_nil, or_false] at hp
    rcases hp with rfl | rfl | rfl
    · exact ⟨_, rfl⟩
    · exact ⟨_, rfl⟩
    · exact ⟨_, rfl⟩
  · simp
  · intro p hp _ _ first rest span hmem
    have hx : p.1 = "x" := by
      simp [shadowed, shadowedBody, Expr.walk_binary, Expr.walk_ref, Expr.walk_reduction] at hmem
      exact hmem.1
    simp only [List.mem_cons, List.not_mem_nil, or_false] at hp
    rcases hp with rfl | rfl | rfl <;> simp at hx

end Formula

end EnergyGraph
