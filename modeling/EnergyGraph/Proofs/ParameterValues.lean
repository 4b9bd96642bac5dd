-- Which values parameters accept. Of every parameter one value is tried, the override or else the
-- default. It is turned into one of the parameter's type, and refused if it lies below the one
-- bound or above the other. So what is no number passes, since it lies on no side of anything.
import EnergyGraph.Parameters
import EnergyGraph.Proofs.NumberOrder
import EnergyGraph.Proofs.ParserModes
import EnergyGraph.Proofs.Walking

namespace EnergyGraph

/-! ## Runs that find something -/

namespace Findings

variable {α β : Type} {m : Findings α} {a : α} {r : Refusal} {more rest : List Diagnostic}

/-- A check that comes to this result, whatever was found before, and finds this. -/
def Finds (m : Findings α) (a : α) (more : List Diagnostic) : Prop :=
  ∀ found, m.run.run found = (.ok a, found ++ more)

/-- A check that is refused, whatever was found before. -/
def Breaks (m : Findings α) (r : Refusal) : Prop :=
  ∀ found, ∃ after, m.run.run found = (.error r, after)

theorem finds_pure (a : α) : Finds (pure a) a [] := fun found => by
  rw [List.append_nil]
  rfl

theorem finds_report (d : Diagnostic) : Finds (Reports.report d) () [d] := fun _ => rfl

theorem finds_bind {f : α → Findings β} {b : β} (hm : Finds m a more) (hf : Finds (f a) b rest) :
    Finds (m >>= f) b (more ++ rest) := fun found => by
  rw [run_bind, hm found, ← List.append_assoc]
  exact hf (found ++ more)

theorem breaks_bind {f : α → Findings β} (hm : Breaks m r) : Breaks (m >>= f) r := fun found => by
  obtain ⟨after, h⟩ := hm found
  exact ⟨after, by rw [run_bind, h]⟩

theorem Finds.breaks_bind {f : α → Findings β} (hm : Finds m a more) (hf : Breaks (f a) r) :
    Breaks (m >>= f) r := fun found => by
  obtain ⟨after, h⟩ := hf (found ++ more)
  exact ⟨after, by rw [run_bind, hm found]; exact h⟩

theorem finds_attempt_ok (a : α) : Finds (attempt (.ok a)) (some a) [] := finds_pure _

theorem finds_attempt_diagnostic (d : Diagnostic) :
    Finds (attempt (.error (.diagnostic d) : Except Failure α)) none [d] :=
  finds_bind (finds_report d) (finds_pure none)

theorem breaks_attempt (r : Refusal) :
    Breaks (attempt (.error (.refusal r) : Except Failure α)) r := fun found => ⟨found, rfl⟩

/-- What the items of a list come to, and what is found at each, in order. -/
theorem finds_filterMapM {f : α → Findings (Option β)} {xs : List α}
    {ends : List (Option β × List Diagnostic)}
    (h : List.Forall₂ (fun x e => Finds (f x) e.1 e.2) xs ends) :
    Finds (xs.filterMapM f) (ends.filterMap (·.1)) (ends.flatMap (·.2)) := by
  induction h with
  | nil => exact finds_pure []
  | @cons x e xs ends hx _ ih =>
    obtain ⟨o, ds⟩ := e
    rw [List.filterMapM_cons, List.flatMap_cons]
    refine finds_bind hx ?_
    cases o with
    | none => exact ih
    | some y =>
      have hlast := finds_bind (f := fun ys => pure (y :: ys)) ih (finds_pure _)
      rwa [List.append_nil] at hlast

/-- A list is refused at the first item that is. -/
theorem breaks_filterMapM {f : α → Findings (Option β)} {xs : List α}
    (hall : ∀ x ∈ xs, (∃ o ds, Finds (f x) o ds) ∨ Breaks (f x) r)
    (hsome : ∃ x ∈ xs, Breaks (f x) r) : Breaks (xs.filterMapM f) r := by
  induction xs with
  | nil =>
    obtain ⟨x, hx, -⟩ := hsome
    cases hx
  | cons x xs ih =>
    rw [List.filterMapM_cons]
    rcases hall x List.mem_cons_self with ⟨o, ds, hfinds⟩ | hbreaks
    · have hrest : Breaks (xs.filterMapM f) r := by
        refine ih (fun y hy => hall y (List.mem_cons_of_mem x hy)) ?_
        obtain ⟨y, hy, hbreaks⟩ := hsome
        rcases List.mem_cons.mp hy with rfl | hy
        · obtain ⟨after, h⟩ := hbreaks []
          rw [hfinds] at h
          cases h
        · exact ⟨y, hy, hbreaks⟩
      refine hfinds.breaks_bind ?_
      cases o with
      | none => exact hrest
      | some y => exact breaks_bind hrest
    · exact breaks_bind hbreaks

/-- What a loop finds at its items, in order. -/
theorem finds_forIn {f : α → PUnit → Findings (ForInStep PUnit)} {k : α → List Diagnostic}
    {xs : List α} (h : ∀ x, Finds (f x ⟨⟩) (.yield ⟨⟩) (k x)) :
    Finds (forIn xs ⟨⟩ f) ⟨⟩ (xs.flatMap k) := by
  induction xs with
  | nil => exact finds_pure _
  | cons x xs ih =>
    rw [List.forIn_cons, List.flatMap_cons]
    exact finds_bind (h x) ih

theorem Finds.clean_iff {b : α} (h : Finds m a more) : Clean m b ↔ more = [] ∧ a = b := by
  unfold Clean
  rw [h, List.nil_append, Prod.mk.injEq, Except.ok.injEq, and_comm]

theorem Finds.gathered (h : Finds m a more) :
    gathered m = if more.isEmpty then .ok a else .error (.collected more) := by
  have hrun := h []
  unfold Findings.gathered
  rw [hrun, List.nil_append]
  cases more <;> rfl

theorem Breaks.gathered (h : Breaks m r) : gathered m = .error (.refusal r) := by
  obtain ⟨after, hrun⟩ := h []
  unfold Findings.gathered
  rw [hrun]

end Findings

namespace Parameter

variable {p : Parameter} {ps : List ResolvedParameter} {parameters : List Parameter}
  {overrides : Object} {v w lower upper : Value} {origin : Origin} {r : ResolvedParameter}

/-! ## Values of a type -/

/-- Values that a parameter of some type can be given. -/
inductive Admissible : ParameterType → Value → Prop
  | bool (b : Bool) : Admissible .bool (.bool b)
  | text (s : String) : Admissible .text (.text s)
  | int (n : Int) : Admissible .int (.int n)
  | whole (x : Float) (h : IsInteger x) : Admissible .int (.float x)
  | float (x : Float) : Admissible .float (.float x)
  | rounded (n : Int) : Admissible .float (.int n)

/-- A value as a parameter of some type holds it. An integer beyond all doubles is not held as
a double. -/
inductive Holds : ParameterType → Value → Value → Prop
  | bool (b : Bool) : Holds .bool (.bool b) (.bool b)
  | text (s : String) : Holds .text (.text s) (.text s)
  | int (n : Int) : Holds .int (.int n) (.int n)
  | whole {x : Float} {n : Int} (hfinite : x.isFinite = true) (h : Decimal.exactValue x = n) :
    Holds .int (.float x) (.int n)
  | float (x : Float) : Holds .float (.float x) (.float x)
  | rounded {n : Int} {x : Float} (h : Decimal.ofInt? n = some x) : Holds .float (.int n) (.float x)

/-- What is held is held as it is. -/
theorem Holds.self {type : ParameterType} (h : Holds type v w) : Holds type w w := by
  cases h with
  | bool b => exact .bool b
  | text s => exact .text s
  | int n => exact .int n
  | whole => exact .int _
  | float x => exact .float x
  | rounded => exact .float _

theorem coerce_eq_ok : p.coerce v = .ok w ↔ Holds p.type v w := by
  constructor
  · intro h
    unfold coerce at h
    split at h
    · rename_i htype
      cases h
      rw [htype]
      exact .bool _
    · rename_i htype
      cases h
      rw [htype]
      exact .text _
    · rename_i htype
      cases h
      rw [htype]
      exact .int _
    · rename_i x htype
      split at h
      · rename_i hwhole
        cases h
        obtain ⟨hfinite, n, hn⟩ := isIntegral_iff.mp hwhole
        rw [htype, truncated_eq hn]
        exact .whole hfinite hn
      · cases h
    · rename_i htype
      cases h
      rw [htype]
      exact .float _
    · rename_i n htype
      split at h
      · rename_i x hx
        cases h
        rw [htype]
        exact .rounded hx
      · cases h
    · cases h
  · intro h
    unfold coerce
    generalize p.type = type at h
    cases h with
    | bool b => rfl
    | text s => rfl
    | int n => rfl
    | whole hfinite h =>
      dsimp only
      rw [if_pos (isIntegral_iff.mpr ⟨hfinite, _, h⟩), truncated_eq h]
    | float x => rfl
    | rounded h =>
      dsimp only
      rw [h]

/-- A value of another type is refused as such. -/
theorem coerce_of_not_admissible (h : ¬ Admissible p.type v) :
    p.coerce v = fail (.wrongType p.name p.type v) := by
  unfold coerce
  split
  · rename_i htype
    exact absurd (htype ▸ .bool _) h
  · rename_i htype
    exact absurd (htype ▸ .text _) h
  · rename_i htype
    exact absurd (htype ▸ .int _) h
  · rename_i x htype
    rw [if_neg, htype]
    intro hwhole
    exact h (htype ▸ .whole x (isIntegral_iff.mp hwhole))
  · rename_i htype
    exact absurd (htype ▸ .float _) h
  · rename_i htype
    exact absurd (htype ▸ .rounded _) h
  · rfl

/-- A value that is admissible is held, unless it is an integer beyond all doubles. -/
theorem Admissible.holds_or {type : ParameterType} (h : Admissible type v) :
    (∃ w, Holds type v w) ∨ type = .float ∧ ∃ n, v = .int n ∧ Decimal.limit ≤ n.natAbs := by
  cases h with
  | bool b => exact Or.inl ⟨_, .bool b⟩
  | text s => exact Or.inl ⟨_, .text s⟩
  | int n => exact Or.inl ⟨_, .int n⟩
  | whole x h =>
    obtain ⟨hfinite, n, hn⟩ := h
    exact Or.inl ⟨_, .whole hfinite hn⟩
  | float x => exact Or.inl ⟨_, .float x⟩
  | rounded n =>
    cases hx : Decimal.ofInt? n with
    | none => exact Or.inr ⟨rfl, n, rfl, Decimal.ofInt?_eq_none_iff.mp hx⟩
    | some x => exact Or.inl ⟨_, .rounded hx⟩

/-! ## Bounds -/

/-- Bounds that are numbers, or nothing. -/
def HasBounds (p : Parameter) : Prop := ∀ lower upper, p.bounds = some (lower, upper) →
  ∀ b ∈ [lower, upper], b = .null ∨ ∃ n, b.number? = some n

/-- No number is below the one bound or above the other; what is no number bounds nothing. -/
structure Between (lower upper : Value) (n : Number) : Prop where
  lower : ∀ l, lower.number? = some l → l.Le n ∨ l.IsNaN ∨ n.IsNaN
  upper : ∀ u, upper.number? = some u → n.Le u ∨ n.IsNaN ∨ u.IsNaN

/-- The bounds of a parameter hold for a value. They are bounds of numbers only. -/
def Within (p : Parameter) (w : Value) : Prop := ∀ lower upper n, p.type = .int ∨ p.type = .float →
  p.bounds = some (lower, upper) → w.number? = some n → Between lower upper n

theorem bound?_eq (h : v = .null ∨ ∃ n, v.number? = some n) : bound? v = .ok v.number? := by
  rcases h with rfl | ⟨n, h⟩
  · rfl
  · cases v <;> cases h <;> rfl

theorem isOutside_eq {n : Number} (hlower : lower = .null ∨ ∃ l, lower.number? = some l)
    (hupper : upper = .null ∨ ∃ u, upper.number? = some u) :
    isOutside n lower upper = .ok ((lower.number?.map fun l => n.lt l).getD false ||
      (upper.number?.map fun u => u.lt n).getD false) := by
  unfold isOutside
  rw [bound?_eq hlower, ok_bind]
  split
  · rename_i hbelow
    rw [hbelow, Bool.true_or]
  · rename_i hbelow
    rw [bound?_eq hupper, ok_bind, Bool.eq_false_iff.mpr hbelow, Bool.false_or]

theorem between_iff {n : Number} : Between lower upper n ↔
    ((lower.number?.map fun l => n.lt l).getD false ||
      (upper.number?.map fun u => u.lt n).getD false) = false := by
  rw [Bool.or_eq_false_iff]
  constructor
  · rintro ⟨hlower, hupper⟩
    constructor
    · cases hl : lower.number? with
      | none => rfl
      | some l => exact Number.lt_eq_false_iff.mpr ((hlower l hl).imp_right Or.symm)
    · cases hu : upper.number? with
      | none => rfl
      | some u => exact Number.lt_eq_false_iff.mpr ((hupper u hu).imp_right Or.symm)
  · rintro ⟨hlower, hupper⟩
    refine ⟨fun l hl => ?_, fun u hu => ?_⟩
    · rw [hl] at hlower
      exact (Number.lt_eq_false_iff.mp hlower).imp_right Or.symm
    · rw [hu] at hupper
      exact (Number.lt_eq_false_iff.mp hupper).imp_right Or.symm

/-- A value passes the check of bounds if they hold for it, and is refused otherwise. -/
theorem checkBounds_cases (hp : p.HasBounds) : p.Within w ∧ p.checkBounds w = .ok () ∨
    ¬ p.Within w ∧ ∃ lower upper, p.bounds = some (lower, upper) ∧
      p.checkBounds w = fail (.outOfBounds p.name w lower upper) := by
  unfold checkBounds Within
  split
  · rename_i lower upper n hbounds hn
    have hends := hp lower upper hbounds
    have houtside := isOutside_eq (n := n) (hends lower (by simp)) (hends upper (by simp))
    split
    · rename_i htype
      rw [houtside, ok_bind]
      have hbetween : Between lower upper n ↔ _ := between_iff
      split
      · rename_i hout
        refine Or.inr ⟨fun hwithin => ?_, lower, upper, hbounds, rfl⟩
        rw [hbetween.mp (hwithin lower upper n htype hbounds hn)] at hout
        cases hout
      · rename_i hin
        refine Or.inl ⟨fun lower' upper' n' _ hbounds' hn' => ?_, rfl⟩
        rw [hbounds] at hbounds'
        rw [hn] at hn'
        cases hbounds'
        cases hn'
        exact hbetween.mpr (Bool.eq_false_iff.mpr hin)
    · rename_i htype
      exact Or.inl ⟨fun _ _ _ htype' => absurd htype' htype, rfl⟩
  · rename_i hnone
    exact Or.inl ⟨fun lower upper n _ hbounds hn => absurd hn (hnone lower upper n hbounds), rfl⟩

/-- A parameter accepts the values of its type that its bounds hold for. -/
theorem accept_eq_ok (hp : p.HasBounds) : p.accept v = .ok w ↔ Holds p.type v w ∧ p.Within w := by
  unfold accept
  rw [bind_eq_ok]
  constructor
  · rintro ⟨a, ha, h⟩
    rcases checkBounds_cases (w := a) hp with ⟨hwithin, hcheck⟩ | ⟨-, lower, upper, -, hcheck⟩
    · rw [hcheck] at h
      cases h
      exact ⟨coerce_eq_ok.mp ha, hwithin⟩
    · rw [hcheck] at h
      cases h
  · rintro ⟨hholds, hwithin⟩
    refine ⟨w, coerce_eq_ok.mpr hholds, ?_⟩
    rcases checkBounds_cases (w := w) hp with ⟨-, hcheck⟩ | ⟨hout, -⟩
    · rw [hcheck]
      rfl
    · exact absurd hwithin hout

/-! ## One parameter -/

/-- The value that is tried for a parameter, and where it comes from. -/
def given? (overrides : Object) (p : Parameter) : Option (Value × Origin) :=
  match overrides.lookup p.name with
  | some v => some (v, .override)
  | none => if p.required then none else some (p.default, .default)

/-- A parameter takes on the value that is tried. -/
structure Takes (overrides : Object) (p : Parameter) (r : ResolvedParameter) : Prop where
  name : r.name = p.name
  given : ∃ v, given? overrides p = some (v, r.origin) ∧ Holds p.type v r.value
  within : p.Within r.value

/-- The mistake of a parameter that takes on no value. -/
inductive Fails (overrides : Object) (p : Parameter) : Fault → Prop
  | missing (h : given? overrides p = none) : Fails overrides p (.noValue p.name)
  | wrongType {v : Value} {origin : Origin} (h : given? overrides p = some (v, origin))
    (hv : ¬ Admissible p.type v) : Fails overrides p (.wrongType p.name p.type v)
  | outside {v w lower upper : Value} {origin : Origin} (h : given? overrides p = some (v, origin))
    (hw : Holds p.type v w) (hbounds : p.bounds = some (lower, upper)) (hout : ¬ p.Within w) :
    Fails overrides p (.outOfBounds p.name w lower upper)

/-- A parameter that holds doubles is given an integer beyond all of them. -/
def Overflows (overrides : Object) (p : Parameter) : Prop := p.type = .float ∧
  ∃ n origin, given? overrides p = some (.int n, origin) ∧ Decimal.limit ≤ n.natAbs

/-- What becomes of one parameter. -/
def tryOne (overrides : Object) (p : Parameter) : Except Failure ResolvedParameter :=
  match given? overrides p with
  | none => fail (.noValue p.name)
  | some (v, origin) => (p.accept v).map fun value => ⟨p.name, value, origin⟩

theorem attempt_map {α β : Type} (x : Except Failure α) (f : α → β) :
    (do let o ← Findings.attempt x; pure (o.map f) : Findings (Option β)) =
      Findings.attempt (x.map f) := by
  match x with
  | .ok a => rfl
  | .error (.diagnostic d) => rfl
  | .error (.collected []) => rfl
  | .error (.collected (d :: ds)) => rfl
  | .error (.refusal r) => rfl

theorem resolveOne_eq : (resolveOne overrides p : Findings _) =
    Findings.attempt (tryOne overrides p) := by
  change (match given? overrides p with
    | none => do
      Reports.report (Fault.noValue p.name).diagnostic
      pure none
    | some (v, origin) => do
      let value? ← Findings.attempt (p.accept v)
      pure (value?.map fun value => ⟨p.name, value, origin⟩) : Findings (Option ResolvedParameter)) = _
  unfold tryOne
  cases given? overrides p with
  | none => rfl
  | some given => exact attempt_map _ _

/-- A parameter that is resolved takes on the value. -/
theorem tryOne_eq_ok (hp : p.HasBounds) : tryOne overrides p = .ok r ↔ Takes overrides p r := by
  unfold tryOne
  constructor
  · intro h
    split at h
    · cases h
    · rename_i v origin hgiven
      obtain ⟨value, haccept, rfl⟩ := map_eq_ok.mp h
      obtain ⟨hholds, hwithin⟩ := (accept_eq_ok hp).mp haccept
      exact ⟨rfl, ⟨v, hgiven, hholds⟩, hwithin⟩
  · rintro ⟨hname, ⟨v, hgiven, hholds⟩, hwithin⟩
    rw [hgiven]
    exact map_eq_ok.mpr ⟨r.value, (accept_eq_ok hp).mpr ⟨hholds, hwithin⟩, by rw [← hname]⟩

theorem tryOne_of_fails {f : Fault} (hp : p.HasBounds) (h : Fails overrides p f) :
    tryOne overrides p = fail f := by
  unfold tryOne
  cases h with
  | missing h => rw [h]
  | wrongType h hv =>
    rw [h]
    dsimp only
    rw [accept, coerce_of_not_admissible hv]
    rfl
  | @outside v w lower upper origin h hw hbounds hout =>
    rw [h]
    dsimp only
    rw [accept, coerce_eq_ok.mpr hw, ok_bind]
    rcases checkBounds_cases (w := w) hp with ⟨hwithin, -⟩ | ⟨-, lower', upper', hbounds', hcheck⟩
    · exact absurd hwithin hout
    · rw [hbounds] at hbounds'
      cases hbounds'
      rw [hcheck]
      rfl

theorem tryOne_of_overflows (h : Overflows overrides p) :
    tryOne overrides p = Failure.refuse .tooLarge := by
  obtain ⟨htype, n, origin, hgiven, hn⟩ := h
  unfold tryOne
  rw [hgiven]
  dsimp only
  have hcoerce : p.coerce (.int n) = Failure.refuse .tooLarge := by
    unfold coerce
    rw [htype]
    dsimp only
    rw [Decimal.ofInt?_eq_none_iff.mpr hn]
  rw [accept, hcoerce]
  rfl

/-- A parameter takes on a value, or there is a mistake, or its value is too large. -/
theorem takes_or (overrides : Object) (p : Parameter) :
    (∃ r, Takes overrides p r) ∨ (∃ f, Fails overrides p f) ∨ Overflows overrides p := by
  cases hgiven : given? overrides p with
  | none => exact Or.inr (Or.inl ⟨_, .missing hgiven⟩)
  | some given =>
    obtain ⟨v, origin⟩ := given
    by_cases hv : Admissible p.type v
    · rcases hv.holds_or with ⟨w, hw⟩ | ⟨htype, n, rfl, hn⟩
      · by_cases hwithin : p.Within w
        · exact Or.inl ⟨⟨p.name, w, origin⟩, rfl, ⟨v, hgiven, hw⟩, hwithin⟩
        · have hbounds : ∃ lower upper, p.bounds = some (lower, upper) := by
            unfold Within at hwithin
            push Not at hwithin
            obtain ⟨lower, upper, -, -, hbounds, -⟩ := hwithin
            exact ⟨lower, upper, hbounds⟩
          obtain ⟨lower, upper, hbounds⟩ := hbounds
          exact Or.inr (Or.inl ⟨_, .outside hgiven hw hbounds hwithin⟩)
      · exact Or.inr (Or.inr ⟨htype, n, origin, hgiven, hn⟩)
    · exact Or.inr (Or.inl ⟨_, .wrongType hgiven hv⟩)

/-! ## All parameters -/

/-- The names of parameters, in order. -/
def sortedNames (parameters : List Parameter) : List String :=
  (parameters.map (·.name)).mergeSort fun a b => a ≤ b

/-- The mistakes of overrides that name no parameter. -/
def undeclared (parameters : List Parameter) (overrides : Object) : List Fault :=
  (overrides.names.filter fun name => name ∉ parameters.map (·.name)).map
    (Fault.undeclared · (sortedNames parameters))

theorem firsts_of_nodup {names : List String} (h : names.Nodup) : Expr.firsts names = names := by
  suffices hgen : ∀ rest seen : List String, (seen ++ rest).Nodup →
      rest.foldl Expr.insertLast seen = seen ++ rest by
    exact hgen names [] h
  intro rest
  induction rest with
  | nil =>
    intro seen _
    exact (List.append_nil seen).symm
  | cons name rest ih =>
    intro seen hnodup
    have hnew : name ∉ seen := fun hmem =>
      (List.nodup_append.mp hnodup).2.2 name hmem name List.mem_cons_self rfl
    rw [List.foldl_cons, Expr.insertLast, if_neg hnew, ih _ (by simpa using hnodup),
      List.append_assoc, List.singleton_append]

/-- Parameters of different names are what they are by name. -/
theorem byName_of_nodup (h : (parameters.map (·.name)).Nodup) : byName parameters = parameters := by
  unfold byName
  rw [firsts_of_nodup h, List.filterMap_map]
  have hfind (p : Parameter) (hp : p ∈ parameters) :
      (parameters.reverse.find? fun q => q.name == p.name) = some p := by
    cases hfound : parameters.reverse.find? fun q => q.name == p.name with
    | none =>
      have hne := List.find?_eq_none.mp hfound p (List.mem_reverse.mpr hp)
      simp at hne
    | some q =>
      have hq := List.mem_reverse.mp (List.mem_of_find?_eq_some hfound)
      have hname : q.name = p.name := by simpa using List.find?_some hfound
      rw [List.inj_on_of_nodup_map h hq hp hname]
  exact (List.filterMap_congr hfind).trans List.filterMap_some

/-- The mistakes of the overrides, one override after another. -/
theorem undeclared_diagnostics : (undeclared parameters overrides).map Fault.diagnostic =
    overrides.flatMap fun entry => if entry.1 ∈ parameters.map (·.name) then []
      else [(Fault.undeclared entry.1 (sortedNames parameters)).diagnostic] := by
  unfold undeclared
  induction overrides with
  | nil => rfl
  | cons entry rest ih =>
    rw [Object.names, List.map_cons, List.filter_cons, List.flatMap_cons, ← ih]
    by_cases hname : entry.1 ∈ parameters.map (·.name)
    · rw [if_neg (by simpa using hname), if_pos hname]
      rfl
    · rw [if_pos (by simpa using hname), if_neg hname]
      rfl

/-- The check of all parameters: of the names of the overrides, and of one parameter at a time. -/
theorem checkAll_eq (overrides : Object) (h : (parameters.map (·.name)).Nodup) : ∃ tellNames : Findings PUnit,
    Findings.Finds tellNames ⟨⟩ ((undeclared parameters overrides).map Fault.diagnostic) ∧
      (checkAll parameters overrides : Findings _) = tellNames >>= fun _ =>
        parameters.filterMapM fun p => Findings.attempt (tryOne overrides p) := by
  have hone : (fun p => Findings.attempt (tryOne overrides p)) =
      (resolveOne overrides : Parameter → Findings _) := funext fun p => resolveOne_eq.symm
  have hmem (name : String) : name ∈ sortedNames parameters ↔ name ∈ parameters.map (·.name) :=
    (List.mergeSort_perm _ _).mem_iff
  unfold checkAll
  rw [byName_of_nodup h, hone]
  refine ⟨_, ?_, rfl⟩
  rw [undeclared_diagnostics]
  refine Findings.finds_forIn fun entry => ?_
  by_cases hname : entry.1 ∈ parameters.map (·.name)
  · have hknown : (sortedNames parameters).contains entry.1 = true :=
      List.contains_iff_mem.mpr ((hmem _).mpr hname)
    rw [if_pos hname]
    dsimp only
    rw [if_neg (by rw [sortedNames] at hknown; simp only [hknown]; decide)]
    exact Findings.finds_pure _
  · have hunknown : (sortedNames parameters).contains entry.1 = false := by
      rw [List.contains_eq_mem, decide_eq_false_iff_not, hmem]
      exact hname
    rw [if_neg hname]
    dsimp only
    rw [if_pos (by rw [sortedNames] at hunknown; simp only [hunknown]; decide)]
    exact Findings.finds_bind (Findings.finds_report _) (Findings.finds_pure _)

theorem undeclared_eq_nil :
    undeclared parameters overrides = [] ↔
      ∀ name ∈ overrides.names, name ∈ parameters.map (·.name) := by
  rw [undeclared, List.map_eq_nil_iff, List.filter_eq_nil_iff]
  simp

/-- In either mode there is a result if each override is of a parameter, and each parameter takes
on a value. -/
theorem resolve_eq_ok {collect : Bool} (hdistinct : (parameters.map (·.name)).Nodup)
    (hbounds : ∀ p ∈ parameters, p.HasBounds) :
    resolve parameters overrides collect = .ok ps ↔
      (∀ name ∈ overrides.names, name ∈ parameters.map (·.name)) ∧
        List.Forall₂ (Takes overrides) parameters ps := by
  have hagrees : Findings.Agrees True (checkAll parameters overrides)
      (checkAll parameters overrides) := agrees_checkAll parameters overrides
  obtain ⟨tellNames, htell, hcheck⟩ := checkAll_eq overrides hdistinct
  have hgrows (u : PUnit) : Findings.Grows
      (parameters.filterMapM fun p => Findings.attempt (tryOne overrides p)) :=
    Findings.grows_filterMapM _ _ fun p => Findings.grows_attempt _
  have htakes : List.Forall₂ (fun p r => tryOne overrides p = .ok r) parameters ps ↔
      List.Forall₂ (Takes overrides) parameters ps := by
    rw [List.forall₂_iff_zip, List.forall₂_iff_zip]
    refine and_congr_right fun _ => forall_congr' fun p => forall_congr' fun r => ?_
    refine imp_congr_right fun hmem => tryOne_eq_ok (hbounds p (List.of_mem_zip hmem).1)
  unfold resolve
  rw [Findings.settle_eq_ok hagrees, hcheck, Findings.clean_bind hgrows, ← undeclared_eq_nil,
    ← htakes]
  simp only [htell.clean_iff, Findings.clean_filterMapM_attempt, List.map_eq_nil_iff]
  exact ⟨fun ⟨_, ⟨hnames, _⟩, hall⟩ => ⟨hnames, hall⟩, fun ⟨hnames, hall⟩ =>
    ⟨⟨⟩, ⟨hnames, trivial⟩, hall⟩⟩

/-- The mistakes of parameters, in order: one of each that takes on no value. -/
inductive Mistakes (overrides : Object) : List Parameter → List Fault → Prop
  | nil : Mistakes overrides [] []
  | takes {p : Parameter} {r : ResolvedParameter} {parameters : List Parameter}
    {faults : List Fault} (h : Takes overrides p r) (rest : Mistakes overrides parameters faults) :
    Mistakes overrides (p :: parameters) faults
  | fails {p : Parameter} {f : Fault} {parameters : List Parameter} {faults : List Fault}
    (h : Fails overrides p f) (rest : Mistakes overrides parameters faults) :
    Mistakes overrides (p :: parameters) (f :: faults)

theorem finds_mistakes (hbounds : ∀ p ∈ parameters, p.HasBounds)
    (hsmall : ∀ p ∈ parameters, ¬ Overflows overrides p) :
    ∃ ps faults, Mistakes overrides parameters faults ∧
      Findings.Finds (parameters.filterMapM fun p => Findings.attempt (tryOne overrides p)) ps
        (faults.map Fault.diagnostic) := by
  suffices hends : ∃ ends faults, Mistakes overrides parameters faults ∧
      List.Forall₂ (fun p (e : Option ResolvedParameter × List Diagnostic) =>
        Findings.Finds (Findings.attempt (tryOne overrides p)) e.1 e.2) parameters ends ∧
      ends.flatMap (·.2) = faults.map Fault.diagnostic by
    obtain ⟨ends, faults, hmistakes, hall, hfound⟩ := hends
    exact ⟨_, faults, hmistakes, hfound ▸ Findings.finds_filterMapM hall⟩
  induction parameters with
  | nil => exact ⟨[], [], .nil, .nil, rfl⟩
  | cons p parameters ih =>
    have hp := hbounds p List.mem_cons_self
    obtain ⟨ends, faults, hmistakes, hall, hfound⟩ :=
      ih (fun q hq => hbounds q (List.mem_cons_of_mem p hq))
        fun q hq => hsmall q (List.mem_cons_of_mem p hq)
    rcases takes_or overrides p with ⟨r, hr⟩ | ⟨f, hf⟩ | hlarge
    · refine ⟨(some r, []) :: ends, faults, .takes hr hmistakes, .cons ?_ hall, hfound⟩
      rw [(tryOne_eq_ok hp).mpr hr]
      exact Findings.finds_attempt_ok r
    · refine ⟨(none, [f.diagnostic]) :: ends, f :: faults, .fails hf hmistakes, .cons ?_ hall, ?_⟩
      · rw [tryOne_of_fails hp hf]
        exact Findings.finds_attempt_diagnostic _
      · rw [List.flatMap_cons, hfound]
        rfl
    · exact absurd hlarge (hsmall p List.mem_cons_self)

/-- In the mode that gathers, all mistakes come together: those of the names of the overrides, and
then those of the parameters. -/
theorem resolve_collected (hdistinct : (parameters.map (·.name)).Nodup)
    (hbounds : ∀ p ∈ parameters, p.HasBounds)
    (hsmall : ∀ p ∈ parameters, ¬ Overflows overrides p) :
    ∃ faults, Mistakes overrides parameters faults ∧
      (undeclared parameters overrides ++ faults ≠ [] → resolve parameters overrides true =
        .error (.collected ((undeclared parameters overrides ++ faults).map Fault.diagnostic))) := by
  obtain ⟨tellNames, htell, hcheck⟩ := checkAll_eq overrides hdistinct
  obtain ⟨ps, faults, hmistakes, hfinds⟩ := finds_mistakes hbounds hsmall
  refine ⟨faults, hmistakes, fun hne => ?_⟩
  have hall : Findings.Finds (checkAll parameters overrides) ps
      ((undeclared parameters overrides ++ faults).map Fault.diagnostic) := by
    rw [hcheck, List.map_append]
    exact Findings.finds_bind htell hfinds
  refine hall.gathered.trans (if_neg ?_)
  simpa using hne

/-- An integer beyond all doubles for a parameter that holds doubles ends the mode that gathers,
whatever was found. -/
theorem resolve_tooLarge (hdistinct : (parameters.map (·.name)).Nodup)
    (hbounds : ∀ p ∈ parameters, p.HasBounds) (hlarge : ∃ p ∈ parameters, Overflows overrides p) :
    resolve parameters overrides true = Failure.refuse .tooLarge := by
  obtain ⟨tellNames, htell, hcheck⟩ := checkAll_eq overrides hdistinct
  have hone (p : Parameter) (hp : p ∈ parameters) :
      (∃ o ds, Findings.Finds (Findings.attempt (tryOne overrides p)) o ds) ∨
        Findings.Breaks (Findings.attempt (tryOne overrides p)) (.plain .tooLarge) := by
    rcases takes_or overrides p with ⟨r, hr⟩ | ⟨f, hf⟩ | hlarge
    · rw [(tryOne_eq_ok (hbounds p hp)).mpr hr]
      exact Or.inl ⟨_, _, Findings.finds_attempt_ok r⟩
    · rw [tryOne_of_fails (hbounds p hp) hf]
      exact Or.inl ⟨_, _, Findings.finds_attempt_diagnostic _⟩
    · rw [tryOne_of_overflows hlarge]
      exact Or.inr (Findings.breaks_attempt _)
  obtain ⟨p, hp, hlarge⟩ := hlarge
  have hbreaks := Findings.breaks_filterMapM hone
    ⟨p, hp, by rw [tryOne_of_overflows hlarge]; exact Findings.breaks_attempt _⟩
  have hall : Findings.Breaks (checkAll parameters overrides) (.plain .tooLarge) := by
    rw [hcheck]
    exact htell.breaks_bind hbreaks
  exact hall.gathered

/-! ## Values given back -/

theorem exists_takes_iff : (∃ ps, List.Forall₂ (Takes overrides) parameters ps) ↔
    ∀ p ∈ parameters, ∃ r, Takes overrides p r := by
  induction parameters with
  | nil => simp
  | cons p parameters ih =>
    rw [List.forall_mem_cons, ← ih]
    constructor
    · rintro ⟨_, h⟩
      cases h with
      | cons hr hrest => exact ⟨⟨_, hr⟩, _, hrest⟩
    · rintro ⟨⟨r, hr⟩, ps, hrest⟩
      exact ⟨r :: ps, .cons hr hrest⟩

theorem names_of_takes (h : List.Forall₂ (Takes overrides) parameters ps) :
    ps.map (·.name) = parameters.map (·.name) := by
  induction h with
  | nil => rfl
  | cons hr _ ih => rw [List.map_cons, List.map_cons, hr.name, ih]

/-- A value that a parameter took on it takes on again. -/
theorem Takes.again (h : Takes overrides p r) {values : Object}
    (hvalue : values.lookup p.name = some r.value) :
    Takes values p { r with origin := .override } := by
  obtain ⟨v, -, hholds⟩ := h.given
  exact ⟨h.name, ⟨r.value, by rw [given?, hvalue], hholds.self⟩, h.within⟩

theorem resolve_again {collect : Bool} (hdistinct : (parameters.map (·.name)).Nodup)
    (hbounds : ∀ p ∈ parameters, p.HasBounds)
    (h : List.Forall₂ (Takes overrides) parameters ps) :
    ∃ again, resolve parameters (ResolvedParameters.values ps) collect = .ok again ∧
      ResolvedParameters.values again = ResolvedParameters.values ps := by
  have hnames : (ResolvedParameters.values ps).map (·.1) = parameters.map (·.name) := by
    rw [← names_of_takes h, ResolvedParameters.values, List.map_map]
    rfl
  refine ⟨ps.map fun r => { r with origin := .override },
    (resolve_eq_ok hdistinct hbounds).mpr ⟨fun name hname => ?_, ?_⟩, ?_⟩
  · rwa [Object.names, hnames] at hname
  · rw [List.forall₂_map_right_iff, List.forall₂_iff_zip]
    refine ⟨h.length_eq, fun {p r} hmem => ?_⟩
    have hr : Takes overrides p r := (List.forall₂_iff_zip.mp h).2 hmem
    refine hr.again (lookup_of_mem (by rwa [hnames]) (List.mem_map.mpr ⟨r, ?_, ?_⟩))
    · exact (List.of_mem_zip hmem).2
    · rw [hr.name]
  · rw [ResolvedParameters.values, List.map_map]
    rfl

/-- Parameters of different names, with bounds that are numbers, are resolved if every override is
of one of them and each takes on the override, or else its default: a value of its type that no
bound is on the wrong side of. What comes out holds their names in order, and comes out again if
it is given as overrides. The mode that gathers tells one mistake of each override without a
parameter, and then one of each parameter that takes on no value; only an integer that is beyond
all doubles, for a parameter that holds doubles, breaks it off. -/
theorem resolve_decides (parameters : List Parameter) (overrides : Object)
    (hdistinct : (parameters.map (·.name)).Nodup) (hbounds : ∀ p ∈ parameters, p.HasBounds) :
    (∀ collect ps, resolve parameters overrides collect = .ok ps ↔
      (∀ name ∈ overrides.names, name ∈ parameters.map (·.name)) ∧
        List.Forall₂ (Takes overrides) parameters ps) ∧
    (∀ collect, (∃ ps, resolve parameters overrides collect = .ok ps) ↔
      (∀ name ∈ overrides.names, name ∈ parameters.map (·.name)) ∧
        ∀ p ∈ parameters, ∃ r, Takes overrides p r) ∧
    (∀ collect ps, resolve parameters overrides collect = .ok ps →
      ps.map (·.name) = parameters.map (·.name) ∧
      ∀ collect', ∃ again, resolve parameters (ResolvedParameters.values ps) collect' = .ok again ∧
        ResolvedParameters.values again = ResolvedParameters.values ps) ∧
    ((∀ p ∈ parameters, ¬ Overflows overrides p) →
      ∃ faults, Mistakes overrides parameters faults ∧
        (undeclared parameters overrides ++ faults ≠ [] → resolve parameters overrides true =
          .error (.collected
            ((undeclared parameters overrides ++ faults).map Fault.diagnostic)))) ∧
    ((∃ p ∈ parameters, Overflows overrides p) →
      resolve parameters overrides true = Failure.refuse .tooLarge) := by
  refine ⟨fun collect ps => resolve_eq_ok hdistinct hbounds, fun collect => ?_,
    fun collect ps h => ?_, resolve_collected hdistinct hbounds,
    resolve_tooLarge hdistinct hbounds⟩
  · simp only [resolve_eq_ok hdistinct hbounds, exists_and_left, exists_takes_iff]
  · have htakes := ((resolve_eq_ok hdistinct hbounds).mp h).2
    exact ⟨names_of_takes htakes, fun _ => resolve_again hdistinct hbounds htakes⟩

/-! ## A number that is none -/

/-- A parameter between zero and one. -/
def share : Parameter := ⟨"p", .float, .null, true, some (.int 0, .int 1), ""⟩

theorem hasBounds_share : share.HasBounds := by
  rintro lower upper ⟨⟩ b hb
  rcases List.mem_pair.mp hb with rfl | rfl
  · exact Or.inr ⟨_, rfl⟩
  · exact Or.inr ⟨_, rfl⟩

/-- What is no number is taken on, whatever the bounds are. An override without a parameter and a
parameter without a value are told together. -/
theorem resolve_decides_nan :
    resolve [share] [("p", .float (0.0 / 0.0))] false =
      .ok [⟨"p", .float (0.0 / 0.0), .override⟩] ∧
    resolve [share] [("p", .float (0.0 / 0.0))] true =
      .ok [⟨"p", .float (0.0 / 0.0), .override⟩] ∧
    resolve [share] [("q", .int 1)] true = .error (.collected
      [(Fault.undeclared "q" ["p"]).diagnostic, (Fault.noValue "p").diagnostic]) := by
  have hnan : Number.IsNaN (.float (0.0 / 0.0)) := by
    unfold Number.IsNaN Number.level?
    exact if_pos (by decide +kernel)
  have htakes : Takes [("p", .float (0.0 / 0.0))] share ⟨"p", .float (0.0 / 0.0), .override⟩ := by
    refine ⟨rfl, ⟨_, rfl, .float _⟩, ?_⟩
    rintro lower upper n - - ⟨⟩
    exact ⟨fun l _ => Or.inr (Or.inr hnan), fun u _ => Or.inr (Or.inl hnan)⟩
  have hbounds : ∀ p ∈ [share], p.HasBounds := by
    intro p hp
    rw [List.mem_singleton.mp hp]
    exact hasBounds_share
  obtain ⟨hok, -⟩ := resolve_decides [share] [("p", .float (0.0 / 0.0))] (by decide) hbounds
  have hall (collect : Bool) : resolve [share] [("p", .float (0.0 / 0.0))] collect =
      .ok [⟨"p", .float (0.0 / 0.0), .override⟩] :=
    (hok collect _).mpr ⟨by decide, .cons htakes .nil⟩
  have hnone : given? [("q", .int 1)] share = none := rfl
  have hsmall : ∀ p ∈ [share], ¬ Overflows [("q", .int 1)] p := by
    rintro p hp ⟨-, n, origin, hgiven, -⟩
    rw [List.mem_singleton.mp hp, hnone] at hgiven
    cases hgiven
  obtain ⟨-, -, -, hgroup, -⟩ := resolve_decides [share] [("q", .int 1)] (by decide) hbounds
  obtain ⟨faults, hmistakes, hcollected⟩ := hgroup hsmall
  have hfaults : faults = [.noValue "p"] := by
    cases hmistakes with
    | takes h rest =>
      obtain ⟨v, hgiven, -⟩ := h.given
      rw [hnone] at hgiven
      cases hgiven
    | fails h rest =>
      cases rest
      cases h with
      | missing => rfl
      | wrongType h => rw [hnone] at h; cases h
      | outside h => rw [hnone] at h; cases h
  have hunknown : undeclared [share] [("q", .int 1)] = [.undeclared "q" ["p"]] := by
    simp [undeclared, sortedNames, Object.names, share]
  refine ⟨hall false, hall true, ?_⟩
  rw [hfaults, hunknown] at hcollected
  exact hcollected (List.append_ne_nil_of_right_ne_nil _ (List.cons_ne_nil _ _))

end Parameter

end EnergyGraph
