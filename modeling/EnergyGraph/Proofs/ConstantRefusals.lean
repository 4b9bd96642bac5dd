-- How a step fails, and where constants are refused. A step that fails tells what is wrong under
-- a path, or is refused for one of its causes; that is put together step by step. A number that is
-- written as a text is refused if the text has an integer with too many digits, or if it stands
-- for an expression whose evaluation is refused.
import EnergyGraph.Constant
import EnergyGraph.Proofs.Refusals
import EnergyGraph.Proofs.SingleFailures
import EnergyGraph.Proofs.TermRefusals

namespace EnergyGraph

/-! ## How a step fails -/

/-- The path begins with another one, and what follows does not begin with it again. -/
def OnceUnder (outer path : List String) : Prop :=
  ∃ place, path = outer ++ place ∧ ¬ outer <+: place

/-- A failure is a refusal, or is told under a path. -/
def Failure.IsToldUnder (outer : List String) : Failure → Prop
  | .diagnostic d => OnceUnder outer d.path
  | .collected _ => False
  | .refusal _ => True

/-- A step tells its mistakes under a path, and is refused exactly as its causes say. -/
structure Settles {α : Type} (outer : List String) (x : Except Failure α)
    (cause : Refusal → Prop) : Prop where
  told : FailsAs (·.IsToldUnder outer) x
  refused : ∀ r, x = .error (.refusal r) ↔ cause r

section

variable {α β : Type} {outer : List String} {x : Except Failure α} {f : α → Except Failure β}
  {cause other : Refusal → Prop}

theorem settles_ok (a : α) : Settles outer (.ok a) fun _ => False :=
  ⟨failsAs_ok a, fun _ => iff_of_false (by simp) id⟩

theorem settles_told {d : Diagnostic} (h : OnceUnder outer d.path) :
    Settles outer (.error (.diagnostic d) : Except Failure α) fun _ => False :=
  ⟨failsAs_error h, fun _ => iff_of_false (by simp) id⟩

theorem settles_refuse (kind : Refusal.Kind) :
    Settles outer (Failure.refuse kind : Except Failure α) (· = .plain kind) :=
  ⟨failsAs_error trivial, fun _ => ⟨fun h => by cases h; rfl, fun h => by cases h; rfl⟩⟩

/-- What refuses only has nothing to tell. -/
theorem settles_of_refuses (h : Refuses x) (hcause : ∀ r, x = .error (.refusal r) ↔ cause r) :
    Settles outer x cause := by
  refine ⟨fun f hf => ?_, hcause⟩
  obtain ⟨r, rfl⟩ := h f hf
  exact trivial

namespace Settles

theorem congr (h : Settles outer x cause) (hcause : ∀ r, cause r ↔ other r) :
    Settles outer x other :=
  ⟨h.told, fun r => (h.refused r).trans (hcause r)⟩

theorem bind {R : α → Refusal → Prop} (hx : Settles outer x cause)
    (hf : ∀ a, x = .ok a → Settles outer (f a) (R a)) :
    Settles outer (x >>= f) fun r => cause r ∨ ∃ a, x = .ok a ∧ R a r where
  told := failsAs_bind_of hx.told fun a ha => (hf a ha).told
  refused := by
    intro r
    rw [bind_eq_error, hx.refused]
    exact or_congr_right (exists_congr fun a => and_congr_right fun ha => (hf a ha).refused r)

/-- After the last step that can be refused. -/
theorem bind_told (hx : Settles outer x cause) (hf : ∀ a, Settles outer (f a) fun _ => False) :
    Settles outer (x >>= f) cause :=
  (hx.bind fun a _ => hf a).congr fun _ => by simp

theorem mapM {causes : α → Refusal → Prop} (xs : List α) (h : ∀ a, Settles outer (f a) (causes a)) :
    Settles outer (xs.mapM f) (Interrupted f causes xs) where
  told := failsAs_mapM xs fun a => (h a).told
  refused := fun r => by simp only [mapM_eq_error, (h _).refused, Interrupted]

/-- Nothing is refused in a list if none of its items is. -/
theorem mapM_told (xs : List α) (h : ∀ a, Settles outer (f a) fun _ => False) :
    Settles outer (xs.mapM f) fun _ => False :=
  (mapM xs h).congr fun _ => by simp [Interrupted]

end Settles

end

/-! ## Constants -/

theorem Formula.unreadable_of_error {v : Value} {arity : Arity} {e : Failure}
    (h : ofValue v arity = .error e) : ∃ u : Expr.Unreadable, e = u.failure v.plain := by
  unfold ofValue at h
  split at h
  · rename_i source
    cases hread : ofText source arity with
    | error u =>
      rw [hread] at h
      cases h
      exact ⟨u, rfl⟩
    | ok f =>
      rw [hread] at h
      cases h
  · cases h
  · cases h
  · cases h
    exact ⟨_, rfl⟩
  · cases h
    exact ⟨_, rfl⟩

/-- A formula that cannot be read is told where it stands. -/
theorem Formula.settles_ofValue {outer path : List String} (hpath : OnceUnder outer path)
    (v : Value) {arity : Arity} (harity : arity.IsNatural) :
    Settles outer ((ofValue v arity).mapError (·.under path)) fun r =>
      v.HasLongInteger ∧ r = .plain .badValue where
  told := by
    refine failsAs_mapError fun e he => ?_
    obtain ⟨u, rfl⟩ := unreadable_of_error he
    cases u with
    | mistake m =>
      change OnceUnder outer (path ++ [])
      rwa [List.append_nil]
    | longInteger => exact trivial
  refused := by
    intro r
    rw [← ofValue_eq_refused harity]
    rcases ofValue v arity with (d | ds | r') | f
    · exact iff_of_false nofun nofun
    · exact iff_of_false nofun nofun
    · exact ⟨fun h => by cases h; rfl, fun h => by cases h; rfl⟩
    · exact iff_of_false nofun nofun

namespace Constant

/-- Nothing is known by name where a constant is evaluated. -/
def surroundings : EvalContext Float := ⟨[], 0, []⟩

/-- Why the value of a formula is refused: it is an expression of parameters, and its evaluation
comes to a part that is. -/
inductive FormulaStumbles (parameters : Numbers) (f : Formula) : Refusal → Prop
  | part {t : Symbols} {part : Expr} {kind : Refusal.Kind}
      (hconstant : (f.substitute parameters []).body.isConstant = true)
      (hvisits : Expr.Visits surroundings t part [] (f.substitute parameters []).body)
      (hpart : Expr.Refused surroundings t part kind) : FormulaStumbles parameters f (.plain kind)

/-- Why the value of a text is refused: it has an integer with too many digits, or the formula
that it stands for is refused. -/
inductive TextStumbles (parameters : Numbers) (source : String) : Refusal → Prop
  | tooLong (h : (Value.text source).HasLongInteger) :
    TextStumbles parameters source (.plain .badValue)
  | formula {f : Formula} {r : Refusal}
      (hread : Formula.ofValue (.text source) (.count 0) = .ok f)
      (h : FormulaStumbles parameters f r) : TextStumbles parameters source r

/-- Why a number is refused: it is written as a text. -/
def Stumbles (parameters : Numbers) (raw : Value) (r : Refusal) : Prop :=
  ∃ source, raw = .text source ∧ infinity? source = none ∧ TextStumbles parameters source r

theorem Fault.path_diagnostic (f : Fault) (path : List String) :
    (f.diagnostic path).path = path := by
  cases f <;> rfl

variable {outer path : List String} (parameters : Numbers) (what : String)

theorem settles_fail {α : Type} (hpath : OnceUnder outer path) (f : Fault) :
    Settles outer (fail f path : Except Failure α) fun _ => False :=
  settles_told (by rwa [Fault.path_diagnostic])

/-- The value of an expression that names nothing. -/
theorem settles_value (hpath : OnceUnder outer path) {P : Number → Prop} {e : Expr}
    (h : Expr.Legible P e) (source : String) :
    Settles outer (match e.evaluateScalar [] 0 with
      | .ok x => .ok x
      | .error (.domain v) => fail (.noValue what source v.message) path
      | .error (.lookup v) => fail (.noValue what source v.message) path
      | .error (.refusal kind) => Failure.refuse kind : Except Failure Float) fun r =>
        ∃ t part kind, (Expr.Visits surroundings t part [] e ∧
          Expr.Refused surroundings t part kind) ∧ r = .plain kind := by
  have hrefused : ∀ kind, e.evaluateScalar ([] : Arrays Float) 0 = .error (.refusal kind) ↔
      ∃ t part, Expr.Visits surroundings t part [] e ∧ Expr.Refused surroundings t part kind :=
    fun kind => Expr.valueAt_eq_refused h
  rcases hvalue : e.evaluateScalar ([] : Arrays Float) 0 with (v | v | kind) | x
  · refine (settles_fail hpath _).congr fun r => iff_of_false id ?_
    rintro ⟨t, part, kind, hpart, -⟩
    cases hvalue.symm.trans ((hrefused kind).mpr ⟨t, part, hpart⟩)
  · refine (settles_fail hpath _).congr fun r => iff_of_false id ?_
    rintro ⟨t, part, kind, hpart, -⟩
    cases hvalue.symm.trans ((hrefused kind).mpr ⟨t, part, hpart⟩)
  · refine (settles_refuse kind).congr fun r => ⟨?_, ?_⟩
    · rintro rfl
      obtain ⟨t, part, hpart⟩ := (hrefused kind).mp hvalue
      exact ⟨t, part, kind, hpart, rfl⟩
    · rintro ⟨t, part, kind', hpart, rfl⟩
      cases hvalue.symm.trans ((hrefused kind').mpr ⟨t, part, hpart⟩)
      rfl
  · refine (settles_ok x).congr fun r => iff_of_false id ?_
    rintro ⟨t, part, kind, hpart, -⟩
    cases hvalue.symm.trans ((hrefused kind).mpr ⟨t, part, hpart⟩)

theorem formulaStumbles_iff {f : Formula} {r : Refusal} : FormulaStumbles parameters f r ↔
    (f.substitute parameters []).body.isConstant = true ∧
      ∃ t part kind, (Expr.Visits surroundings t part [] (f.substitute parameters []).body ∧
        Expr.Refused surroundings t part kind) ∧ r = .plain kind := by
  constructor
  · rintro ⟨hconstant, hvisits, hpart⟩
    exact ⟨hconstant, _, _, _, ⟨hvisits, hpart⟩, rfl⟩
  · rintro ⟨hconstant, t, part, kind, ⟨hvisits, hpart⟩, rfl⟩
    exact .part hconstant hvisits hpart

theorem settles_ofText (hpath : OnceUnder outer path) (source : String) :
    Settles outer (ofText source parameters path what) (TextStumbles parameters source) := by
  unfold ofText
  have hformula := Formula.settles_ofValue hpath (.text source) Document.isNatural_zero
  refine (hformula.bind (R := FormulaStumbles parameters) fun f hf => ?_).congr fun r => ⟨?_, ?_⟩
  · have hlegible : Expr.Legible (fun _ => True) (f.substitute parameters []).body :=
      (Formula.legible_of_ofValue (mapError_eq_ok.mp hf)).replace (fun _ _ => trivial) _
    refine Settles.congr ?_ fun r => (formulaStumbles_iff parameters).symm
    dsimp only
    cases hconstant : (f.substitute parameters []).body.isConstant with
    | false => exact (settles_fail hpath _).congr fun r => by simp
    | true => exact (settles_value what hpath hlegible source).congr fun r => by simp
  · rintro (⟨hlong, rfl⟩ | ⟨f, hf, h⟩)
    · exact .tooLong hlong
    · exact .formula (mapError_eq_ok.mp hf) h
  · rintro (hlong | ⟨hread, h⟩)
    · exact Or.inl ⟨hlong, rfl⟩
    · exact Or.inr ⟨_, mapError_eq_ok.mpr hread, h⟩

theorem settles_number (hpath : OnceUnder outer path) (raw : Value) :
    Settles outer (number raw parameters path what) (Stumbles parameters raw) := by
  unfold number Stumbles
  cases raw with
  | text source =>
    dsimp only
    cases hinfinity : infinity? source with
    | some x => exact (settles_ok _).congr fun r => by simp [hinfinity]
    | none =>
      have htext := settles_ofText parameters what hpath source
      exact (htext.bind_told fun _ => settles_ok _).congr fun r => by simp [hinfinity]
  | int n => exact (settles_ok _).congr fun r => by simp
  | float x => exact (settles_ok _).congr fun r => by simp
  | _ => exact (settles_fail hpath _).congr fun r => by simp

theorem settles_integer (hpath : OnceUnder outer path) (raw : Value) :
    Settles outer (integer raw parameters path what) (Stumbles parameters raw) := by
  unfold integer
  refine (settles_number parameters what hpath raw).bind_told fun n => ?_
  split
  · exact settles_ok _
  · split
    · exact settles_fail hpath _
    · split
      · exact settles_fail hpath _
      · exact settles_ok _

end Constant

end EnergyGraph
