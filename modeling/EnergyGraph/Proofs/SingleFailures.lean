-- Which failures there are below a check. What reads one thing fails with one diagnostic or
-- by refusal, so a check only ever meets mistakes one at a time. Of data this is known as
-- far as it is known of the source that delivers them.
import EnergyGraph.Constant
import EnergyGraph.Parameters
import EnergyGraph.Proofs.Modes

namespace EnergyGraph

variable {α β : Type}

/-! ## Laws -/

theorem singly_ok (a : α) : Singly (.ok a) := failsAs_ok a

theorem singly_error {f : Failure} (h : f.IsSingle) : Singly (.error f : Except Failure α) :=
  failsAs_error h

theorem singly_refuse (kind : Refusal.Kind) : Singly (Failure.refuse kind : Except Failure α) :=
  singly_error trivial

theorem singly_refuseWith (kind : Refusal.Kind) (message : String) :
    Singly (Failure.refuseWith kind message : Except Failure α) :=
  singly_error trivial

theorem singly_bind {x : Except Failure α} {f : α → Except Failure β} (hx : Singly x)
    (hf : ∀ a, Singly (f a)) : Singly (x >>= f) :=
  failsAs_bind hx hf

theorem singly_mapM {f : α → Except Failure β} (xs : List α) (hf : ∀ x, Singly (f x)) :
    Singly (xs.mapM f) :=
  failsAs_mapM xs hf

theorem singly_forM {f : α → Except Failure Unit} (xs : List α) (hf : ∀ x, Singly (f x)) :
    Singly (xs.forM f) :=
  failsAs_forM xs hf

theorem singly_mapError {ε : Type} {x : Except ε α} {f : ε → Failure}
    (hf : ∀ e, x = .error e → (f e).IsSingle) : Singly (x.mapError f) :=
  failsAs_mapError hf

theorem Failure.isSingle_under {f : Failure} (h : f.IsSingle) (outer : List String) :
    (f.under outer).IsSingle := by
  cases f with
  | diagnostic d => exact h
  | collected ds => exact h.elim
  | refusal r => exact h

/-! ## Formulas and constants -/

theorem Expr.Unreadable.isSingle_failure (source : String) (u : Expr.Unreadable) :
    (u.failure source).IsSingle := by
  cases u with
  | mistake m => exact nofun
  | longInteger => trivial

theorem Formula.singly_ofValue (v : Value) (arity : Arity) : Singly (Formula.ofValue v arity) := by
  unfold Formula.ofValue
  split
  · exact singly_mapError fun u _ => u.isSingle_failure _
  · exact singly_ok _
  · exact singly_ok _
  · exact singly_error (Expr.Unreadable.isSingle_failure _ _)
  · exact singly_error (Expr.Unreadable.isSingle_failure _ _)

theorem Formula.singly_under (v : Value) (arity : Arity) (path : List String) :
    Singly ((Formula.ofValue v arity).mapError (·.under path)) :=
  singly_mapError fun f hf => Failure.isSingle_under (Formula.singly_ofValue v arity f hf) path

namespace Constant

theorem singly_fail (f : Fault) (path : List String) : Singly (fail f path : Except Failure α) := by
  refine singly_error ?_
  cases f <;> exact nofun

variable (raw : Value) (parameters : Numbers) (path : List String) (what : String)

theorem singly_ofText (source : String) : Singly (ofText source parameters path what) := by
  unfold ofText
  refine singly_bind (Formula.singly_under _ _ _) fun formula => ?_
  dsimp only
  split
  · exact singly_fail _ _
  · split
    · exact singly_ok _
    · exact singly_fail _ _
    · exact singly_fail _ _
    · exact singly_refuse _

theorem singly_number : Singly (number raw parameters path what) := by
  unfold number
  split
  · exact singly_fail _ _
  · exact singly_ok _
  · exact singly_ok _
  · split
    · exact singly_ok _
    · exact singly_bind (singly_ofText _ _ _ _) fun _ => singly_ok _
  · exact singly_fail _ _

theorem singly_integer : Singly (integer raw parameters path what) := by
  unfold integer
  refine singly_bind (singly_number _ _ _ _) fun n => ?_
  split
  · exact singly_ok _
  · split
    · exact singly_fail _ _
    · split
      · exact singly_fail _ _
      · exact singly_ok _

theorem singly_double : Singly (double raw parameters path what) := by
  unfold double
  refine singly_bind (singly_number _ _ _ _) fun n => ?_
  split
  · split
    · exact singly_ok _
    · exact singly_refuse _
  · exact singly_ok _

end Constant

/-! ## Parameters -/

namespace Parameter

theorem singly_fail (f : Fault) : Singly (fail f : Except Failure α) := singly_error nofun

theorem singly_bound? (v : Value) : Singly (bound? v) := by
  unfold bound?
  split
  · exact singly_ok _
  · exact singly_ok _
  · exact singly_ok _
  · exact singly_ok _
  · exact singly_refuse _

theorem singly_isOutside (n : Number) (lower upper : Value) : Singly (isOutside n lower upper) := by
  unfold isOutside
  refine singly_bind (singly_bound? lower) fun low => ?_
  split
  · exact singly_ok _
  · exact singly_bind (singly_bound? upper) fun _ => singly_ok _

theorem singly_coerce (p : Parameter) (v : Value) : Singly (p.coerce v) := by
  unfold coerce
  split
  · exact singly_ok _
  · exact singly_ok _
  · exact singly_ok _
  · split
    · exact singly_ok _
    · exact singly_fail _
  · exact singly_ok _
  · split
    · exact singly_ok _
    · exact singly_refuse _
  · exact singly_fail _

theorem singly_checkBounds (p : Parameter) (v : Value) : Singly (p.checkBounds v) := by
  unfold checkBounds
  split
  · split
    · refine singly_bind (singly_isOutside _ _ _) fun outside => ?_
      split
      · exact singly_fail _
      · exact singly_ok _
    · exact singly_ok _
  · exact singly_ok _

theorem singly_accept (p : Parameter) (v : Value) : Singly (p.accept v) :=
  singly_bind (singly_coerce p v) fun _ => singly_bind (singly_checkBounds p _) fun _ => singly_ok _

end Parameter

/-! ## Files and data -/

/-- Where data are read, nothing is told: a reading that fails is refused. -/
def Refuses (x : Except Failure α) : Prop := FailsAs (fun f => ∃ r, f = .refusal r) x

theorem Refuses.singly {x : Except Failure α} (h : Refuses x) : Singly x := by
  intro f hf
  obtain ⟨r, rfl⟩ := h f hf
  exact trivial

theorem refuses_refuse (kind : Refusal.Kind) : Refuses (Failure.refuse kind : Except Failure α) :=
  failsAs_error ⟨_, rfl⟩

theorem refuses_refuseWith (kind : Refusal.Kind) (message : String) :
    Refuses (Failure.refuseWith kind message : Except Failure α) :=
  failsAs_error ⟨_, rfl⟩

theorem Payload.refuses_ofValue (v : Value) : Refuses (Payload.ofValue v) := by
  unfold Payload.ofValue
  split
  · exact failsAs_ok _
  · split
    · exact failsAs_ok _
    · exact failsAs_ok _
    · exact refuses_refuse _

theorem Payload.refuses_toFloat (v : Value) : Refuses (Payload.toFloat v) := by
  unfold Payload.toFloat
  split
  · exact failsAs_ok _
  · exact failsAs_mapError fun r _ => ⟨r, rfl⟩

theorem Payload.refuses_tensorOf (shape : Shape) (values : List Value)
    (h : values.length = shape.cellCount) : Refuses (Payload.tensorOf shape values h) := by
  unfold Payload.tensorOf
  split
  · exact failsAs_ok _
  · rename_i e he
    exact failsAs_error (failsAs_mapM values Payload.refuses_toFloat e he)

theorem Payload.refuses_floatsOfValue (v : Value) : Refuses (Payload.floatsOfValue v) := by
  unfold Payload.floatsOfValue
  split
  · exact refuses_refuse _
  · exact Payload.refuses_tensorOf _ _ _

theorem Payload.refuses_floats (p : Payload) : Refuses p.floats := by
  unfold Payload.floats
  split
  · exact Payload.refuses_tensorOf _ _ _
  · exact Payload.refuses_floatsOfValue _

theorem Csv.refuses_number (cell : String) : Refuses (Csv.number cell) := by
  unfold Csv.number
  split
  · exact failsAs_ok _
  · split
    · exact failsAs_ok _
    · exact refuses_refuse _

theorem Csv.refuses_numbersOf (row : List String) : Refuses (Csv.numbersOf row) := by
  have hfilled : Refuses (if Csv.isComment (row.filter fun c => Text.trim c != "") then .ok []
      else (row.filter fun c => Text.trim c != "").mapM Csv.number) := by
    split
    · exact failsAs_ok _
    · exact failsAs_mapM _ Csv.refuses_number
  unfold Csv.numbersOf
  split
  · exact refuses_refuse _
  · exact hfilled

theorem Csv.refuses_read (text : String) : Refuses (Csv.read text) :=
  failsAs_bind (failsAs_mapM _ Csv.refuses_numbersOf) fun _ => Payload.refuses_ofValue _

theorem Npy.refuses_read (data : ByteArray) : Refuses (Npy.read data) := by
  unfold Npy.read
  split
  · exact refuses_refuse _
  · split
    · exact refuses_refuse _
    · split
      · exact refuses_refuse _
      · exact failsAs_ok _

theorem Reader.refuses_textOf (contents : ByteArray) : Refuses (Reader.textOf contents) := by
  unfold Reader.textOf
  split
  · exact failsAs_ok _
  · exact refuses_refuse _

theorem Reader.refuses_jsonOf (contents : ByteArray) : Refuses (Reader.jsonOf contents) := by
  refine failsAs_bind (Reader.refuses_textOf contents) fun text => ?_
  unfold Reader.valueOf
  dsimp only
  split
  · exact failsAs_ok _
  · exact refuses_refuse _
  · exact refuses_refuse _

theorem Reader.refuses_json (path : Path) (contents : ByteArray) :
    Refuses (Reader.json path contents) := by
  unfold Reader.json
  refine failsAs_bind (Reader.refuses_jsonOf contents) fun v => ?_
  split
  · split
    · exact Payload.refuses_ofValue _
    · exact refuses_refuseWith _ _
  · exact Payload.refuses_ofValue _

namespace Readers

/-- Each reader of a registry fails in one way. -/
def FailAs (P : Failure → Prop) (rs : Readers) : Prop :=
  ∀ r ∈ rs, ∀ path contents, FailsAs P (r.2 path contents)

/-- Each reader of a registry fails with one diagnostic at a time. -/
def FailSingly (rs : Readers) : Prop :=
  ∀ r ∈ rs, ∀ path contents, Singly (r.2 path contents)

theorem standard_refuse : standard.FailAs fun f => ∃ r, f = .refusal r := by
  intro r hr path contents
  simp only [standard, List.mem_cons, List.not_mem_nil, or_false] at hr
  rcases hr with rfl | rfl | rfl
  · exact failsAs_bind (Reader.refuses_textOf contents) fun _ => Csv.refuses_read _
  · exact Reader.refuses_json path contents
  · exact Npy.refuses_read contents

theorem standard_failSingly : standard.FailSingly := fun r hr path contents =>
  Refuses.singly (standard_refuse r hr path contents)

section

variable {P : Failure → Prop} {rs : Readers}

theorem FailAs.get (hrs : rs.FailAs P) {name : String} {r : Reader}
    (h : rs.get name = .ok r) (path : Path) (contents : ByteArray) :
    FailsAs P (r path contents) := by
  unfold Readers.get at h
  cases hfound : rs.lookup (key name) with
  | none =>
    rw [hfound] at h
    cases h
  | some found =>
    rw [hfound] at h
    cases h
    obtain ⟨before, after, hsplit, -⟩ := List.lookup_eq_some_iff.mp hfound
    refine hrs (key name, r) ?_ path contents
    rw [hsplit]
    exact List.mem_append_right _ List.mem_cons_self

theorem failsAs_get (hP : ∀ r, P (.refusal r)) (rs : Readers) (name : String) :
    FailsAs P (rs.get name) := by
  unfold Readers.get
  split
  · exact failsAs_ok _
  · exact failsAs_error (hP _)

/-- Reading a file fails as the readers do, or is refused. -/
theorem FailAs.read (hrs : rs.FailAs P) (hP : ∀ r, P (.refusal r)) (files : Files)
    (source : String) (reader baseDir : Option String) :
    FailsAs P (rs.read files source reader baseDir) := by
  unfold Readers.read
  dsimp only
  split
  · exact failsAs_bind_of (failsAs_get hP rs _) fun r hr => hrs.get hr _ _
  · exact failsAs_error (hP _)
  · exact failsAs_error (hP _)

end

theorem FailSingly.read {rs : Readers} (hrs : rs.FailSingly) (files : Files) (source : String)
    (reader baseDir : Option String) : Singly (rs.read files source reader baseDir) :=
  FailAs.read hrs (fun _ => trivial) files source reader baseDir

theorem refuses_read (files : Files) (source : String) (reader baseDir : Option String) :
    Refuses (standard.read files source reader baseDir) :=
  standard_refuse.read (fun r => ⟨r, rfl⟩) files source reader baseDir

end Readers

namespace Store

theorem singly_readSource {s : Store} (hs : s.readers.FailSingly) (files : Files) (name : String)
    (source : Option String) : Singly (s.readSource files name source) := by
  unfold readSource
  split
  · exact singly_refuse _
  · split
    · split
      · exact singly_error nofun
      · exact singly_error trivial
    · exact hs.read files _ none s.baseDir

/-- A store fails no worse than its readers. -/
theorem singly_lookup {s : Store} (hs : s.readers.FailSingly) (files : Files) (name : String) :
    Singly (s.lookup files name) := by
  unfold lookup get
  split
  · exact singly_ok _
  · split
    · exact singly_refuseWith _ _
    · split
      · exact singly_ok _
      · rename_i he
        exact singly_error (singly_readSource hs files name _ _ he)

end Store

theorem Payload.ok_or_refused_ofValue (v : Value) :
    (∃ p, Payload.ofValue v = .ok p) ∨ Payload.ofValue v = Failure.refuse .badType := by
  unfold Payload.ofValue
  split
  · exact .inl ⟨_, rfl⟩
  · split
    · exact .inl ⟨_, rfl⟩
    · exact .inl ⟨_, rfl⟩
    · exact .inr rfl

/-- No file is read for the store of a document: its values are all that can be refused. -/
theorem Document.ok_or_refused_store (d : Document) (baseDir : Option String) :
    (∃ s, d.store baseDir = .ok s ∧ s.readers = .standard) ∨
      d.store baseDir = Failure.refuse .badType := by
  unfold store Store.ofDeclarations
  have hitem : ∀ x ∈ d.dataSources.filter fun x => !x.values.isNull,
      (∃ given, (do .ok (x.name, ← Payload.ofValue x.values) : Except Failure _) = .ok given) ∨
        (do .ok (x.name, ← Payload.ofValue x.values) : Except Failure _) =
          Failure.refuse .badType := by
    intro x _
    rcases Payload.ok_or_refused_ofValue x.values with ⟨p, hp⟩ | hp
    · rw [hp]
      exact .inl ⟨_, rfl⟩
    · rw [hp]
      exact .inr rfl
  rcases mapM_ok_or_error hitem with ⟨given, hgiven⟩ | hgiven
  · rw [hgiven]
    exact .inl ⟨_, rfl, rfl⟩
  · rw [hgiven]
    exact .inr rfl

end EnergyGraph
