-- Where the resolution of an interaction is refused. What is wrong with a declaration is told
-- under its own path, once. Four things are refused instead: a number written as a text that has
-- no value that could be told, a file that holds no data, data that are a single number where a
-- list is wanted, and data that are no matrix where one is wanted.
import EnergyGraph.Data.Store
import EnergyGraph.Interaction.Resolve
import EnergyGraph.Proofs.ConstantRefusals
import EnergyGraph.Proofs.ReadingRefusals

namespace EnergyGraph

/-! ## Data -/

/-- A single number or truth value: data without axes that are no text. -/
def Payload.IsLone (p : Payload) : Prop :=
  ∃ a, p = .array a ∧ a.shape = [] ∧ ∀ texts, a.cells ≠ .texts texts

/-- A single cell stands for itself. -/
theorem Cells.exists_headD {c : Cells} (h : c.count = 1) :
    ∃ v ∈ c.values, c.values.headD .null = v := by
  rw [← length_values] at h
  obtain ⟨v, hv⟩ := List.length_eq_one_iff.mp h
  exact ⟨v, by simp [hv]⟩

/-- Data are a list or a single text, except for a single number or truth value. -/
theorem Payload.value_cases (p : Payload) :
    (p.IsLone ∧ (∀ items, p.value ≠ .list items) ∧ ∀ t, p.value ≠ .text t) ∨
      ¬ p.IsLone ∧ ((∃ items, p.value = .list items) ∨ ∃ t, p.value = .text t) := by
  cases p with
  | listed items => exact Or.inr ⟨by rintro ⟨a, ⟨⟩, -⟩, Or.inl ⟨items, rfl⟩⟩
  | array a =>
    rcases a with ⟨shape | ⟨n, shape⟩, cells, hcount⟩
    · obtain ⟨v, hmem, hv⟩ := Cells.exists_headD hcount
      have hvalue : (Payload.array ⟨[], cells, hcount⟩).value = v := hv
      rw [hvalue]
      cases cells with
      | texts ts =>
        obtain ⟨t, -, rfl⟩ := List.mem_map.mp hmem
        refine Or.inr ⟨?_, Or.inr ⟨t, rfl⟩⟩
        rintro ⟨a, ⟨⟩, -, hcells⟩
        exact hcells ts rfl
      | _ =>
        obtain ⟨x, -, rfl⟩ := List.mem_map.mp hmem
        exact Or.inl ⟨⟨_, rfl, rfl, nofun⟩, nofun, nofun⟩
    · refine Or.inr ⟨?_, Or.inl ⟨_, rfl⟩⟩
      rintro ⟨a, ⟨⟩, hshape, -⟩
      cases hshape

/-- Data are there, or are not known by name. -/
def Lookup.IsGiven (data : Lookup) : Prop := ∀ name, FailsAs (·.isUnknownName = true) (data name)

theorem Store.isGiven_of_ofArrays {arrays : Object} {store : Store}
    (h : ofArrays arrays = .ok store) (files : Files) : (store.lookup files).IsGiven := by
  obtain ⟨known, -, h⟩ := bind_eq_ok.mp h
  cases h
  intro name
  unfold lookup get
  dsimp only
  split
  · exact failsAs_ok _
  · exact failsAs_error rfl

namespace Interaction

variable {s : Surroundings} (d : InteractionDecl)

theorem onceUnder_path (id : String) {place : List String} (h : place.head? ≠ some "interactions") :
    OnceUnder (path id []) (path id place) := by
  refine ⟨place, rfl, ?_⟩
  rintro ⟨rest, rfl⟩
  exact h rfl

theorem Fault.path_diagnostic (f : Fault) (id : String) (place : List String) :
    (f.diagnostic id place).path = path id place := by
  cases f <;> rfl

theorem settles_fail {α : Type} (f : Fault) (id : String) :
    Settles (path id []) (fail f id : Except Failure α) fun _ => False :=
  settles_told (by rw [Fault.path_diagnostic]; exact onceUnder_path id nofun)

/-- A fault that is told before any of the parts is read. -/
theorem settles_fail_first {α β γ : Type} {read : β → Except Failure γ}
    {cause : β → Refusal → Prop} (f : Fault) (id : String) :
    Settles (path id []) (fail f id : Except Failure α) (Interrupted read cause []) :=
  (settles_fail f id).congr fun _ => iff_of_false not_false not_interrupted_nil

theorem settles_checkWidth (id : String) (symbols : List String) (width : Nat) :
    Settles (path id []) (checkWidth id symbols width) fun _ => False := by
  unfold checkWidth
  split
  · exact settles_ok _
  · exact settles_fail _ id

/-! ## Ranges and grids -/

/-- Why a range is refused: for its lower end, or else for its upper one. -/
inductive RangeStumbles (s : Surroundings) (id : String) (place : List String) :
    Value → Refusal → Prop
  | low {low high : Value} {r : Refusal} (h : Constant.Stumbles s.parameters low r) :
    RangeStumbles s id place (.list [low, high]) r
  | high {low high : Value} {n : Int} {r : Refusal}
      (hlow : Constant.integer low s.parameters (path id place) "range lower bound" = .ok n)
      (h : Constant.Stumbles s.parameters high r) : RangeStumbles s id place (.list [low, high]) r

theorem settles_range (id : String) (raw : Value) {place : List String}
    (hplace : place.head? ≠ some "interactions") :
    Settles (path id []) (range s id raw place) (RangeStumbles s id place raw) := by
  have hpath := onceUnder_path id hplace
  unfold range
  split
  · rename_i low high
    refine Settles.congr (Settles.bind (Constant.settles_integer s.parameters _ hpath low)
      fun _ _ => (Constant.settles_integer s.parameters _ hpath high).bind_told fun _ =>
        settles_ok _) fun r => ⟨?_, ?_⟩
    · rintro (h | ⟨n, hlow, h⟩)
      · exact .low h
      · exact .high hlow h
    · rintro (h | ⟨hlow, h⟩)
      · exact Or.inl h
      · exact Or.inr ⟨_, hlow, h⟩
  · rename_i hother
    refine (settles_told (by rwa [Fault.path_diagnostic])).congr fun r => iff_of_false not_false ?_
    rintro (_ | _) <;> exact hother _ _ rfl

/-- The ranges that are read from a mapping, with their places. -/
def namedPlaces (d : InteractionDecl) (members : Object) : List (Value × List String) :=
  let symbols := symbolsOr d members.names
  if sameSymbols symbols members.names then
    symbols.map fun symbol => ((members.get? symbol).getD .null, ["ranges", symbol])
  else []

/-- The ranges that are read from a list, with their places. -/
def listedPlaces (d : InteractionDecl) (items : List Value) : List (Value × List String) :=
  if (symbolsOr d ((List.range items.length).map fun k => s!"i{k}")).length = items.length then
    items.zipIdx.map fun (raw, k) => (raw, ["ranges", toString k])
  else []

/-- The ranges of a declaration that are read, with their places. -/
def placesOf (d : InteractionDecl) : List (Value × List String) :=
  match Object.get? d.spec "ranges" with
  | some (.object members) => namedPlaces d members
  | some (.list items) => listedPlaces d items
  | some _ => []
  | none => (Object.get? d.spec "range").toList.map fun raw => (raw, ["range"])

/-- One of several ranges is refused, and those before it are read. -/
def PlacesStumble (s : Surroundings) (id : String) : List (Value × List String) → Refusal → Prop :=
  Interrupted (fun (raw, place) => range s id raw place)
    fun (raw, place) => RangeStumbles s id place raw

theorem settles_namedRanges (members : Object) : Settles (path d.id []) (namedRanges s d members)
    (PlacesStumble s d.id (namedPlaces d members)) := by
  unfold namedRanges namedPlaces PlacesStumble
  dsimp only
  split
  · refine Settles.congr ?_ fun r => interrupted_map.symm
    exact Settles.bind_told (Settles.mapM _ fun symbol => settles_range d.id _ (by simp))
      fun _ => settles_ok _
  · exact settles_fail_first _ d.id

theorem settles_listedRanges (items : List Value) :
    Settles (path d.id []) (listedRanges s d items)
      (PlacesStumble s d.id (listedPlaces d items)) := by
  unfold listedRanges listedPlaces PlacesStumble checkWidth
  dsimp only
  split
  · refine Settles.congr ?_ fun r => interrupted_map.symm
    rw [ok_bind]
    exact Settles.bind_told (Settles.mapM _ fun entry => settles_range d.id entry.1 (by simp))
      fun _ => settles_ok _
  · exact settles_fail_first _ d.id

theorem settles_resolveRanges :
    Settles (path d.id []) (resolveRanges s d) (PlacesStumble s d.id (placesOf d)) := by
  unfold resolveRanges placesOf
  cases Object.get? d.spec "ranges" with
  | some ranges =>
    cases ranges with
    | object members => exact (settles_namedRanges d members).bind_told fun _ => settles_ok _
    | list items => exact (settles_listedRanges d items).bind_told fun _ => settles_ok _
    | _ => exact settles_fail_first _ d.id
  | none =>
    cases Object.get? d.spec "range" with
    | none => exact settles_fail_first _ d.id
    | some raw =>
      refine Settles.congr ?_ fun r => (interrupted_singleton).symm
      exact (settles_range d.id raw (by simp)).bind_told fun _ => settles_ok _

/-- The lengths of axes that are read. -/
def axesRead (d : InteractionDecl) : List Value :=
  match (Object.get? d.spec "dims").getD ((Object.get? d.spec "shape").getD .null) with
  | .null => []
  | .list items => items
  | v => [v]

/-- The length of an axis is refused, and those before it are read. -/
def AxesStumble (s : Surroundings) (d : InteractionDecl) : Refusal → Prop :=
  Interrupted (fun v => Constant.integer v s.parameters (path d.id ["dims"]) "grid dimension")
    (Constant.Stumbles s.parameters) (axesRead d)

theorem settles_resolveGrid : Settles (path d.id []) (resolveGrid s d) (AxesStumble s d) := by
  have hpath : OnceUnder (path d.id []) (path d.id ["dims"]) := onceUnder_path d.id (by simp)
  have hread : ∀ items : List Value, Settles (path d.id []) (items.mapM fun v =>
      Constant.integer v s.parameters (path d.id ["dims"]) "grid dimension")
      (Interrupted _ (Constant.Stumbles s.parameters) items) := fun items =>
    .mapM items fun v => Constant.settles_integer s.parameters _ hpath v
  have haxes : axisValues d = fail .noDims d.id ∧ axesRead d = [] ∨
      axisValues d = .ok (axesRead d) := by
    unfold axisValues axesRead
    cases (Object.get? d.spec "dims").getD ((Object.get? d.spec "shape").getD .null) with
    | null => exact Or.inl ⟨rfl, rfl⟩
    | _ => exact Or.inr rfl
  unfold resolveGrid AxesStumble
  rcases haxes with ⟨hnone, hempty⟩ | haxes
  · rw [hnone, hempty]
    exact settles_fail_first _ d.id
  · rw [haxes]
    refine (hread (axesRead d)).bind_told fun dims => ?_
    split
    · exact settles_fail _ d.id
    · dsimp only
      split
      · exact settles_fail _ d.id
      · exact (settles_checkWidth _ _ _).bind_told fun _ => settles_ok _

/-! ## Sources -/

/-- Why a file that is named as a source is not read: no data have its name, and the file is there
and holds none. -/
structure FileStumbles (s : Surroundings) (source : String) (r : Refusal) : Prop where
  unmarked : dataName? source = none
  unknown : ∃ f, s.data source = .error f
  refused : Readers.standard.read s.files source none s.baseDir = .error (.refusal r)
  untold : r.isAboutFile = false

/-- The source of a declaration, unless a list stands in one of the fields. -/
def sourceOf? (d : InteractionDecl) (fields : List String) : Option String :=
  match fields.findSome? (Object.get? d.spec) with
  | some _ => none
  | none =>
    match (Object.get? d.spec "source").getD .null with
    | .null => none
    | source => some source.plain

/-- The file of a declaration's source is not read. -/
def SourceStumbles (s : Surroundings) (d : InteractionDecl) (fields : List String) (r : Refusal) :
    Prop :=
  ∃ source, sourceOf? d fields = some source ∧ FileStumbles s source r

section

variable (hdata : Lookup.IsGiven s.data)

include hdata

theorem settles_lookUp (name id : String) (unknown : Fault) :
    Settles (path id []) (lookUp s name id unknown) fun _ => False := by
  unfold lookUp
  cases hname : s.data name with
  | ok p => exact settles_ok p
  | error f =>
    dsimp only
    rw [if_pos (hdata name f hname)]
    exact settles_fail _ id

omit hdata in
theorem settles_readFile (source id : String) : Settles (path id []) (readFile s source id) fun r =>
    Readers.standard.read s.files source none s.baseDir = .error (.refusal r) ∧
      r.isAboutFile = false := by
  have hrefuses := Readers.refuses_read s.files source none s.baseDir
  unfold readFile
  cases hread : Readers.standard.read s.files source none s.baseDir with
  | ok p => exact (settles_ok p).congr fun r => iff_of_false not_false (by simp)
  | error f =>
    obtain ⟨r', rfl⟩ := hrefuses f hread
    dsimp only
    cases habout : r'.isAboutFile with
    | true =>
      refine (settles_fail _ id).congr fun r => iff_of_false not_false ?_
      rintro ⟨⟨⟩, hother⟩
      cases habout.symm.trans hother
    | false =>
      refine settles_of_refuses (failsAs_error ⟨r', rfl⟩) fun r => ⟨fun h => ⟨h, ?_⟩, And.left⟩
      cases h
      exact habout

theorem settles_payloadOf (source id : String) :
    Settles (path id []) (payloadOf s source id) (FileStumbles s source) := by
  have hiff : ∀ r, FileStumbles s source r ↔
      (dataName? source = none ∧ ∃ f, s.data source = .error f) ∧
      Readers.standard.read s.files source none s.baseDir = .error (.refusal r) ∧
        r.isAboutFile = false := by
    intro r
    constructor
    · rintro ⟨hunmarked, hunknown, hrefused, huntold⟩
      exact ⟨⟨hunmarked, hunknown⟩, hrefused, huntold⟩
    · rintro ⟨⟨hunmarked, hunknown⟩, hrefused, huntold⟩
      exact ⟨hunmarked, hunknown, hrefused, huntold⟩
  refine Settles.congr ?_ fun r => (hiff r).symm
  unfold payloadOf
  cases hmark : dataName? source with
  | some name => exact (settles_lookUp hdata name id _).congr fun r => by simp
  | none =>
    cases hsource : s.data source with
    | ok p => exact (settles_ok p).congr fun r => by simp
    | error f =>
      dsimp only
      rw [if_pos (hdata source f hsource)]
      exact (settles_readFile source id).congr fun r => by simp

theorem settles_delivery (fields : List String) :
    Settles (path d.id []) (delivery s d fields) (SourceStumbles s d fields) := by
  unfold delivery SourceStumbles sourceOf?
  cases fields.findSome? (Object.get? d.spec) with
  | some v => exact (settles_ok _).congr fun r => by simp
  | none =>
    cases (Object.get? d.spec "source").getD .null with
    | null => exact (settles_fail _ d.id).congr fun r => by simp
    | _ =>
      exact ((settles_payloadOf hdata _ d.id).bind_told fun _ => settles_ok _).congr
        fun r => by simp

end

/-! ## Lists -/

theorem settles_rows (id : String) (x : Delivery) : Settles (path id []) (rows id x) fun r =>
    ∃ p, x = .payload p ∧ p.IsLone ∧ r = .plain .badType := by
  unfold rows
  cases x with
  | inline v =>
    cases v with
    | list items => exact (settles_ok _).congr fun r => by simp
    | _ => exact (settles_fail _ id).congr fun r => by simp
  | payload p =>
    dsimp only
    rcases p.value_cases with ⟨hlone, hlist, htext⟩ | ⟨hlisted, ⟨items, hvalue⟩ | ⟨t, hvalue⟩⟩
    · split
      · exact absurd ‹_› (hlist _)
      · exact absurd ‹_› (htext _)
      · exact (settles_refuse .badType).congr fun r => by simp [hlone]
    · rw [hvalue]
      exact (settles_ok _).congr fun r => by simp [hlisted]
    · rw [hvalue]
      exact (settles_ok _).congr fun r => by simp [hlisted]

theorem settles_index (id : String) (v : Value) :
    Settles (path id []) (index id v) fun _ => False := by
  unfold index
  split
  · exact settles_ok _
  · split
    · exact settles_ok _
    · exact settles_fail _ id
  · exact settles_fail _ id

theorem settles_tuple (id : String) (v : Value) :
    Settles (path id []) (tuple id v) fun _ => False := by
  unfold tuple
  split
  · exact .mapM_told _ (settles_index id)
  · exact (settles_index id v).bind_told fun _ => settles_ok _

theorem settles_commonWidth (items : List (List Int)) :
    Settles (path d.id []) (commonWidth d items) fun _ => False := by
  unfold commonWidth
  split
  · exact settles_ok _
  · exact settles_ok _
  · exact settles_fail _ d.id

theorem settles_tupleSymbols (width : Nat) :
    Settles (path d.id []) (tupleSymbols d width) fun _ => False := by
  unfold tupleSymbols
  split
  · exact settles_ok _
  · exact settles_ok _
  · exact settles_ok _
  · exact settles_fail _ d.id

theorem settles_group (id : String) (x : Value × Nat) :
    Settles (path id []) (group id x) fun _ => False := by
  unfold group
  split
  · refine (Settles.mapM_told _ (settles_index id)).bind_told fun ks => ?_
    dsimp only
    split
    · exact settles_fail _ id
    · exact settles_ok _
  · exact settles_fail _ id

/-- Why the list of a declaration is not read: for the file of its source, or for data that are a
single number. -/
inductive ListStumbles (s : Surroundings) (d : InteractionDecl) (fields : List String) :
    Refusal → Prop
  | source {r : Refusal} (h : SourceStumbles s d fields r) : ListStumbles s d fields r
  | lone {p : Payload} (hread : delivery s d fields = .ok (.payload p)) (h : p.IsLone) :
    ListStumbles s d fields (.plain .badType)

section

variable (hdata : Lookup.IsGiven s.data)

include hdata

/-- What is made of a list is not refused, but the list is. -/
theorem settles_list {β : Type} {f : List Value → Except Failure β} (fields : List String)
    (hf : ∀ found, Settles (path d.id []) (f found) fun _ => False) :
    Settles (path d.id []) (delivery s d fields >>= fun x => rows d.id x >>= f)
      (ListStumbles s d fields) := by
  refine Settles.congr ((settles_delivery d hdata fields).bind fun x _ =>
    (settles_rows d.id x).bind_told hf) fun r => ⟨?_, ?_⟩
  · rintro (h | ⟨x, hread, p, rfl, hlone, rfl⟩)
    · exact .source h
    · exact .lone hread hlone
  · rintro (h | ⟨hread, hlone⟩)
    · exact Or.inl h
    · exact Or.inr ⟨_, hread, _, rfl, hlone, rfl⟩

theorem settles_resolveTuples :
    Settles (path d.id []) (resolveTuples s d) (ListStumbles s d ["pairs", "tuples"]) :=
  settles_list d hdata ["pairs", "tuples"] fun found =>
    (Settles.mapM_told found (settles_tuple d.id)).bind_told fun items =>
      (settles_commonWidth d items).bind_told fun width =>
        (settles_tupleSymbols d width).bind_told fun symbols =>
          (settles_checkWidth d.id symbols width).bind_told fun _ => settles_ok _

theorem settles_resolveGroups :
    Settles (path d.id []) (resolveGroups s d) (ListStumbles s d ["groups", "members"]) :=
  settles_list d hdata ["groups", "members"] fun found =>
    (Settles.mapM_told found.zipIdx (settles_group d.id)).bind_told fun _ =>
      (settles_checkWidth d.id _ 1).bind_told fun _ => settles_ok _

end

/-! ## Matrices -/

/-- The cells of a matrix as it is delivered: those of an array, or what is in nested lists if they
are one. -/
def cellsOf? : Delivery → Option (List Value)
  | .payload (.array a) => some a.cells.values
  | .payload (.listed items) =>
    (Payload.arrayShape? (.list items)).map fun _ => Payload.leavesOf items
  | .inline v => (Payload.arrayShape? v).map fun _ => Payload.leaves v

/-- Why a cell is no double: it is an integer beyond their range, a text that is no number, or no
number at all. -/
inductive CellStumbles : Value → Refusal → Prop
  | large {v : Value} (h : Document.IsTooLarge v) : CellStumbles v (.plain .tooLarge)
  | text {t : String} (h : Decimal.readFloat? t = none) : CellStumbles (.text t) (.plain .badValue)
  | list {items : List Value} : CellStumbles (.list items) (.plain .badType)
  | object {members : Object} : CellStumbles (.object members) (.plain .badType)

/-- Why a matrix is not read: its rows are no array, or a cell of it is no double. -/
inductive MatrixStumbles (x : Delivery) : Refusal → Prop
  | ragged (h : cellsOf? x = none) : MatrixStumbles x (.plain .badValue)
  | cell {cells : List Value} {r : Refusal} (hcells : cellsOf? x = some cells)
      (h : Interrupted Payload.toFloat CellStumbles cells r) : MatrixStumbles x r

/-- The matrix of a declaration as it is delivered: in place, by the name of data, or from the
source. -/
def matrixDelivery (s : Surroundings) (d : InteractionDecl) : Except Failure Delivery :=
  match (Object.get? d.spec "factor").getD ((Object.get? d.spec "U").getD .null) with
  | .text given => do
    let name := (dataName? given).getD given
    .ok (.payload (← lookUp s name d.id (.unknownFactor name given)))
  | .null => delivery s d []
  | v => .ok (.inline v)

def floatsOf : Delivery → Except Failure (Tensor Float)
  | .inline v => Payload.floatsOfValue v
  | .payload p => p.floats

theorem matrix_eq : matrix s d = matrixDelivery s d >>= floatsOf := by
  unfold matrix matrixDelivery
  cases (Object.get? d.spec "factor").getD ((Object.get? d.spec "U").getD .null) with
  | null => rfl
  | text given => rw [bind_assoc]; rfl
  | _ => rfl

theorem refused_toFloat (v : Value) (r : Refusal) :
    Payload.toFloat v = .error (.refusal r) ↔ CellStumbles v r := by
  cases v with
  | int n =>
    have hcause : CellStumbles (.int n) r ↔ Decimal.ofInt? n = none ∧ r = .plain .tooLarge := by
      rw [Decimal.ofInt?_eq_none_iff]
      constructor
      · rintro ⟨m, ⟨⟩, hlarge⟩
        exact ⟨hlarge, rfl⟩
      · rintro ⟨hlarge, rfl⟩
        exact .large ⟨n, rfl, hlarge⟩
    rw [hcause]
    simp only [Payload.toFloat, Payload.number]
    cases Decimal.ofInt? n with
    | none => simp [Except.mapError, eq_comm]
    | some x => simp [Except.mapError]
  | text t =>
    have hcause : CellStumbles (.text t) r ↔
        Decimal.readFloat? t = none ∧ r = .plain .badValue := by
      constructor
      · rintro (⟨m, ⟨⟩, -⟩ | h)
        exact ⟨h, rfl⟩
      · rintro ⟨h, rfl⟩
        exact .text h
    rw [hcause]
    simp only [Payload.toFloat, Payload.number]
    cases Decimal.readFloat? t with
    | none => simp [Except.mapError, eq_comm]
    | some x => simp [Except.mapError]
  | list items =>
    refine ⟨fun h => by cases h; exact .list, ?_⟩
    rintro (⟨m, ⟨⟩, -⟩ | _)
    rfl
  | object members =>
    refine ⟨fun h => by cases h; exact .object, ?_⟩
    rintro (⟨m, ⟨⟩, -⟩ | _)
    rfl
  | _ =>
    refine iff_of_false nofun ?_
    rintro ⟨m, ⟨⟩, -⟩

theorem settles_tensorOf {outer : List String} (shape : Shape) (values : List Value)
    (h : values.length = shape.cellCount) : Settles outer (Payload.tensorOf shape values h)
      (Interrupted Payload.toFloat CellStumbles values) := by
  refine settles_of_refuses (Payload.refuses_tensorOf shape values h) fun r => ?_
  have hcells : values.mapM Payload.toFloat = .error (.refusal r) ↔
      Interrupted Payload.toFloat CellStumbles values r := by
    simp only [mapM_eq_error, refused_toFloat, Interrupted]
  rw [← hcells]
  unfold Payload.tensorOf
  split
  · rename_i xs hxs
    exact iff_of_false (fun h => by cases h) fun h => by cases hxs.symm.trans h
  · rename_i e he
    exact ⟨fun h => by cases h; exact he, fun h => by cases he.symm.trans h; rfl⟩

theorem matrixStumbles_of_some {x : Delivery} {cells : List Value} (h : cellsOf? x = some cells)
    {r : Refusal} :
    Interrupted Payload.toFloat CellStumbles cells r ↔ MatrixStumbles x r := by
  refine ⟨.cell h, ?_⟩
  rintro (hnone | ⟨hcells, hcell⟩)
  · cases h.symm.trans hnone
  · cases h.symm.trans hcells
    exact hcell

theorem settles_floatsOfValue {outer : List String} {x : Delivery} {v : Value}
    (hx : cellsOf? x = (Payload.arrayShape? v).map fun _ => Payload.leaves v) :
    Settles outer (Payload.floatsOfValue v) (MatrixStumbles x) := by
  unfold Payload.floatsOfValue
  split
  · rename_i hnone
    have hragged : cellsOf? x = none := by rw [hx, hnone, Option.map_none]
    refine (settles_refuse .badValue).congr fun r => ⟨?_, ?_⟩
    · rintro rfl
      exact .ragged hragged
    · rintro (_ | ⟨hcells, -⟩)
      · rfl
      · cases hragged.symm.trans hcells
  · rename_i shape hshape
    have hcells : cellsOf? x = some (Payload.leaves v) := by rw [hx, hshape, Option.map_some]
    exact (settles_tensorOf shape _ _).congr fun r => matrixStumbles_of_some hcells

theorem settles_floatsOf {outer : List String} (x : Delivery) :
    Settles outer (floatsOf x) (MatrixStumbles x) := by
  cases x with
  | inline v => exact settles_floatsOfValue rfl
  | payload p =>
    cases p with
    | array a =>
      have hlength : a.cells.values.length = a.shape.cellCount := by
        rw [Cells.length_values, a.count_eq]
      exact (settles_tensorOf a.shape _ hlength).congr fun r => matrixStumbles_of_some rfl
    | listed items => exact settles_floatsOfValue rfl

/-- Why the matrix of a low-rank interaction is not read. -/
inductive FactorStumbles (s : Surroundings) (d : InteractionDecl) : Refusal → Prop
  | source {r : Refusal} (hfactor : (Object.get? d.spec "factor").getD
      ((Object.get? d.spec "U").getD .null) = .null) (h : SourceStumbles s d [] r) :
    FactorStumbles s d r
  | matrix {x : Delivery} {r : Refusal} (hread : matrixDelivery s d = .ok x)
      (h : MatrixStumbles x r) : FactorStumbles s d r

/-! ## All kinds -/

/-- Why the resolution of a declaration is refused, by its kind. -/
def Stumbles (s : Surroundings) (d : InteractionDecl) : Refusal → Prop :=
  match d.kind with
  | .none => fun _ => False
  | .allIndices => PlacesStumble s d.id (placesOf d)
  | .sparse => ListStumbles s d ["pairs", "tuples"]
  | .groups => ListStumbles s d ["groups", "members"]
  | .laplacian => AxesStumble s d
  | .lowRank => FactorStumbles s d

section

variable (hdata : Lookup.IsGiven s.data)

include hdata

theorem settles_matrixDelivery : Settles (path d.id []) (matrixDelivery s d) fun r =>
    (Object.get? d.spec "factor").getD ((Object.get? d.spec "U").getD .null) = .null ∧
      SourceStumbles s d [] r := by
  unfold matrixDelivery
  cases (Object.get? d.spec "factor").getD ((Object.get? d.spec "U").getD .null) with
  | null => exact (settles_delivery d hdata []).congr fun r => by simp
  | text given =>
    exact ((settles_lookUp hdata _ d.id _).bind_told fun _ => settles_ok _).congr fun r => by simp
  | _ => exact (settles_ok _).congr fun r => by simp

theorem settles_matrix : Settles (path d.id []) (matrix s d) (FactorStumbles s d) := by
  rw [matrix_eq]
  refine ((settles_matrixDelivery d hdata).bind fun x _ => settles_floatsOf x).congr
    fun r => ⟨?_, ?_⟩
  · rintro (⟨hfactor, h⟩ | ⟨x, hread, h⟩)
    · exact .source hfactor h
    · exact .matrix hread h
  · rintro (⟨hfactor, h⟩ | ⟨hread, h⟩)
    · exact Or.inl ⟨hfactor, h⟩
    · exact Or.inr ⟨_, hread, h⟩

omit hdata in
/-- Without any of the fields for a matrix nothing is delivered, and no file is read. -/
theorem not_factorStumbles {r : Refusal}
    (h : ["factor", "source", "U"].any (Object.contains d.spec) = false) :
    ¬ FactorStumbles s d r := by
  simp only [List.any_cons, List.any_nil, Bool.or_false, Bool.or_eq_false_iff, Object.contains,
    Option.isSome_eq_false_iff, Option.isNone_iff_eq_none] at h
  obtain ⟨hfactor, hsource, hu⟩ := h
  have hnone : sourceOf? d [] = none := by simp [sourceOf?, Object.get?, hsource]
  rintro (⟨-, source, h, -⟩ | ⟨hread, -⟩)
  · cases hnone.symm.trans h
  · unfold matrixDelivery delivery Object.get? at hread
    rw [hfactor, hu, hsource] at hread
    cases hread

theorem settles_resolveFactor :
    Settles (path d.id []) (resolveFactor s d) (FactorStumbles s d) := by
  unfold resolveFactor
  dsimp only
  cases hfields : ["factor", "source", "U"].any (Object.contains d.spec) with
  | false =>
    exact (settles_fail _ d.id).congr fun r =>
      iff_of_false not_false (not_factorStumbles d hfields)
  | true =>
    refine (settles_matrix d hdata).bind_told fun u => ?_
    split
    · exact settles_fail _ d.id
    · exact (settles_checkWidth d.id _ 1).bind_told fun _ => settles_ok _

omit hdata in
theorem settles_resolveNone : Settles (path d.id []) (resolveNone d) fun _ => False := by
  unfold resolveNone
  split
  · exact settles_ok _
  · exact settles_fail _ d.id

theorem settles_resolveDomain : Settles (path d.id []) (resolveDomain s d) (Stumbles s d) := by
  unfold resolveDomain Stumbles
  cases d.kind with
  | none => exact settles_resolveNone d
  | allIndices => exact settles_resolveRanges d
  | sparse => exact settles_resolveTuples d hdata
  | groups => exact settles_resolveGroups d hdata
  | laplacian => exact settles_resolveGrid d
  | lowRank => exact settles_resolveFactor d hdata

omit hdata in
theorem locatedFailure_of_told {id : String} {f : Failure} (h : f.IsToldUnder (path id [])) :
    locatedFailure id f = f := by
  cases f with
  | diagnostic d =>
    obtain ⟨place, hpath, -⟩ := h
    have htake : d.path.take 2 = path id [] := by
      rw [hpath]
      rfl
    exact congrArg Failure.diagnostic (if_pos htake)
  | _ => rfl

/-- The resolution of a declaration tells what is wrong under the path of the declaration, once,
and is refused exactly if the declaration stumbles. -/
theorem settles_resolve : Settles (path d.id []) (resolve s d) (Stumbles s d) := by
  have hdomain := settles_resolveDomain d hdata
  have hlocated : (resolveDomain s d).mapError (locatedFailure d.id) = resolveDomain s d := by
    cases hresolved : resolveDomain s d with
    | ok a => rfl
    | error f => exact congrArg Except.error (locatedFailure_of_told (hdomain.told f hresolved))
  unfold resolve
  rw [hlocated]
  exact hdomain.bind_told fun _ => settles_ok _

end

end Interaction

end EnergyGraph
