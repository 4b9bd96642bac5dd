-- The interaction that a declaration stands for. Numbers may be expressions of
-- parameters, and lists of tuples may stand in the declaration, among the named
-- data or in a file.
import EnergyGraph.Constant
import EnergyGraph.Interaction.Fault

namespace EnergyGraph

/-- What the resolution of a declaration can refer to. -/
structure Surroundings where
  data : Lookup
  parameters : Numbers
  /-- The number from which indices count. -/
  base : Int
  files : Files
  /-- The directory in which the paths of data files start. -/
  baseDir : Option String

namespace Interaction

/-! ## Lists of indices -/

/-- A list as it stands in a declaration, or as it was delivered. -/
inductive Delivery where
  | inline (v : Value)
  | payload (p : Payload)

/-- What follows the mark of a name of data, if a text has one. -/
def dataName? (s : String) : Option String :=
  let mark := "data:".toList
  if mark.isPrefixOf s.toList then some (String.ofList (s.toList.drop mark.length)) else none

/-- The payload of a name; `unknown` is told of one that is not known. -/
def lookUp (s : Surroundings) (name id : String) (unknown : Fault) : Except Failure Payload :=
  match s.data name with
  | .ok p => .ok p
  | .error e => if e.isUnknownName then fail unknown id else .error e

/-- The payload in a file. -/
def readFile (s : Surroundings) (source id : String) : Except Failure Payload :=
  match Readers.standard.read s.files source none s.baseDir with
  | .ok p => .ok p
  | .error (.refusal r) =>
    if r.isAboutFile then fail (.unreadable source r) id else .error (.refusal r)
  | .error e => .error e

/-- The payload of a source: named data first, and a file second. -/
def payloadOf (s : Surroundings) (source id : String) : Except Failure Payload :=
  match dataName? source with
  | some name => lookUp s name id (.unknownKey name source)
  | none =>
    match s.data source with
    | .ok p => .ok p
    | .error e => if e.isUnknownName then readFile s source id else .error e

/-- The list under one of the fields, or else that of the source. -/
def delivery (s : Surroundings) (d : InteractionDecl) (fields : List String) :
    Except Failure Delivery :=
  match fields.findSome? (Object.get? d.spec) with
  | some v => .ok (.inline v)
  | none =>
    match (Object.get? d.spec "source").getD .null with
    | .null => fail (.noSource fields) d.id
    | source => do .ok (.payload (← payloadOf s source.plain d.id))

/-- The items of a list. A single text is the list of its characters. -/
def rows (id : String) : Delivery → Except Failure (List Value)
  | .inline (.list items) => .ok items
  | .inline v => fail (.notList v.typeName) id
  | .payload p =>
    match p.value with
    | .list items => .ok items
    | .text s => .ok (s.toList.map fun c => .text (String.singleton c))
    | _ => Failure.refuse .badType

/-- An index is an integer, or a double without a fractional part. -/
def index (id : String) (v : Value) : Except Failure Int :=
  match v with
  | .int n => .ok n
  | .float x => if isIntegral x then .ok (truncated x) else fail (.notIndex v) id
  | v => fail (.notIndex v) id

/-! ## Symbols -/

def checkWidth (id : String) (symbols : List String) (width : Nat) : Except Failure Unit :=
  if symbols.length = width then .ok () else fail (.wrongWidth symbols width) id

/-- The symbols of a declaration, or the usual ones. -/
def symbolsOr (d : InteractionDecl) (usual : List String) : List String := d.bind.getD usual

/-! ## Ranges -/

/-- A range is a list of its two ends. -/
def range (s : Surroundings) (id : String) (raw : Value) (place : List String) :
    Except Failure Range :=
  match raw with
  | .list [low, high] => do
    let low ← Constant.integer low s.parameters (path id place) "range lower bound"
    let high ← Constant.integer high s.parameters (path id place) "range upper bound"
    .ok ⟨low, high⟩
  | _ => .error (.diagnostic ((Fault.badRange raw).diagnostic id place))

/-- The same symbols, in any order. -/
def sameSymbols (a b : List String) : Bool := a.all (· ∈ b) && b.all (· ∈ a)

/-- One range for each symbol, by the symbols' names. -/
def namedRanges (s : Surroundings) (d : InteractionDecl) (members : Object) :
    Except Failure (List String × List Range) := do
  let names := members.names
  let symbols := symbolsOr d names
  if sameSymbols symbols names then
    let ranges ← symbols.mapM fun symbol =>
      range s d.id ((members.get? symbol).getD .null) ["ranges", symbol]
    .ok (symbols, ranges)
  else fail (.otherSymbols symbols names) d.id

/-- One range for each symbol, by their places. -/
def listedRanges (s : Surroundings) (d : InteractionDecl) (items : List Value) :
    Except Failure (List String × List Range) := do
  let symbols := symbolsOr d ((List.range items.length).map fun k => s!"i{k}")
  checkWidth d.id symbols items.length
  let ranges ← items.zipIdx.mapM fun (raw, k) => range s d.id raw ["ranges", toString k]
  .ok (symbols, ranges)

def resolveRanges (s : Surroundings) (d : InteractionDecl) :
    Except Failure (List String × Domain) :=
  match Object.get? d.spec "ranges" with
  | some (.object members) => do
    let (symbols, ranges) ← namedRanges s d members
    .ok (symbols, .ranges ranges)
  | some (.list items) => do
    let (symbols, ranges) ← listedRanges s d items
    .ok (symbols, .ranges ranges)
  | some _ => fail .badRanges d.id
  | none =>
    match Object.get? d.spec "range" with
    | some raw => do
      let symbols := symbolsOr d ["i"]
      let r ← range s d.id raw ["range"]
      .ok (symbols, .ranges (symbols.map fun _ => r))
    | none => fail .noRanges d.id

/-! ## Tuples and groups -/

/-- A row is a list of indices, or a single index. -/
def tuple (id : String) : Value → Except Failure (List Int)
  | .list items => items.mapM (index id)
  | v => do .ok [← index id v]

/-- The lengths that occur, each once, in increasing order. -/
def widths (items : List (List Int)) : List Nat :=
  ((items.map List.length).mergeSort (· ≤ ·)).eraseDups

/-- The symbols for tuples of this width. -/
def tupleSymbols (d : InteractionDecl) (width : Nat) : Except Failure (List String) :=
  match d.bind, width with
  | some symbols, _ => .ok symbols
  | none, 1 => .ok ["i"]
  | none, 2 => .ok ["i", "j"]
  | none, n => fail (.needsBind n) d.id

/-- The width that all tuples share. Without any tuple it is that of the symbols. -/
def commonWidth (d : InteractionDecl) (items : List (List Int)) : Except Failure Nat :=
  match widths items with
  | [] =>
    let n := (symbolsOr d []).length
    .ok (if n = 0 then 1 else n)
  | [width] => .ok width
  | several => fail (.mixedWidths several) d.id

def resolveTuples (s : Surroundings) (d : InteractionDecl) :
    Except Failure (List String × Domain) := do
  let found ← rows d.id (← delivery s d ["pairs", "tuples"])
  let items ← found.mapM (tuple d.id)
  let width ← commonWidth d items
  let symbols ← tupleSymbols d width
  checkWidth d.id symbols width
  .ok (symbols, .tuples items)

/-- Indices of one group, none of them twice. -/
def members (id : String) (place : Nat) (items : List Value) : Except Failure (List Int) := do
  let ks ← items.mapM (index id)
  let repeated := ks.zipIdx.find? fun (k, n) => k ∈ ks.take n
  match repeated with
  | some (k, _) => fail (.repeatedIndex place k) id
  | none => .ok ks

def group (id : String) : Value × Nat → Except Failure (List Int)
  | (.list items, place) => members id place items
  | (_, place) => fail (.notGroup place) id

def resolveGroups (s : Surroundings) (d : InteractionDecl) :
    Except Failure (List String × Domain) := do
  let found ← rows d.id (← delivery s d ["groups", "members"])
  let groups ← found.zipIdx.mapM (group d.id)
  let symbols := symbolsOr d ["i"]
  checkWidth d.id symbols 1
  .ok (symbols, .groups groups)

/-! ## Grids and matrices -/

/-- The connectivity of a name. In two dimensions the number of neighbours names one too. -/
def connectivity? (given : String) (rank : Nat) : Option Grid.Connectivity :=
  match given with
  | "4" => if rank = 2 then some .axis else none
  | "8" => if rank = 2 then some .full else none
  | name => Grid.Connectivity.ofName? name

/-- The lengths of the axes as they are declared; one that stands alone is the only one. -/
def axisValues (d : InteractionDecl) : Except Failure (List Value) :=
  match (Object.get? d.spec "dims").getD ((Object.get? d.spec "shape").getD .null) with
  | .null => fail .noDims d.id
  | .list items => .ok items
  | v => .ok [v]

def resolveGrid (s : Surroundings) (d : InteractionDecl) :
    Except Failure (List String × Domain) := do
  let items ← axisValues d
  let dims ← items.mapM fun v =>
    Constant.integer v s.parameters (path d.id ["dims"]) "grid dimension"
  if dims.isEmpty || dims.any (· < 1) then fail .badDims d.id
  else
    let named := ((Object.get? d.spec "connectivity").getD (.text "axis")).plain
    let given := Text.lower (Text.trim named)
    match connectivity? given dims.length with
    | none => fail (.badConnectivity given dims.length) d.id
    | some c =>
      let symbols := symbolsOr d ["i", "j"]
      checkWidth d.id symbols 2
      .ok (symbols, .grid (dims.map Int.toNat) c)

/-- The matrix of a declaration: in place, by the name of data, or from the source. -/
def matrix (s : Surroundings) (d : InteractionDecl) : Except Failure (Tensor Float) := do
  match (Object.get? d.spec "factor").getD ((Object.get? d.spec "U").getD .null) with
  | .text given =>
    let name := (dataName? given).getD given
    (← lookUp s name d.id (.unknownFactor name given)).floats
  | .null =>
    match ← delivery s d [] with
    | .inline v => Payload.floatsOfValue v
    | .payload p => p.floats
  | v => Payload.floatsOfValue v

def resolveFactor (s : Surroundings) (d : InteractionDecl) :
    Except Failure (List String × Domain) := do
  let hasFactor := ["factor", "source", "U"].any (Object.contains d.spec)
  if !hasFactor then fail .noFactor d.id
  else
    let u ← matrix s d
    if u.rank ≠ 2 then fail (.badFactor u.shape) d.id
    else
      let symbols := symbolsOr d ["i"]
      checkWidth d.id symbols 1
      .ok (symbols, .factor u)

/-! ## All kinds -/

def resolveNone (d : InteractionDecl) : Except Failure (List String × Domain) :=
  if (symbolsOr d []).isEmpty then .ok ([], .single) else fail .bindsSymbols d.id

/-- The symbols and the domain of a declaration. -/
def resolveDomain (s : Surroundings) (d : InteractionDecl) :
    Except Failure (List String × Domain) :=
  match d.kind with
  | .none => resolveNone d
  | .allIndices => resolveRanges s d
  | .sparse => resolveTuples s d
  | .groups => resolveGroups s d
  | .laplacian => resolveGrid s d
  | .lowRank => resolveFactor s d

/-- A diagnostic under the path of an interaction, if it is not there already. -/
def located (id : String) (d : Diagnostic) : Diagnostic :=
  if d.path.take 2 = path id [] then d else d.under (path id [])

def locatedFailure (id : String) : Failure → Failure
  | .diagnostic d => .diagnostic (located id d)
  | e => e

/-- The interaction of a declaration. -/
def resolve (s : Surroundings) (d : InteractionDecl) : Except Failure Interaction := do
  let (symbols, domain) ← (resolveDomain s d).mapError (locatedFailure d.id)
  .ok ⟨d.id, symbols, domain, s.base⟩

/-- The interaction of a declaration whose kind is given by its name. -/
def resolveNamed (s : Surroundings) (id kind : String) (bind : Option (List String))
    (spec : Object) : Except Failure Interaction :=
  match InteractionKind.ofName? kind with
  | some kind => resolve s ⟨id, kind, bind, spec, false⟩
  | none => fail (.unknownKind kind) id

end Interaction

end EnergyGraph
