-- The graph of a document. Building goes through the parts of the document in a
-- fixed order, variables first and the ensemble last; what is wrong in one part is
-- reported, and building goes on with the next.
import EnergyGraph.Component.Binding
import EnergyGraph.Component.Bounds
import EnergyGraph.Graph.Fault
import EnergyGraph.Interaction.Resolve
import EnergyGraph.Parameters

namespace EnergyGraph.Graph

/-! ## Variables -/

/-- A bound by the name of data: a single number, or one for each entry. -/
def dataBound (s : Surroundings) (owner data : String) (shape : Shape) :
    Except Failure Bound :=
  match s.data data with
  | .error e =>
    if e.isUnknownName then fail (.unknownBound owner data) else .error e
  | .ok p => do
    let a ← p.floats
    if a.rank ≠ 0 ∧ a.shape ≠ shape then fail (.wrongBoundShape owner data shape a.shape)
    else .ok (.array a)

/-- A bound of a variable; nothing said is no bound. -/
def bound (s : Surroundings) (owner : String) (raw : Value) (unbounded : Float) (shape : Shape) :
    Except Failure Bound :=
  let number : Except Failure Bound := do
    .ok (.number (← Constant.double raw s.parameters ["variables", owner] "bound"))
  match raw with
  | .null => .ok (.number unbounded)
  | .text t =>
    match Interaction.dataName? t with
    | some data => dataBound s owner data shape
    | none => number
  | _ => number

/-- The lengths of the axes of a declared shape. -/
def dimensions (s : Surroundings) (dims : List Dim) (path : List String) :
    Except Failure (List Int) :=
  dims.mapM fun d => Constant.integer d.value s.parameters path "shape dimension"

def resolveVariable (s : Surroundings) (v : Variable) : Except Failure VariableSpec := do
  let dims ← dimensions s v.shape ["variables", v.name]
  if dims.any (· < 0) then fail (.negativeDimension v.name)
  else
    let shape := dims.map Int.toNat
    let infinite : Float := 1.0 / 0.0
    let lower ← bound s v.name v.lower (-infinite) shape
    let upper ← bound s v.name v.upper infinite shape
    .ok ⟨v.name, v.type, shape, lower, upper⟩

/-! ## Data -/

/-- The term that a component means, if it is there. -/
def termOf? (d : Document) (c : ComponentDecl) : Option TermDecl :=
  match c.term with
  | .inline t => some t
  | .named id => d.term? id

/-- The interaction that everything can be said to have. -/
def noInteraction : InteractionDecl := ⟨"none", .none, none, [], false⟩

/-- The interaction that a component means, if it is there. -/
def interactionOf? (d : Document) (c : ComponentDecl) : Option InteractionDecl :=
  match c.interaction with
  | .inline i => some i
  | .named id =>
    match d.interaction? id with
    | some i => some i
    | none => if id == noInteraction.id then some noInteraction else none

/-- The name of data that a text of a declaration stands for. -/
def dataReference? : Value → Option String
  | .text s => some ((Interaction.dataName? s).getD s)
  | _ => none

/-- The fields of an interaction that may name data. -/
def sourceFields : List String := ["source", "factor", "U"]

/-- Names of data in the interaction of a component. -/
def sourceNames (i : InteractionDecl) : List String :=
  sourceFields.filterMap fun field => (Object.get? i.spec field).bind dataReference?

/-- Names of data in the bounds of a variable. -/
def boundNames (v : Variable) : List String :=
  [v.lower, v.upper].filterMap fun
    | .text s => Interaction.dataName? s
    | _ => none

/-- The formulas of the terms that components use, and the weights. -/
def usedFormulas (d : Document) : List Formula :=
  (d.components.filterMap (termOf? d)).flatMap TermDecl.formulas ++
    d.hamiltonians.flatMap (fun h => h.components.map (·.weight)) ++
    d.ensemble.map (·.weight)

/-- Every name that could be one of data. -/
def referencedNames (d : Document) : List String :=
  (usedFormulas d).flatMap (fun f => f.body.mentioned) ++
    (d.components.filterMap (interactionOf? d)).flatMap sourceNames ++
    d.vars.flatMap boundNames

/-- A declared shape is the shape of the data. -/
def checkDataShape (s : Surroundings) (d : DataDecl) (shape : Shape) : Except Failure Unit :=
  match d.shape with
  | none => .ok ()
  | some dims => do
    let declared ← dimensions s dims ["data", d.name]
    if declared = shape.map (fun (n : Nat) => (n : Int)) then .ok ()
    else fail (.wrongDataShape d.name declared shape)

/-- The shape of data that something refers to. -/
def dataShape (s : Surroundings) (d : DataDecl) : Except Failure (String × Shape) :=
  match s.data d.name with
  | .error e => if e.isUnknownName then fail (.unavailable d.name) else .error e
  | .ok p => do
    checkDataShape s d p.shape
    .ok (d.name, p.shape)

/-! ## Names -/

/-- The shapes and the numbers that names stand for. -/
structure Scope where
  shapes : List (String × Shape)
  numbers : Numbers

/-- A name that can stand alone: a number, or an array with a single cell. -/
def Scope.isScalar (s : Scope) (name : String) : Bool :=
  (s.numbers.lookup name).isSome ||
    match s.shapes.lookup name with
    | some shape => shape.cellCount == 1
    | none => false

/-- A name without indices is known, and stands for a single number. -/
def checkScalar (s : Scope) (component name : String) : Except Failure Unit :=
  if s.isScalar name then .ok ()
  else
    match s.shapes.lookup name with
    | some shape => fail (.notIndexed component name shape)
    | none => fail (.unknownName component name)

def checkArray (s : Scope) (component name : String) : Except Failure Unit :=
  if (s.shapes.lookup name).isSome then .ok () else fail (.unknownArray component name)

def checkNames (s : Scope) (component : String) (u : Usage) : Except Failure Unit := do
  u.scalars.forM (checkScalar s component)
  (u.arrays.map (·.1)).forM (checkArray s component)

/-! ## Components -/

/-- Nodes built so far. A term is shared by components that bind the same symbols,
and an interaction by all components that name it; one that failed has no place. -/
structure Assembly where
  terms : List TermNode
  termPlaces : List ((String × List String) × Nat)
  interactions : List Interaction
  interactionPlaces : List (String × Option Nat)
  components : List ComponentNode

def Assembly.empty : Assembly := ⟨[], [], [], [], []⟩

section

variable {m : Type → Type} [Monad m] [Reports m]

/-- Resolves an interaction the first time it is used. -/
def placeInteraction (s : Surroundings) (a : Assembly) (i : InteractionDecl) :
    m (Option (Nat × Interaction) × Assembly) := do
  match a.interactionPlaces.lookup i.id with
  | some place => pure (place.bind fun k => a.interactions[k]?.map fun x => (k, x), a)
  | none =>
    match ← Findings.attempt (Interaction.resolve s i) with
    | none =>
      pure (none, { a with interactionPlaces := a.interactionPlaces ++ [(i.id, none)] })
    | some resolved =>
      let k := a.interactions.length
      pure (some (k, resolved), { a with
        interactions := a.interactions ++ [resolved]
        interactionPlaces := a.interactionPlaces ++ [(i.id, some k)] })

/-- The place of the interaction that a component means, if it is there. -/
def placeFor (d : Document) (s : Surroundings) (a : Assembly) (c : ComponentDecl) :
    m (Option (Nat × Interaction) × Assembly) :=
  match interactionOf? d c with
  | none => pure (none, a)
  | some i => placeInteraction s a i

/-- Symbols in increasing order, each once. -/
def symbolSet (symbols : List String) : List String :=
  (symbols.mergeSort fun a b => a ≤ b).eraseDups

/-- A term with its parameters replaced by their values; bound symbols stay. -/
def termNode (numbers : Numbers) (t : TermDecl) (bound : List String) : TermNode where
  id := t.id
  kind := t.kind
  expr := t.expr.map fun f => f.substitute numbers bound
  function := t.function
  args := t.args.map fun f => f.substitute numbers bound
  compat := t.compat

/-- The node of a term under some bound symbols, made the first time it is used. -/
def placeTerm (numbers : Numbers) (a : Assembly) (t : TermDecl) (bound : List String) :
    Nat × TermNode × Assembly :=
  let key := (t.id, symbolSet bound)
  let found := do
    let k ← a.termPlaces.lookup key
    let node ← a.terms[k]?
    some (k, node, a)
  found.getD <|
    let node := termNode numbers t bound
    let k := a.terms.length
    (k, node, { a with
      terms := a.terms ++ [node]
      termPlaces := a.termPlaces ++ [(key, k)] })

/-- The expressions of some formulas. -/
def bodies (fs : List Formula) : List Expr := fs.map (·.body)

/-- Names and indices of a bound term are in order. -/
def checkTerm (s : Scope) (base : Int) (component : String) (t : TermDecl) (node : TermNode)
    (i : Interaction) : Except Failure Unit := do
  checkNames s component (Usage.ofExprs (bodies t.formulas) i.symbols)
  (Bounds.check (bodies node.formulas) i s.shapes base).mapError fun f =>
    .diagnostic (f.diagnostic component)

/-- Binds a term to an interaction and checks what comes of it. -/
def bindComponent (s : Scope) (base : Int) (a : Assembly) (c : ComponentDecl) (t : TermDecl)
    (place : Nat) (i : Interaction) : m Assembly := do
  let bound := Binding.bind (bodies t.formulas) t.arity t.compat i c.aggregator
  let site : Binding.Site := ⟨c.id, t.id, i.id⟩
  match ← Findings.attempt (bound.mapError fun f => Failure.diagnostic (f.diagnostic site)) with
  | none => pure a
  | some binding =>
    let (k, node, a) := placeTerm s.numbers a t (i.symbols ++ binding.reductions)
    match ← Findings.attempt (checkTerm s base c.id t node i) with
    | none => pure a
    | some () =>
      pure { a with components := a.components ++
        [⟨c.id, k, place, binding.aggregator, binding.free, binding.reductions⟩] }

/-- Adds a component; a reference to nothing is left to the check of references. -/
def addComponent (d : Document) (s : Surroundings) (scope : Scope) (a : Assembly)
    (c : ComponentDecl) : m Assembly := do
  let (placed, a) ← placeFor d s a c
  match termOf? d c, placed with
  | some t, some (place, i) => bindComponent scope s.base a c t place i
  | _, _ => pure a

/-! ## Weights -/

/-- A weight uses no symbols, and no names but those of single numbers. -/
def resolveWeight (s : Scope) (w : Formula) (path : List String) : Except Failure Formula :=
  let weight := w.substitute s.numbers []
  let symbols := weight.body.indexSymbols ++ weight.body.reductionSymbols
  if symbols ≠ [] then fail (.weightWithSymbols path weight.source symbols)
  else
    match weight.body.names.find? fun n => !s.isScalar n with
    | some name => fail (.unknownWeightName path weight.source name)
    | none => .ok weight

/-- A use with its weight, and the place of what is used. -/
def resolveUse (s : Scope) (place? : String → Option Nat) (u : WeightedUse) (path : List String) :
    Except Failure (Option WeightedRef) := do
  let weight ← resolveWeight s u.weight path
  .ok ((place? u.use).map fun k => ⟨k, weight⟩)

/-- A declared type is the one that follows from what is coupled. -/
def checkType (h : HamiltonianDecl) : Except Failure Unit :=
  match h.type with
  | some declared =>
    if declared = h.derivedType then .ok () else fail (.wrongType h.id declared h.derivedType)
  | none => .ok ()

def resolveHamiltonian (s : Scope) (components : List ComponentNode) (h : HamiltonianDecl) :
    Except Failure HamiltonianNode := do
  checkType h
  let place? (id : String) := components.findIdx? fun c => c.id == id
  let refs ← h.components.zipIdx.mapM fun (u, k) =>
    resolveUse s place? u ["hamiltonians", h.id, "components", toString k]
  .ok ⟨h.id, h.derivedType, refs.filterMap id, h.couples⟩

/-- There is something in the ensemble. -/
def checkNotEmpty (uses : List WeightedUse) : m Unit :=
  if uses.isEmpty then report .emptyEnsemble else pure ()

def buildEnsemble (s : Scope) (hamiltonians : List HamiltonianNode) (uses : List WeightedUse) :
    m (List WeightedRef) := do
  checkNotEmpty uses
  let place? (id : String) := hamiltonians.findIdx? fun h => h.id == id
  let refs ← uses.zipIdx.mapM fun (u, k) =>
    Findings.attempt (resolveUse s place? u ["ensemble", toString k])
  pure (refs.filterMap fun r => r.bind id)

/-! ## References -/

/-- A functional term refers to a declared function. -/
def checkFunction (d : Document) (t : TermDecl) (path : List String) : m Unit := do
  if t.kind = .functional then
    let name := t.function.getD ""
    if !d.functions.any fun f => f.id == name then
      report (.unknownReference path "function" name)

def checkTermReference (d : Document) (c : ComponentDecl) : m Unit := do
  let path := ["components", c.id]
  match c.term with
  | .inline t => checkFunction d t path
  | .named id => if (d.term? id).isNone then report (.unknownReference path "term" id)

def checkComponentReferences (d : Document) (c : ComponentDecl) : m Unit := do
  checkTermReference d c
  if (interactionOf? d c).isNone then
    report (.unknownReference ["components", c.id] "interaction" c.interactionId)

/-- A use of something under one of some ids. -/
def checkUse (ids path : List String) (kind : String) (u : WeightedUse) : m Unit :=
  if !ids.contains u.use then report (.unknownReference path kind u.use) else pure ()

def checkHamiltonianUses (d : Document) (h : HamiltonianDecl) : m Unit :=
  h.components.forM
    (checkUse (d.components.map (·.id)) ["hamiltonians", h.id] "component")

/-- Everything that is referred to is declared. -/
def checkReferences (d : Document) : m Unit := do
  d.terms.forM fun t => checkFunction d t ["terms", t.id]
  d.components.forM (checkComponentReferences d)
  d.hamiltonians.forM (checkHamiltonianUses d)
  d.ensemble.forM (checkUse (d.hamiltonians.map (·.id)) ["ensemble"] "hamiltonian")

/-! ## The graph -/

/-- What the names of a document stand for. -/
def scopeOf (s : Surroundings) (vars : List VariableSpec) (dataShapes : List (String × Shape)) :
    Scope :=
  ⟨vars.map (fun v => (v.name, v.shape)) ++ dataShapes, s.parameters⟩

/-- The hamiltonians and the ensemble, after the components. References to what is not declared
are told last of all. -/
def linkUses (d : Document) (s : Scope) (components : List ComponentNode) :
    m (List HamiltonianNode × List WeightedRef) := do
  let hamiltonians ← d.hamiltonians.filterMapM fun h =>
    Findings.attempt (resolveHamiltonian s components h)
  let ensemble ← buildEnsemble s hamiltonians d.ensemble
  checkReferences d
  pure (hamiltonians, ensemble)

/-- The graph of a document, put together part by part. -/
def putTogether (d : Document) (parameters : ResolvedParameters) (s : Surroundings) :
    m Graph := do
  let vars ← d.vars.filterMapM fun v => Findings.attempt (resolveVariable s v)
  let referenced := referencedNames d
  let dataShapes ← (d.data.filter fun x => referenced.contains x.name).filterMapM fun x =>
    Findings.attempt (dataShape s x)
  let scope := scopeOf s vars dataShapes
  let a ← d.components.foldlM (addComponent d s scope) Assembly.empty
  let (hamiltonians, ensemble) ← linkUses d scope a.components
  return {
    name := d.name
    version := d.version
    base := d.indexBase
    parameters := parameters.values
    vars
    dataNames := d.data.map (·.name)
    terms := a.terms
    interactions := a.interactions
    components := a.components
    hamiltonians
    ensemble }

end

/-- Everything that is found on the way to the graph of a document. -/
def assemble (d : Document) (parameters : ResolvedParameters) (s : Surroundings) :
    Findings Graph := putTogether d parameters s

/-- What a document is built with. Without parameters their defaults count, and
without data the document's own. -/
structure BuildOptions where
  parameters : Option ResolvedParameters
  data : Option Lookup
  files : Files
  baseDir : Option String
  collect : Bool

namespace BuildOptions

def parametersFor (o : BuildOptions) (d : Document) : Except Failure ResolvedParameters :=
  match o.parameters with
  | some ps => .ok ps
  | none => Parameter.resolve d.parameters [] o.collect

def dataFor (o : BuildOptions) (d : Document) : Except Failure Lookup :=
  match o.data with
  | some data => .ok data
  | none => do .ok ((← d.store o.baseDir).lookup o.files)

def surroundings (o : BuildOptions) (d : Document) (parameters : ResolvedParameters)
    (data : Lookup) : Surroundings :=
  ⟨data, parameters.numeric, d.indexBase, o.files, o.baseDir⟩

end BuildOptions

/-- The graph of a document: it fails with the first mistake, or with all of them. -/
def build (d : Document) (o : BuildOptions) : Except Failure Graph := do
  let parameters ← o.parametersFor d
  let data ← o.dataFor d
  Findings.settle o.collect fun _ => putTogether d parameters (o.surroundings d parameters data)

end EnergyGraph.Graph
