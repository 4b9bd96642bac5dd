-- Documents read from decoded values. Every mistake is reported with its path,
-- and reading goes on with the next entry.
import EnergyGraph.Document.Fault
import EnergyGraph.Findings

namespace EnergyGraph.Document

variable {m : Type → Type} [Monad m] [Reports m]

omit [Monad m] in
def report (f : Fault) (path : List String) : m Unit := Reports.report (f.diagnostic path)

/-! ## Members -/

def member? (o : Object) (name : String) : Option Value := o.get? name

def hasMember (o : Object) (name : String) : Bool := (member? o name).isSome

/-- The member of that name, or nothing at all. -/
def member (o : Object) (name : String) : Value := (member? o name).getD .null

/-- The member of the first name, if it is there, else that of the second. -/
def memberOr (o : Object) (name other : String) : Value := (member? o name).getD (member o other)

/-! ## Entries of a section -/

/-- The key of an entry in a list: its `id`, or its `name` where it has no `id`. -/
def entryKey? (o : Object) : Option Value :=
  let key := (member? o "id").getD ((member? o "name").getD .null)
  if key.isNull then none else some key

/-- Keys and bodies of a collection that is a mapping or a list of mappings. -/
def listEntries (part : String) : Nat → List Value → m Object
  | _, [] => pure []
  | place, item :: rest => do
    let path := [part, toString place]
    match item with
    | .object o =>
      match entryKey? o with
      | some key => do
        let others ← listEntries part (place + 1) rest
        pure ((key.plain, item) :: others)
      | none => do
        report (.missingField "id") path
        listEntries part (place + 1) rest
    | _ => do
      report .badEntry path
      listEntries part (place + 1) rest

/-- Drops entries whose key has occurred before. -/
def distinctEntries (part : String) (seen : List String) : Object → m Object
  | [] => pure []
  | (key, body) :: rest =>
    if key ∈ seen then do
      report (.duplicateId key part) [part, key]
      distinctEntries part seen rest
    else do
      let others ← distinctEntries part (key :: seen) rest
      pure ((key, body) :: others)

def entries (raw : Value) (part : String) : m Object :=
  match raw with
  | .null => pure []
  | .object members => distinctEntries part [] members
  | .list items => do distinctEntries part [] (← listEntries part 0 items)
  | _ => do
    report (.notCollection part) [part]
    pure []

/-- Reads each entry of a section; entries with mistakes leave nothing. -/
def readSection {α : Type} (raw : Value) (part : String)
    (read : String → Value → List String → m (Option α)) : m (List α) := do
  let found ← entries raw part
  found.filterMapM fun (key, body) => read key body [part, key]

/-- A word out of a fixed set. -/
def readWord {α : Type} (what : String) (expected : List String) (ofName? : String → Option α)
    (given : Value) (path : List String) : m (Option α) :=
  let known? := match given with
    | .text s => ofName? s
    | _ => none
  match known? with
  | some a => pure (some a)
  | none => do
    report (.unknownWord what given expected) path
    pure none

/-- The formula of a value; a mistake in it is reported under the path. -/
def readFormula (v : Value) (arity : Arity) (path : List String) : m (Option Formula) :=
  Findings.attempt ((Formula.ofValue v arity).mapError (·.under path))

/-! ## Parameters, variables, data and functions -/

def readBounds (raw : Value) (path : List String) : m (Option (Value × Value)) :=
  match raw with
  | .null => pure none
  | .list [lower, upper] => pure (some (lower, upper))
  | _ => do
    report (.badBounds raw) path
    pure none

def readParameter (name : String) (body : Value) (path : List String) :
    m (Option Parameter) := do
  if !Text.isIdentifier name then
    report (.notIdentifier "Parameter" name) path
    return none
  match body with
  | .object o =>
    let default? := member? o "default"
    let type : ParameterType :=
      match member? o "type" with
      | some v => .ofName v.plain
      | none =>
        match default? with
        | some v => .ofValue v
        | none => .float
    if let .unknown given := type then
      report (.unknownWord "parameter type" (.text given) ParameterType.names) path
      return none
    let bounds ← readBounds (member o "bounds") path
    let description := match member? o "description" with
      | some v => v.plain
      | none => ""
    return some ⟨name, type, default?.getD .null, default?.isNone, bounds, description⟩
  | _ => return some ⟨name, .ofValue body, body, false, none, ""⟩

def dim? : Value → Option Dim
  | .int n => some (.size n)
  | .text s => some (.formula s)
  | _ => none

/-- A shape is one length, or a list of lengths; nothing is the shape of a single number. -/
def readShape (raw : Value) (path : List String) : m (Option (List Dim)) :=
  let shape? : Option (List Dim) :=
    match raw with
    | .null => some []
    | .list items => items.mapM dim?
    | v => (dim? v).map fun d => [d]
  match shape? with
  | some shape => pure (some shape)
  | none => do
    report (.badShape raw) path
    pure none

def readVariable (name : String) (body : Value) (path : List String) :
    m (Option Variable) := do
  if !Text.isIdentifier name then
    report (.notIdentifier "Variable" name) path
    return none
  let o : Object := match body with
    | .object o => o
    | _ => [("shape", body)]
  let given : Value := .text ((member? o "type").getD (.text "continuous")).plain
  let some type ← readWord "variable type" VariableType.names VariableType.ofName? given path
    | return none
  let some shape ← readShape (member o "shape") path | return none
  let bounds ← readBounds (member o "bounds") path
  let (lower, upper) := match bounds with
    | some pair => pair
    | none => if type = .binary then (.int 0, .int 1) else (.null, .null)
  return some ⟨name, type, shape, lower, upper⟩

def readData (name : String) (body : Value) (path : List String) : m (Option DataDecl) := do
  match body with
  | .text source => return some ⟨name, some source, .null, none⟩
  | .object o =>
    if !hasMember o "source" && !hasMember o "values" then
      report .noPayload path
      return none
    let shape ← match member? o "shape" with
      | some raw => readShape raw path
      | none => pure none
    let source := match member o "source" with
      | .null => none
      | v => some v.plain
    return some ⟨name, source, member o "values", shape⟩
  | v => return some ⟨name, none, v, none⟩

def readFunction (id : String) (body : Value) (path : List String) :
    m (Option FunctionDecl) := do
  let .object o := body
    | report (.notMapping "Function") path; return none
  let given := member o "kind"
  if given.isNull then
    report (.missingField "kind") path
    return none
  let some kind ← readWord "function kind" FunctionKind.names FunctionKind.ofName? given path
    | return none
  let locator := ["locator", "entry", "url", "path"].findSome? (member? o)
  return some ⟨id, kind, (locator.getD (.text "")).plain⟩

/-- The sections in which a name may stand only once, all of them together. -/
def checkNamespaces (named : List (String × List String)) : m Unit := do
  let all := named.flatMap fun (part, names) => names.map fun n => (n, part)
  let _ ← all.foldlM (fun (owners : List (String × String)) (name, part) => do
    match owners.lookup name with
    | some first => do
      report (.declaredTwice name first part) [part, name]
      pure owners
    | none => pure (owners ++ [(name, part)])) []

/-! ## Interactions and terms -/

def symbol? : Value → Option String
  | .text s => if Text.isIdentifier s then some s else none
  | _ => none

def readBind (raw : Value) (path : List String) : m (Option (List String)) := do
  let items? : Option (List Value) := match raw with
    | .text _ => some [raw]
    | .list items => some items
    | _ => none
  if raw.isNull then return none
  match items?.bind (·.mapM symbol?) with
  | none =>
    report (.badBind raw) path
    return none
  | some symbols =>
    if symbols.Nodup then return some symbols
    else
      report (.repeatedBind (.texts symbols)) path
      return none

/-- Fields that every interaction has; the others are its own. -/
def commonInteractionFields : List String := ["id", "name", "type", "kind", "bind"]

def readInteraction (id : String) (body : Value) (path : List String) (inline : Bool) :
    m (Option InteractionDecl) := do
  let .object o := body
    | report (.notMapping "Interaction") path; return none
  let given := memberOr o "type" "kind"
  if given.isNull then
    report (.missingField "type") path
    return none
  let some kind ← readWord "interaction type" InteractionKind.names InteractionKind.ofName? given path
    | return none
  let bind ← readBind (member o "bind") path
  let spec := o.filter fun (name, _) => !commonInteractionFields.contains name
  return some ⟨id, kind, bind, spec, inline⟩

def readArity (raw : Value) (path : List String) : m (Option Arity) :=
  match raw with
  | .null => pure (some .unspecified)
  | .text s => pure (some (.named s))
  | .int n =>
    if 0 ≤ n then pure (some (.count n))
    else do
      report (.badArity raw) path
      pure none
  | _ => do
    report (.badArity raw) path
    pure none

/-- The items that a value is made of, as texts; a text is one item. -/
def readTexts (raw : Value) : m (List String) :=
  match raw with
  | .text s => pure [s]
  | .list items => pure (items.map Value.plain)
  | .object members => pure (members.map (·.1))
  | _ => Reports.refuse (.plain .badType)

/-- Formulas of the arguments of a functional term, up to the first mistake. -/
def readArgs (arity : Arity) (path : List String) : Nat → List Value →
    m (Option (List Formula))
  | _, [] => pure (some [])
  | place, v :: rest => do
    let some f ← readFormula v arity (path ++ ["args", toString place]) | return none
    let some others ← readArgs arity path (place + 1) rest | return none
    return some (f :: others)

/-- The kind of a term that names none. -/
def impliedKind (o : Object) : String :=
  if hasMember o "function" then "functional"
  else if hasMember o "value" then "constant"
  else "analytic"

def readTerm (id : String) (body : Value) (path : List String) (inline : Bool) :
    m (Option TermDecl) := do
  let body : Value := match body with
    | .int _ | .float _ => .object [("kind", .text "constant"), ("value", body)]
    | .text _ => .object [("kind", .text "analytic"), ("expr", body)]
    | v => v
  let .object o := body
    | report (.notMapping "Term") path; return none
  let given := match member o "kind" with
    | .null => .text (impliedKind o)
    | v => v
  let some kind ← readWord "term kind" TermKind.names TermKind.ofName? given path
    | return none
  let some arity ← readArity (member o "arity") path | return none
  let compat ← readTexts ((member? o "compat").getD (.list []))
  match kind with
  | .constant =>
    let some value := member? o "value"
      | report (.missingField "value") path; return none
    let some f ← readFormula value (.count 0) (path ++ ["value"]) | return none
    let arity := if arity = .unspecified then .count 0 else arity
    return some ⟨id, kind, arity, some f, none, [], compat, inline⟩
  | .analytic =>
    let text := memberOr o "expr" "expression"
    if text.isNull then
      report (.missingField "expr") path
      return none
    let some f ← readFormula text arity (path ++ ["expr"]) | return none
    return some ⟨id, kind, arity, some f, none, [], compat, inline⟩
  | .functional =>
    let function := member o "function"
    if function.isNull then
      report (.missingField "function") path
      return none
    let .list items := (member? o "args").getD (.list [])
      | report .argsNotList path; return none
    let some args ← readArgs arity path 0 items | return none
    return some ⟨id, kind, arity, none, some function.plain, args, compat, inline⟩

/-! ## Components -/

/-- The aggregator of this kind with the parameters of a mapping. -/
def aggregatorOf (kind : Aggregator.Kind) (o : Object) : Except Refusal (Aggregator Float) := do
  let beta ← Payload.number ((member? o "beta").getD (.float 1.0))
  let alpha ← Payload.number ((member? o "alpha").getD (.float 0.95))
  (Aggregator.check ⟨kind, beta, alpha⟩).mapError fun f => ⟨.badValue, some f.message⟩

/-- The aggregator of a mapping. -/
def readAggregatorOf (o : Object) (path : List String) : m (Option (Aggregator Float)) := do
  let given := memberOr o "kind" "type"
  let some kind ← readWord "aggregator" Aggregator.Kind.names Aggregator.Kind.ofName? given path
    | return none
  match aggregatorOf kind o with
  | .ok a => return some a
  | .error r =>
    if r.kind = .badType ∨ r.kind = .badValue then
      report (.badAggregatorParameters r.text (.object o)) path
      return none
    else Reports.refuse r

def readAggregator (raw : Value) (path : List String) : m (Option (Aggregator Float)) :=
  match raw with
  | .text _ => readAggregatorOf [("kind", raw)] path
  | .object o => readAggregatorOf o path
  | _ => do
    report (.badAggregator raw) path
    pure none

/-- A reference by id, or a declaration in place whose id is made from the owner's. -/
def readReference {α : Type} (raw : Value) (owner role : String) (path : List String)
    (read : String → Value → List String → Bool → m (Option α)) :
    m (Option (Reference α)) :=
  match raw with
  | .object _ => do
    let decl ← read (owner ++ "." ++ role) raw (path ++ [role]) true
    pure (decl.map .inline)
  | v => pure (some (.named v.plain))

def readComponent (id : String) (body : Value) (path : List String) :
    m (Option ComponentDecl) := do
  let .object o := body
    | report (.notMapping "Component") path; return none
  let some termRaw := member? o "term"
    | report (.missingField "term") path; return none
  let some term ← readReference termRaw id "term" path readTerm | return none
  let interactionRaw := match member o "interaction" with
    | .null => .text "none"
    | v => v
  let some interaction ← readReference interactionRaw id "interaction" path readInteraction
    | return none
  match memberOr o "agg" "aggregator" with
  | .null => return some ⟨id, term, interaction, none⟩
  | raw =>
    let some a ← readAggregator raw (path ++ ["aggregator"]) | return none
    return some ⟨id, term, interaction, some a⟩

/-! ## Hamiltonians and the ensemble -/

/-- An id alone has the weight one. -/
def readUse (item : Value) (key : String) (path : List String) : m (Option WeightedUse) := do
  match item with
  | .text use => return some ⟨use, .ofNumber (.int 1) .unspecified⟩
  | .object o =>
    let some use := member? o "use"
      | report (.missingField "use") path; return none
    let weight := (member? o key).getD (.int 1)
    let some f ← readFormula weight (.count 0) (path ++ [key]) | return none
    return some ⟨use.plain, f⟩
  | _ =>
    report .badUse path
    return none

/-- The uses of a list, each of them with its place in the path. -/
def readUses (key : String) (path : List String) : Nat → List Value →
    m (List (Option WeightedUse))
  | _, [] => pure []
  | place, item :: rest => do
    let use ← readUse item key (path ++ [toString place])
    let others ← readUses key path (place + 1) rest
    pure (use :: others)

/-- The ids that are coupled; what counts as nothing couples none. -/
def readCouples (raw : Value) : m (List String) := if raw.truthy then readTexts raw else pure []

def readHamiltonian (id : String) (body : Value) (path : List String) :
    m (Option HamiltonianDecl) := do
  let .object o := body
    | report (.notMapping "Hamiltonian") path; return none
  let items := member o "components"
  if items.isNull then
    report (.missingField "components") path
    return none
  let .list items := items
    | report .componentsNotList path; return none
  let uses ← readUses "alpha" (path ++ ["components"]) 0 items
  let some components := uses.mapM fun use => use | return none
  let couples ← readCouples (member o "couples")
  match member o "type" with
  | .null => return some ⟨id, components, couples, none⟩
  | given =>
    let some type ← readWord "hamiltonian type" HamiltonianType.names HamiltonianType.ofName? given path
      | return none
    return some ⟨id, components, couples, some type⟩

def readEnsemble (raw : Value) : m (List WeightedUse) := do
  if raw.isNull then return []
  let listed := match raw with
    | .object o => memberOr o "hamiltonians" "members"
    | v => v
  let .list items := listed
    | report .ensembleNotList ["ensemble"]; return []
  let uses ← readUses "weight" ["ensemble"] 0 items
  return uses.filterMap fun use => use

/-! ## Documents -/

/-- The number from which indices count: zero or one, written as a number. -/
def indexBase? : Value → Option Int
  | .int n => if n = 0 ∨ n = 1 then some n else none
  | .float x => if x == 0.0 then some 0 else if x == 1.0 then some 1 else none
  | _ => none

def readIndexBase (given : Value) : m Int :=
  match indexBase? given with
  | some base => pure base
  | none => do
    report (.badIndexBase given) ["conventions", "index_base"]
    pure 0

def checkLanguage (language : String) : m Unit :=
  if language != exprLanguage then report (.unknownLanguage language) ["conventions", "expr_lang"]
  else pure ()

/-- The index base and the language of the expressions. -/
def readConventions (raw : Value) : m (Int × String) := do
  match raw with
  | .null => return (0, exprLanguage)
  | .object o =>
    let base ← readIndexBase ((member? o "index_base").getD (.int 0))
    let language := ((member? o "expr_lang").getD (.text exprLanguage)).plain
    checkLanguage language
    return (base, language)
  | _ =>
    report .badConventions ["conventions"]
    return (0, exprLanguage)

def checkVersion (version : Value) : m Unit :=
  match version with
  | .null => report (.missingField "version") []
  | version =>
    if !Text.isSemanticVersion version.plain then report (.badVersion version) ["version"]
    else pure ()

def checkName (name : Value) : m Unit :=
  match name with
  | .null => report (.missingField "name") []
  | .text s => if !Text.isDocumentName s then report (.badName (.text s)) ["name"] else pure ()
  | name => report (.badName name) ["name"]

def checkHeader (o : Object) : m Unit := do
  for (key, _) in o do
    if !sections.contains key then report (.unknownSection key) [key]
  checkVersion (member o "version")
  checkName (member o "name")

/-- Everything that is found in a decoded document. -/
def check (v : Value) : m Document := do
  match v with
  | .object o =>
    checkHeader o
    let (indexBase, exprLang) ← readConventions (member o "conventions")
    let parameters ← readSection (member o "parameters") "parameters" readParameter
    let vars ← readSection (member o "variables") "variables" readVariable
    let data ← readSection (member o "data") "data" readData
    let functions ← readSection (member o "functions") "functions" readFunction
    checkNamespaces
      [("parameters", parameters.map (·.name)), ("variables", vars.map (·.name)),
       ("data", data.map (·.name)), ("functions", functions.map (·.id))]
    let interactions ← readSection (member o "interactions") "interactions"
      fun id body path => readInteraction id body path false
    let terms ← readSection (member o "terms") "terms"
      fun id body path => readTerm id body path false
    let components ← readSection (member o "components") "components" readComponent
    let hamiltonians ← readSection (member o "hamiltonians") "hamiltonians" readHamiltonian
    let ensemble ← readEnsemble (member o "ensemble")
    return {
      version := (member o "version").plain
      name := (member o "name").plain
      indexBase, exprLang, parameters, vars, data, functions, interactions, terms
      components, hamiltonians, ensemble }
  | _ =>
    report .notDocument []
    return default

/-- The document of a decoded value: it fails with the first mistake, or with all of them. -/
def parse (v : Value) (collect : Bool) : Except Failure Document :=
  Findings.settle collect fun _ => check v

end EnergyGraph.Document
