-- The mistakes that the structure of a document can have, and how they are told.
import EnergyGraph.Document.Basic
import EnergyGraph.Text.Identifier

namespace EnergyGraph.Document

inductive Fault where
  | missingField (name : String)
  | noPayload
  | notDocument
  | unknownSection (name : String)
  | badVersion (version : Value)
  | badName (name : Value)
  | badEntry
  | notCollection (part : String)
  | duplicateId (id part : String)
  | declaredTwice (id first second : String)
  | badBounds (given : Value)
  | notIdentifier (what name : String)
  /-- A word that is none of those expected. -/
  | unknownWord (what : String) (given : Value) (expected : List String)
  | badShape (given : Value)
  | notMapping (what : String)
  | badBind (given : Value)
  | repeatedBind (given : Value)
  | badArity (given : Value)
  | argsNotList
  | badAggregator (given : Value)
  | badAggregatorParameters (cause : String) (given : Value)
  | badUse
  | componentsNotList
  | ensembleNotList
  | badConventions
  | badIndexBase (given : Value)
  | unknownLanguage (name : String)
deriving Inhabited

/-- The parts of a document, in the order in which they are listed. -/
def sections : List String :=
  ["version", "name", "conventions", "parameters", "variables", "data", "functions",
   "interactions", "terms", "components", "hamiltonians", "ensemble"]

namespace Fault

def code : Fault → String
  | .missingField _ | .noPayload => "MissingField"
  | .duplicateId .. | .declaredTwice .. => "DuplicateId"
  | _ => "InvalidField"

def message : Fault → String
  | .missingField name => s!"Required field '{name}' is missing."
  | .noPayload => "Data declaration needs 'source' or 'values'."
  | .notDocument => "Document must be a mapping."
  | .unknownSection name => s!"Unknown top-level key '{name}'."
  | .badVersion version => s!"version '{version.plain}' is not a semantic version."
  | .badName name => s!"name '{name.plain}' must match {Text.documentNameForm}."
  | .badEntry => "List entries must be mappings with an 'id' or 'name'."
  | .notCollection part => s!"'{part}' must be a mapping or a list."
  | .duplicateId id part => s!"Duplicate id '{id}' in '{part}'."
  | .declaredTwice id first second => s!"Name '{id}' is declared in both '{first}' and '{second}'."
  | .badBounds _ => "bounds must be a two-element list [lower, upper]."
  | .notIdentifier what name => s!"{what} name '{name}' is not an identifier."
  | .unknownWord what given _ => s!"Unknown {what} '{given.plain}'."
  | .badShape _ => "shape must be a list of integers or parameter names."
  | .notMapping what => s!"{what} declaration must be a mapping."
  | .badBind _ => "bind must be a symbol or a list of symbols."
  | .repeatedBind _ => "bind symbols must be distinct."
  | .badArity _ => "arity must be a non-negative integer or a symbolic name."
  | .argsNotList => "args must be a list of expressions."
  | .badAggregator _ => "aggregator must be a name or a mapping with 'kind'."
  | .badAggregatorParameters cause _ => cause
  | .badUse => "Entry must be an id or a mapping with 'use'."
  | .componentsNotList => "components must be a list."
  | .ensembleNotList => "ensemble must be a list of hamiltonian uses."
  | .badConventions => "conventions must be a mapping."
  | .badIndexBase _ => "index_base must be 0 or 1."
  | .unknownLanguage name => s!"Unsupported expression language '{name}'."

def context : Fault → Object
  | .missingField name => [("field", .text name)]
  | .unknownSection _ => [("expected", .texts sections)]
  | .duplicateId id _ => [("id", .text id)]
  | .declaredTwice id first second =>
    [("id", .text id), ("first", .text first), ("second", .text second)]
  | .unknownWord _ given expected => [("expected", .texts expected), ("actual", given)]
  | .badBounds given | .badShape given | .badBind given | .repeatedBind given | .badArity given
  | .badAggregator given | .badAggregatorParameters _ given | .badIndexBase given =>
    [("value", given)]
  | .unknownLanguage _ => [("expected", .text exprLanguage)]
  | _ => []

def diagnostic (f : Fault) (path : List String) : Diagnostic :=
  validationError f.code f.message path f.context

end Fault

end EnergyGraph.Document
