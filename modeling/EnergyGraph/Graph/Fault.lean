-- What can keep a document from becoming a graph, and how it is told.
import EnergyGraph.Findings
import EnergyGraph.Graph.Basic

namespace EnergyGraph.Graph

inductive Fault where
  | negativeDimension (owner : String)
  | unknownBound (owner data : String)
  | wrongBoundShape (owner data : String) (expected actual : Shape)
  | unavailable (data : String)
  | wrongDataShape (data : String) (declared : List Int) (actual : Shape)
  | notIndexed (component name : String) (shape : Shape)
  | unknownName (component name : String)
  | unknownArray (component name : String)
  | weightWithSymbols (path : List String) (source : String) (symbols : List String)
  | unknownWeightName (path : List String) (source name : String)
  | wrongType (hamiltonian : String) (declared derived : HamiltonianType)
  | emptyEnsemble
  | unknownReference (path : List String) (kind id : String)
deriving Inhabited

namespace Fault

def code : Fault → String
  | .negativeDimension _ => "InvalidField"
  | .unknownBound .. | .unavailable _ => "BadSourceReference"
  | .wrongBoundShape .. | .wrongDataShape .. | .notIndexed .. => "ShapeMismatch"
  | .unknownName .. | .unknownArray .. | .unknownReference .. => "UnknownReference"
  | .weightWithSymbols .. | .unknownWeightName .. => "UnboundSymbol"
  | .wrongType .. => "TypeMismatch"
  | .emptyEnsemble => "EmptyEnsemble"

def path : Fault → List String
  | .negativeDimension v | .unknownBound v _ | .wrongBoundShape v _ _ _ => ["variables", v]
  | .unavailable d | .wrongDataShape d _ _ => ["data", d]
  | .notIndexed c _ _ | .unknownName c _ | .unknownArray c _ => ["components", c]
  | .weightWithSymbols p _ _ | .unknownWeightName p _ _ | .unknownReference p _ _ => p
  | .wrongType h _ _ => ["hamiltonians", h]
  | .emptyEnsemble => ["ensemble"]

def message : Fault → String
  | .negativeDimension v => s!"Variable '{v}' has a negative dimension."
  | .unknownBound _ data => s!"Bound references unknown data '{data}'."
  | .wrongBoundShape _ data expected actual =>
    s!"Bound data '{data}' has shape {actual.tuple}, variable shape is {expected.tuple}."
  | .unavailable data => s!"Data '{data}' is not available from the data provider."
  | .wrongDataShape data declared actual =>
    s!"Data '{data}' has shape {actual.listed}, declared {Text.bracketed (declared.map toString)}."
  | .notIndexed c name shape =>
    s!"Component '{c}': '{name}' has shape {shape.listed} and must be indexed."
  | .unknownName c name =>
    s!"Component '{c}': name '{name}' is not a parameter, variable, data or bound symbol."
  | .unknownArray c name =>
    s!"Component '{c}': indexed name '{name}' is not a variable or data array."
  | .weightWithSymbols _ source _ => s!"Weight '{source}' may not use index symbols."
  | .unknownWeightName _ source name => s!"Weight '{source}' references unknown name '{name}'."
  | .wrongType h declared derived =>
    let couples := if derived = .coupling then "non-empty" else "empty"
    s!"Hamiltonian '{h}' declares type '{declared.name}' but is a {derived.name} ({couples} couples)."
  | .emptyEnsemble => "The ensemble needs at least one hamiltonian."
  | .unknownReference _ kind id => s!"Unknown {kind} reference '{id}'."

def context : Fault → Object
  | .unknownBound _ data | .unavailable data => [("data", .text data)]
  | .wrongBoundShape _ _ expected actual =>
    [("expected", expected.value), ("actual", actual.value)]
  | .wrongDataShape data declared actual =>
    [("data", .text data), ("expected", .ints declared), ("actual", actual.value)]
  | .notIndexed c name shape =>
    [("component", .text c), ("array", .text name), ("shape", shape.value)]
  | .unknownName c name => [("kind", .text "name"), ("id", .text name), ("component", .text c)]
  | .unknownArray c name => [("kind", .text "array"), ("id", .text name), ("component", .text c)]
  | .weightWithSymbols _ _ symbols => [("symbols", .texts symbols)]
  | .unknownWeightName _ _ name => [("name", .text name)]
  | .wrongType h declared derived =>
    [("hamiltonian", .text h), ("expected", .text derived.name), ("actual", .text declared.name)]
  | .unknownReference _ kind id => [("kind", .text kind), ("id", .text id)]
  | _ => []

/-- Data that cannot be had is a fault of resolution; the others are of the document. -/
def diagnostic (f : Fault) : Diagnostic :=
  let tell := match f with
    | .unknownBound .. | .unavailable _ => resolveError
    | _ => validationError
  tell f.code f.message f.path f.context

end Fault

def fail {α : Type} (f : Fault) : Except Failure α := .error (.diagnostic f.diagnostic)

def report {m : Type → Type} [Reports m] (f : Fault) : m Unit := Reports.report f.diagnostic

end EnergyGraph.Graph
