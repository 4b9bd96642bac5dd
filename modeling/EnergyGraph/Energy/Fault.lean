-- What can go wrong while an energy is evaluated, and how it is told.
import EnergyGraph.Document.Basic
import EnergyGraph.Expr.Eval

namespace EnergyGraph.Energy

/-- The component and the term that are evaluated. -/
structure Site where
  component : String
  term : String
deriving DecidableEq, Inhabited

/-- What an expression did wrong: an operation outside of its domain, or a failed look-up. -/
structure Violation where
  code : String
  message : String
deriving DecidableEq, Inhabited

inductive Fault where
  | noValue (name : String)
  | notNumeric (name cause : String)
  | wrongShape (name : String) (expected actual : Shape)
  | outOfBounds (name : String) (position : List Nat) (value : Value)
  | notOfType (name : String) (type : VariableType) (position : List Nat) (value : Value)
  | unavailable (data : String)
  | badInstance (s : Site) (symbols : Symbols) (v : Violation)
  | noRegistry (s : Site) (function : String)
  | functionFailed (s : Site) (function : String) (symbols : Symbols) (cause : String)
  | notDeclaredCompatible (s : Site) (interaction : String)
  /-- The values of a component have no aggregate. -/
  | noAggregate (s : Site) (interaction : String) (reason : Diagnostic)
  | badWeight (path : List String) (source : String) (v : Violation)
deriving Inhabited

namespace Fault

def code : Fault → String
  | .noValue _ | .unavailable _ => "UnresolvedReference"
  | .notNumeric .. | .notOfType .. => "TypeMismatch"
  | .wrongShape .. => "ShapeMismatch"
  | .outOfBounds .. => "BoundsViolation"
  | .badInstance _ _ v | .badWeight _ _ v => v.code
  | .noRegistry .. | .functionFailed .. => "FunctionFailure"
  | .notDeclaredCompatible .. => "IncompatibleInteraction"
  | .noAggregate _ _ reason => reason.code

def message : Fault → String
  | .noValue name => s!"Assignment has no value for variable '{name}'."
  | .notNumeric name cause => s!"Value for variable '{name}' is not numeric: {cause}"
  | .wrongShape name expected actual =>
    s!"Variable '{name}' expects shape {expected.listed}, got {actual.listed}."
  | .outOfBounds name position value =>
    s!"Variable '{name}' at {Shape.listed position} = {value.shown} is outside its bounds."
  | .notOfType name type position value =>
    s!"Variable '{name}' is {type.name} but holds {value.shown} at {Shape.listed position}."
  | .unavailable data => s!"Data '{data}' is not available from the data provider."
  | .badInstance s symbols v =>
    s!"Component '{s.component}', term '{s.term}' at {symbols.shown}: {v.message}"
  | .noRegistry s function => s!"Component '{s.component}': no function registry for '{function}'."
  | .functionFailed s function _ cause =>
    s!"Component '{s.component}': function '{function}' failed: {cause}"
  | .notDeclaredCompatible s interaction =>
    s!"Term '{s.term}' cannot be used with low_rank interaction '{interaction}'."
  | .noAggregate s _ reason => s!"Component '{s.component}': {reason.message}"
  | .badWeight _ source v => s!"Weight '{source}': {v.message}"

def path : Fault → List String
  | .noValue name | .notNumeric name _ | .wrongShape name _ _ | .outOfBounds name _ _
  | .notOfType name _ _ _ => ["variables", name]
  | .unavailable data => ["data", data]
  | .badInstance s _ _ | .noRegistry s _ | .functionFailed s _ _ _ | .notDeclaredCompatible s _
  | .noAggregate s _ _ => ["components", s.component]
  | .badWeight path _ _ => path

/-- The ids of what is evaluated. -/
def ids (s : Site) : Object := [("component", .text s.component), ("term", .text s.term)]

def context : Fault → Object
  | .noValue name | .notNumeric name _ => [("variable", .text name)]
  | .wrongShape name expected actual =>
    [("variable", .text name), ("expected", expected.value), ("actual", actual.value)]
  | .outOfBounds name position value =>
    [("variable", .text name), ("index", Shape.value position), ("value", value)]
  | .notOfType name type position _ =>
    [("variable", .text name), ("index", Shape.value position), ("expected", .text type.name)]
  | .unavailable data => [("data", .text data)]
  | .badInstance s symbols _ => ids s ++ [("index", symbols.value)]
  | .noRegistry s function =>
    ids s ++ [("function", .text function), ("cause", .text "no registry")]
  | .functionFailed s function symbols cause =>
    ids s ++ [("function", .text function), ("index", symbols.value), ("cause", .text cause)]
  | .notDeclaredCompatible s interaction => ids s ++ [("interaction", .text interaction)]
  | .noAggregate s interaction reason =>
    reason.context.setAll (ids s ++ [("interaction", .text interaction)])
  | .badWeight _ source _ => [("weight", .text source)]

def diagnostic (f : Fault) : Diagnostic := evalError f.code f.message f.path f.context

end Fault

def fail {α : Type} (f : Fault) : Except Failure α := .error (.diagnostic f.diagnostic)

/-- The code of an operation outside of its domain. -/
def domainCode : String := "DomainError"

/-- A failed evaluation as a failure of what it was part of. -/
def failureOf {α : Type} [Scalar α] (tell : Violation → Fault) : EvalFailure α → Failure
  | .domain v => .diagnostic (tell ⟨domainCode, v.message⟩).diagnostic
  | .lookup v => .diagnostic (tell ⟨v.code, v.message⟩).diagnostic
  | .refusal kind => .refusal (.plain kind)

end EnergyGraph.Energy
