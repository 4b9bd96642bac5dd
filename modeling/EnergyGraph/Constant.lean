-- Numbers in documents that may be written as text: a literal, a word for an
-- infinity, the name of a parameter, or an expression of parameters.
import EnergyGraph.Expr.Eval
import EnergyGraph.Expr.Formula
import EnergyGraph.Text.LowerCase

namespace EnergyGraph.Constant

/-- What is wrong with a constant; `what` says which one it is. -/
inductive Fault where
  | truthValue (what : String) (given : Value)
  | notNumber (what : String) (given : Value)
  | unknownNames (what source : String) (names : List String)
  | noValue (what source cause : String)
  | notFinite (what : String) (x : Float)
  | notInteger (what : String) (x : Float)
deriving Inhabited

namespace Fault

def message : Fault → String
  | .truthValue what given => s!"{what} must be numeric, got {given.shown}."
  | .notNumber what given => s!"{what} must be a number or an expression, got {given.shown}."
  | .unknownNames what source names =>
    s!"{what} '{source}' references unknown parameter(s) {Text.quotedList names}."
  | .noValue what source cause => s!"{what} '{source}' cannot be evaluated: {cause}."
  | .notFinite what x => s!"{what} must be finite, got {numberText x}."
  | .notInteger what x => s!"{what} must be an integer, got {numberText x}."

def diagnostic (f : Fault) (path : List String) : Diagnostic :=
  match f with
  | .unknownNames _ source names =>
    resolveError "UnknownParameter" f.message path
      [("expression", .text source), ("names", .texts names)]
  | .notInteger _ x => validationError "InvalidField" f.message path [("value", .float x)]
  | _ => validationError "InvalidField" f.message path []

end Fault

def fail {α : Type} (f : Fault) (path : List String) : Except Failure α :=
  .error (.diagnostic (f.diagnostic path))

/-- The words for the infinities. -/
def infinity? (source : String) : Option Float :=
  let positive : Float := 1.0 / 0.0
  [("inf", positive), ("+inf", positive), ("-inf", -positive), ("infinity", positive),
   ("-infinity", -positive)].lookup (Text.lower (Text.trim source))

/-- The value of an expression that names nothing but parameters. -/
def ofText (source : String) (parameters : Numbers) (path : List String) (what : String) :
    Except Failure Float := do
  let formula ← (Formula.ofValue (.text source) (.count 0)).mapError (·.under path)
  let folded := (formula.substitute parameters []).body
  if !folded.isConstant then
    let missing := folded.names.filter fun n => !(parameters.lookup n).isSome
    fail (.unknownNames what source missing) path
  else
    match folded.evaluateScalar [] 0 with
    | .ok x => .ok x
    | .error (.domain v) => fail (.noValue what source v.message) path
    | .error (.lookup v) => fail (.noValue what source v.message) path
    | .error (.refusal kind) => Failure.refuse kind

/-- The number that a value of a document stands for. -/
def number (raw : Value) (parameters : Numbers) (path : List String) (what : String) :
    Except Failure Number :=
  match raw with
  | .bool _ => fail (.truthValue what raw) path
  | .int n => .ok (.int n)
  | .float x => .ok (.float x)
  | .text source =>
    match infinity? source with
    | some x => .ok (.float x)
    | none => do .ok (.float (← ofText source parameters path what))
  | _ => fail (.notNumber what raw) path

/-- The integer that a value of a document stands for; an integral double is one. -/
def integer (raw : Value) (parameters : Numbers) (path : List String) (what : String) :
    Except Failure Int := do
  match ← number raw parameters path what with
  | .int n => .ok n
  | .float x =>
    if !x.isFinite then fail (.notFinite what x) path
    else if !isIntegral x then fail (.notInteger what x) path
    else .ok (truncated x)

/-- The double that a value of a document stands for. -/
def double (raw : Value) (parameters : Numbers) (path : List String) (what : String) :
    Except Failure Float := do
  match ← number raw parameters path what with
  | .int n =>
    match Decimal.ofInt? n with
    | some x => .ok x
    | none => Failure.refuse .tooLarge
  | .float x => .ok x

end EnergyGraph.Constant
