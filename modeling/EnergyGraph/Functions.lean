-- Functions that terms call by name. They are registered, or found by a locator:
-- the name of a module and that of one of its attributes.
import EnergyGraph.Document.Basic
import EnergyGraph.Energy.Evaluate

namespace EnergyGraph

/-- A function of numbers; what it gives back need not be a number. -/
abbrev Callable := List Float → Except Refusal Value

/-- What an attribute of a module is. -/
inductive Attribute where
  | callable (f : Callable)
  | other

/-- The attributes of modules, by name. -/
abbrev Modules := List (String × List (String × Attribute))

namespace Modules

def ofBinary (f : Float → Float → Float) : Attribute := .callable fun
  | [a, b] => .ok (.float (f a b))
  | _ => .error (.plain .badType)

def ofUnary (f : Float → Float) : Attribute := .callable fun
  | [a] => .ok (.float (f a))
  | _ => .error (.plain .badType)

/-- The modules that are always there. -/
def standard : Modules :=
  [("operator", [("add", ofBinary (· + ·)), ("mul", ofBinary (· * ·)), ("neg", ofUnary (- ·))]),
   ("math", [("hypot", .callable fun xs => .ok (.float (Decimal.norm xs))), ("pi", .other)])]

def notLocator (locator : String) : Refusal :=
  ⟨.badValue, some s!"Python locator '{locator}' must look like 'module:attribute'."⟩

def notCallable (locator : String) : Refusal :=
  ⟨.badType, some s!"Python locator '{locator}' does not name a callable."⟩

/-- The names before and after the first colon. -/
def split (locator : String) : String × String :=
  let cs := locator.toList
  (String.ofList (cs.takeWhile (· != ':')), String.ofList ((cs.dropWhile (· != ':')).drop 1))

/-- The function that a locator leads to. -/
def locate (ms : Modules) (locator : String) : Except Refusal Callable :=
  let (name, member) := split locator
  if name == "" || member == "" then .error (notLocator locator)
  else
    match ms.lookup name with
    | none => .error (.plain .unknownModule)
    | some attributes =>
      match attributes.lookup member with
      | none => .error (.plain .unknownAttribute)
      | some .other => .error (notCallable locator)
      | some (.callable f) => .ok f

end Modules

/-- Functions by name, each name once. -/
abbrev Functions := List (String × Callable)

namespace Functions

def contains (fs : Functions) (id : String) : Bool := (fs.lookup id).isSome

def register (fs : Functions) (id : String) (a : Attribute) : Except Refusal Functions :=
  match a with
  | .callable f => .ok (fs.filter (fun (n, _) => n != id) ++ [(id, f)])
  | .other => .error ⟨.badType, some s!"Function '{id}' must be callable."⟩

/-- The functions of some attributes, by name. -/
def ofAttributes (attributes : List (String × Attribute)) : Except Refusal Functions :=
  attributes.foldlM (fun fs (id, a) => register fs id a) []

/-- Calls the function of a name. -/
def invoke (fs : Functions) : Registry Float := fun id args =>
  match fs.lookup id with
  | none => .error ⟨.unknownName, some s!"Function '{id}' is not registered."⟩
  | some f => do Payload.number (← f args)

/-! ## Functions of a document -/

def notLoaded (f : FunctionDecl) (r : Refusal) : Diagnostic :=
  resolveError "BadSourceReference" s!"Cannot load function '{f.id}' from '{f.locator}': {r.text}"
    ["functions", f.id] [("function", .text f.id), ("locator", .text f.locator)]

/-- Adds the function of a declaration, unless it is there or lies outside of the modules. -/
def load (ms : Modules) (fs : Functions) (f : FunctionDecl) : Except Failure Functions :=
  if f.kind ≠ .module ∨ fs.contains f.id then .ok fs
  else
    (do fs.register f.id (.callable (← ms.locate f.locator))).mapError fun r =>
      .diagnostic (notLoaded f r)

/-- The functions that a document declares, beside some that are given. -/
def ofDocument (ms : Modules) (d : Document) (given : Functions) : Except Failure Functions :=
  d.functions.foldlM (load ms) given

end Functions

end EnergyGraph
