-- Energy documents: declarations of parameters, variables, data and functions;
-- of terms over the tuples of an interaction; of components, which aggregate a
-- term; and of hamiltonians and the ensemble, which weigh what lies below them.
import EnergyGraph.Aggregator.Basic
import EnergyGraph.Data.Store
import EnergyGraph.Expr.Formula

namespace EnergyGraph

/-! ## Names, sizes and bounds -/

/-- The kinds of values that a parameter can hold. No value is of an unknown kind. -/
inductive ParameterType where
  | int
  | float
  | text
  | bool
  | unknown (name : String)
deriving DecidableEq, Inhabited

namespace ParameterType

def name : ParameterType → String
  | .int => "int"
  | .float => "float"
  | .text => "string"
  | .bool => "bool"
  | .unknown name => name

def names : List String := ["int", "float", "string", "bool"]

def ofName : String → ParameterType
  | "int" => .int
  | "float" => .float
  | "string" => .text
  | "bool" => .bool
  | name => .unknown name

/-- The kind of a default without a declared kind. -/
def ofValue : Value → ParameterType
  | .bool _ => .bool
  | .int _ => .int
  | .text _ => .text
  | _ => .float

end ParameterType

structure Parameter where
  name : String
  type : ParameterType
  default : Value
  required : Bool
  bounds : Option (Value × Value)
  description : String
deriving Inhabited

inductive VariableType where
  | continuous
  | binary
  | integer
deriving DecidableEq, Repr, Inhabited

namespace VariableType

def name : VariableType → String
  | .continuous => "continuous"
  | .binary => "binary"
  | .integer => "integer"

def all : List VariableType := [.continuous, .binary, .integer]

def names : List String := all.map name

def ofName? (s : String) : Option VariableType := all.find? fun t => t.name == s

end VariableType

/-- The length of an axis, as a number or as a text that parameters give a value to. -/
inductive Dim where
  | size (n : Int)
  | formula (text : String)
deriving DecidableEq, Inhabited

def Dim.value : Dim → Value
  | .size n => .int n
  | .formula s => .text s

structure Variable where
  name : String
  type : VariableType
  shape : List Dim
  lower : Value
  upper : Value
deriving Inhabited

structure DataDecl where
  name : String
  source : Option String
  values : Value
  shape : Option (List Dim)
deriving Inhabited

inductive FunctionKind where
  /-- Found by a locator of a module and an attribute. -/
  | module
  | wasm
  | sharedLib
  | http
deriving DecidableEq, Repr, Inhabited

namespace FunctionKind

def name : FunctionKind → String
  | .module => "python"
  | .wasm => "wasm"
  | .sharedLib => "shared_lib"
  | .http => "http"

def all : List FunctionKind := [.module, .wasm, .sharedLib, .http]

def names : List String := all.map name

def ofName? (s : String) : Option FunctionKind := all.find? fun k => k.name == s

end FunctionKind

structure FunctionDecl where
  id : String
  kind : FunctionKind
  locator : String
deriving Inhabited

/-! ## Terms and interactions -/

inductive TermKind where
  | constant
  | analytic
  | functional
deriving DecidableEq, Repr, Inhabited

namespace TermKind

def name : TermKind → String
  | .constant => "constant"
  | .analytic => "analytic"
  | .functional => "functional"

def all : List TermKind := [.constant, .analytic, .functional]

def names : List String := all.map name

def ofName? (s : String) : Option TermKind := all.find? fun k => k.name == s

end TermKind

structure TermDecl where
  id : String
  kind : TermKind
  arity : Arity
  expr : Option Formula
  function : Option String
  args : List Formula
  /-- The kinds of interaction that the term says it can be used with. -/
  compat : List String
  inline : Bool
deriving Inhabited

/-- The formulas that a term is made of. -/
def TermDecl.formulas (t : TermDecl) : List Formula :=
  if t.kind = .functional then t.args else t.expr.toList

inductive InteractionKind where
  | none
  | allIndices
  | sparse
  | groups
  | laplacian
  | lowRank
deriving DecidableEq, Repr, Inhabited

namespace InteractionKind

def name : InteractionKind → String
  | .none => "none"
  | .allIndices => "all_indices"
  | .sparse => "sparse"
  | .groups => "groups"
  | .laplacian => "laplacian"
  | .lowRank => "low_rank"

def all : List InteractionKind := [.none, .allIndices, .sparse, .groups, .laplacian, .lowRank]

def names : List String := all.map name

def ofName? (s : String) : Option InteractionKind := all.find? fun k => k.name == s

end InteractionKind

structure InteractionDecl where
  id : String
  kind : InteractionKind
  bind : Option (List String)
  /-- The fields that only this kind of interaction reads. -/
  spec : Object
  inline : Bool
deriving Inhabited

/-- A declaration, or the id of one that stands elsewhere. -/
inductive Reference (α : Type) where
  | named (id : String)
  | inline (decl : α)
deriving Inhabited

structure ComponentDecl where
  id : String
  term : Reference TermDecl
  interaction : Reference InteractionDecl
  aggregator : Option (Aggregator Float)
deriving Inhabited

namespace ComponentDecl

def termId (c : ComponentDecl) : String :=
  match c.term with
  | .named id => id
  | .inline t => t.id

def interactionId (c : ComponentDecl) : String :=
  match c.interaction with
  | .named id => id
  | .inline i => i.id

end ComponentDecl

/-! ## Hamiltonians and the ensemble -/

/-- Something that is used with a weight. -/
structure WeightedUse where
  use : String
  weight : Formula
deriving Inhabited

inductive HamiltonianType where
  | subsystem
  | coupling
deriving DecidableEq, Repr, Inhabited

namespace HamiltonianType

def name : HamiltonianType → String
  | .subsystem => "subsystem"
  | .coupling => "coupling"

def all : List HamiltonianType := [.subsystem, .coupling]

def names : List String := all.map name

def ofName? (s : String) : Option HamiltonianType := all.find? fun t => t.name == s

end HamiltonianType

structure HamiltonianDecl where
  id : String
  components : List WeightedUse
  couples : List String
  type : Option HamiltonianType
deriving Inhabited

/-- A hamiltonian that couples others is a coupling. -/
def HamiltonianDecl.derivedType (h : HamiltonianDecl) : HamiltonianType :=
  if h.couples.isEmpty then .subsystem else .coupling

/-! ## Documents -/

structure Document where
  version : String
  name : String
  indexBase : Int
  exprLang : String
  parameters : List Parameter
  vars : List Variable
  data : List DataDecl
  functions : List FunctionDecl
  interactions : List InteractionDecl
  terms : List TermDecl
  components : List ComponentDecl
  hamiltonians : List HamiltonianDecl
  ensemble : List WeightedUse
deriving Inhabited

/-- The language of the expressions in a document. -/
def exprLanguage : String := "febo_expr_v1"

namespace Document

def term? (d : Document) (id : String) : Option TermDecl := d.terms.find? fun t => t.id == id

def interaction? (d : Document) (id : String) : Option InteractionDecl :=
  d.interactions.find? fun i => i.id == id

/-- The data declarations as sources of a store. -/
def dataSources (d : Document) : List DataSource := d.data.map fun x => ⟨x.name, x.source, x.values⟩

/-- The store of the document's own data. -/
def store (d : Document) (baseDir : Option String) : Except Failure Store :=
  Store.ofDeclarations d.dataSources baseDir .standard

end Document

end EnergyGraph
