-- Whether a term, an interaction and an aggregator make a component. Every symbol
-- of the term has to be bound, and every bound symbol has to be used.
import EnergyGraph.Component.Usage
import EnergyGraph.Interaction.Basic

namespace EnergyGraph

/-- The symbols of a component by their role, and its aggregator. -/
structure Binding where
  /-- Symbols that take one value for each instance of the term. -/
  free : List String
  /-- Symbols that reductions inside of the term run over. -/
  reductions : List String
  aggregator : Aggregator Float
deriving Inhabited

namespace Binding

/-- Why a term does not go with an interaction. -/
inductive Fault where
  | unboundIndex (symbol : String) (bound : List String)
  | unboundReduction (symbol : String)
  | notReducible (symbol : String) (kind : InteractionKind)
  | freeAndReduced (symbol : String)
  | unused (symbols bound used : List String)
  /-- The members of a group are there for reductions only. -/
  | freeMember (symbol : String)
  | wrongArity (declared : Int) (used : Nat)
  | notDeclaredCompatible
  | notSummed (kind : Aggregator.Kind)
  | noAggregator (kind : InteractionKind)
deriving Inhabited

/-- The ids of what is bound together. -/
structure Site where
  component : String
  term : String
  interaction : String
deriving Inhabited

namespace Fault

def code : Fault → String
  | .unboundIndex .. | .unboundReduction _ | .unused .. => "UnboundSymbol"
  | .notReducible .. | .freeAndReduced _ | .freeMember _ => "InvalidReduction"
  | .wrongArity .. => "ArityMismatch"
  | .notDeclaredCompatible => "IncompatibleInteraction"
  | .notSummed _ => "InvalidField"
  | .noAggregator _ => "MissingAggregator"

def message (s : Site) : Fault → String
  | .unboundIndex symbol bound =>
    s!"index symbol '{symbol}' of term '{s.term}' is not bound by interaction '{s.interaction}' {Text.quotedList bound}."
  | .unboundReduction symbol =>
    s!"reduction symbol '{symbol}' of term '{s.term}' is not bound by interaction '{s.interaction}'."
  | .notReducible symbol kind =>
    s!"cannot reduce over '{symbol}': it is bound by a {kind.name} interaction."
  | .freeAndReduced symbol =>
    s!"symbol '{symbol}' is used both as a free index and as a reduction target."
  | .unused symbols _ _ =>
    s!"interaction '{s.interaction}' binds {Text.quotedList symbols} which term '{s.term}' never uses."
  | .freeMember symbol => s!"groups member symbol '{symbol}' may only appear inside a reduction."
  | .wrongArity declared used =>
    s!"term '{s.term}' declares arity {declared} but binds {used} symbol(s)."
  | .notDeclaredCompatible => s!"term '{s.term}' does not declare compat [low_rank]."
  | .notSummed kind => s!"low_rank components aggregate with 'sum', not '{kind.name}'."
  | .noAggregator kind =>
    s!"an aggregator is required over {kind.name} interaction '{s.interaction}'."

def details : Fault → Object
  | .unboundIndex symbol _ | .unboundReduction symbol | .freeAndReduced symbol
  | .freeMember symbol => [("symbol", .text symbol)]
  | .notReducible symbol kind => [("symbol", .text symbol), ("kind", .text kind.name)]
  | .unused _ bound used => [("expected", .texts bound), ("actual", .texts used)]
  | .wrongArity declared used => [("expected", .int declared), ("actual", .int used)]
  | .notSummed kind => [("aggregator", .text kind.name)]
  | .notDeclaredCompatible | .noAggregator _ => []

def diagnostic (f : Fault) (s : Site) : Diagnostic :=
  validationError f.code s!"Component '{s.component}': {f.message s}" ["components", s.component]
    ([("component", .text s.component)] ++ f.details ++
      [("term", .text s.term), ("interaction", .text s.interaction)])

end Fault

/-! ## Checks -/

/-- Interactions whose symbols a reduction can run over. -/
def isReducible (kind : InteractionKind) : Bool := kind = .allIndices || kind = .groups

/-- The first free symbol that is not bound. -/
def checkFree (u : Usage) (bound : List String) : Except Fault Unit :=
  match u.free.find? (· ∉ bound) with
  | some s => .error (.unboundIndex s bound)
  | none => .ok ()

def checkReduction (u : Usage) (i : Interaction) (symbol : String) : Except Fault Unit :=
  if symbol ∉ i.symbols then .error (.unboundReduction symbol)
  else if !isReducible i.kind then .error (.notReducible symbol i.kind)
  else if symbol ∈ u.free then .error (.freeAndReduced symbol)
  else .ok ()

def checkUnused (u : Usage) (bound : List String) : Except Fault Unit :=
  match bound.filter fun s => s ∉ u.free ∧ s ∉ u.reductions with
  | [] => .ok ()
  | symbols => .error (.unused symbols bound (u.free ++ u.reductions))

def checkMembers (u : Usage) (i : Interaction) : Except Fault Unit :=
  if i.kind = .groups ∧ u.free ≠ [] then .error (.freeMember (i.symbols.headD "")) else .ok ()

/-- A declared number of symbols is the number of symbols used. -/
def checkArity (u : Usage) (arity : Arity) : Except Fault Unit :=
  let used := u.free.length + u.reductions.length
  match arity with
  | .count n => if n = used then .ok () else .error (.wrongArity n used)
  | _ => .ok ()

/-- A low-rank interaction needs a term that is declared for it, and sums. -/
def checkLowRank (compat : List String) (i : Interaction) (aggregator : Option (Aggregator Float)) :
    Except Fault Unit :=
  if i.kind ≠ .lowRank then .ok ()
  else if InteractionKind.lowRank.name ∉ compat then .error .notDeclaredCompatible
  else
    match aggregator with
    | some a => if a.kind = .sum then .ok () else .error (.notSummed a.kind)
    | none => .ok ()

/-- The declared aggregator; without one, only where there is nothing to choose. -/
def aggregatorFor (i : Interaction) (declared : Option (Aggregator Float)) :
    Except Fault (Aggregator Float) :=
  match declared, i.kind with
  | some a, _ => .ok a
  | none, .none => .ok (Aggregator.ofKind .identity)
  | none, .lowRank => .ok (Aggregator.ofKind .sum)
  | none, kind => .error (.noAggregator kind)

/-- Binds the symbols of a term's expressions to those of an interaction. -/
def bind (exprs : List Expr) (arity : Arity) (compat : List String) (i : Interaction)
    (aggregator : Option (Aggregator Float)) : Except Fault Binding := do
  let u := Usage.ofExprs exprs i.symbols
  checkFree u i.symbols
  u.reductions.forM (checkReduction u i)
  checkUnused u i.symbols
  checkMembers u i
  checkArity u arity
  checkLowRank compat i aggregator
  let a ← aggregatorFor i aggregator
  .ok ⟨i.symbols.filter (· ∈ u.free), u.reductions, a⟩

end Binding

end EnergyGraph
