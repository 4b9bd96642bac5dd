-- What the names in a term stand for: free index symbols, symbols that reductions
-- run over, single numbers, and arrays with the number of their indices.
import EnergyGraph.Expr.Syntax

namespace EnergyGraph

/-- Names by their role, each in the order of its first use. -/
structure Usage where
  free : List String
  reductions : List String
  scalars : List String
  arrays : List (String × Nat)
deriving DecidableEq, Inhabited

namespace Usage

def empty : Usage := ⟨[], [], [], []⟩

def addFree (u : Usage) (s : String) : Usage := { u with free := Expr.insertLast u.free s }

def addReduction (u : Usage) (s : String) : Usage :=
  { u with reductions := Expr.insertLast u.reductions s }

def addScalar (u : Usage) (s : String) : Usage := { u with scalars := Expr.insertLast u.scalars s }

/-- An array keeps the number of indices of its first use. -/
def addArray (u : Usage) (s : String) (count : Nat) : Usage :=
  if (u.arrays.lookup s).isSome then u else { u with arrays := u.arrays ++ [(s, count)] }

/-- An index symbol is free unless a reduction around it gives it its values. -/
def addIndex (scope : List String) (u : Usage) (i : Index) : Usage :=
  match i with
  | .symbol name _ => if name ∈ scope then u else u.addFree name
  | .literal .. => u

/-- A name without indices is a symbol if a reduction or the interaction binds it. -/
def addName (scope bound : List String) (u : Usage) (name : String) : Usage :=
  if name ∈ scope then u
  else if name ∈ bound then u.addFree name
  else u.addScalar name

mutual

/-- Adds what an expression uses; `scope` holds the symbols of the reductions around it. -/
def scan (bound scope : List String) (u : Usage) : Expr → Usage
  | .literal .. => u
  | .ref name [] _ => u.addName scope bound name
  | .ref name indices _ => indices.foldl (addIndex scope) (u.addArray name indices.length)
  | .reduction _ symbol body _ => scan bound (symbol :: scope) (u.addReduction symbol) body
  | .call _ args _ => scanAll bound scope u args
  | .binary _ left right _ => scan bound scope (scan bound scope u left) right
  | .negate operand _ => scan bound scope u operand

def scanAll (bound scope : List String) (u : Usage) : List Expr → Usage
  | [] => u
  | e :: rest => scanAll bound scope (scan bound scope u e) rest

end

/-- The names in some expressions, where an interaction binds these symbols. -/
def ofExprs (exprs : List Expr) (bound : List String) : Usage := scanAll bound [] empty exprs

end Usage

end EnergyGraph
