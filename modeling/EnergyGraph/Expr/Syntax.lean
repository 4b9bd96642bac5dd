-- Expressions: numbers, names, indexed arrays, calls, operators, and reductions
-- over the domain of an index symbol. Every part keeps the stretch of the text
-- that it was read from.
import EnergyGraph.Diagnostic

namespace EnergyGraph

inductive Operator where
  | add
  | sub
  | mul
  | div
  | pow
deriving DecidableEq, Repr, Inhabited

def Operator.symbol : Operator → Char
  | .add => '+'
  | .sub => '-'
  | .mul => '*'
  | .div => '/'
  | .pow => '^'

/-- What a reduction does with the values of its body. -/
inductive Fold where
  | sum
  | prod
deriving DecidableEq, Repr, Inhabited

def Fold.name : Fold → String
  | .sum => "sum"
  | .prod => "prod"

/-- Scalar functions that every expression may call. -/
inductive Builtin where
  | sqrt
  | exp
  | log
  | abs
  | sin
  | cos
  | tan
  | max
  | min
  | sum
  | prod
deriving DecidableEq, Repr, Inhabited

namespace Builtin

def all : List Builtin := [.sqrt, .exp, .log, .abs, .sin, .cos, .tan, .max, .min, .sum, .prod]

def name : Builtin → String
  | .sqrt => "sqrt"
  | .exp => "exp"
  | .log => "log"
  | .abs => "abs"
  | .sin => "sin"
  | .cos => "cos"
  | .tan => "tan"
  | .max => "max"
  | .min => "min"
  | .sum => "sum"
  | .prod => "prod"

def ofName? (s : String) : Option Builtin := all.find? fun b => b.name == s

/-- Functions of any number of arguments from one on; the others take exactly one. -/
def isVariadic : Builtin → Bool
  | .max | .min | .sum | .prod => true
  | _ => false

def accepts (b : Builtin) (count : Nat) : Bool := if b.isVariadic then 1 ≤ count else count == 1

theorem ofName?_name (b : Builtin) : ofName? b.name = some b := by cases b <;> decide

end Builtin

/-- A position in an index list: an index symbol or a fixed integer. -/
inductive Index where
  | symbol (name : String) (span : Span)
  | literal (n : Int) (span : Span)
deriving DecidableEq, Inhabited

namespace Index

def span : Index → Span
  | .symbol _ s => s
  | .literal _ s => s

def symbol? : Index → Option String
  | .symbol name _ => some name
  | .literal .. => none

end Index

inductive Expr where
  | literal (value : Number) (span : Span)
  /-- A name, or an array indexed at one or more positions. -/
  | ref (name : String) (indices : List Index) (span : Span)
  | reduction (fold : Fold) (symbol : String) (body : Expr) (span : Span)
  | call (function : Builtin) (args : List Expr) (span : Span)
  | binary (op : Operator) (left right : Expr) (span : Span)
  | negate (operand : Expr) (span : Span)
deriving Inhabited

namespace Expr

def span : Expr → Span
  | .literal _ s => s
  | .ref _ _ s => s
  | .reduction _ _ _ s => s
  | .call _ _ s => s
  | .binary _ _ _ s => s
  | .negate _ s => s

/-! ## Parts -/

/-- A part of an expression: an expression, or a position in an index list. -/
inductive Part where
  | expr (e : Expr)
  | index (i : Index)
deriving Inhabited

/-- The parts directly below, from left to right. -/
def Part.children : Part → List Part
  | .expr (.literal ..) => []
  | .expr (.ref _ indices _) => indices.map .index
  | .expr (.reduction _ _ body _) => [.expr body]
  | .expr (.call _ args _) => args.map .expr
  | .expr (.binary _ left right _) => [.expr left, .expr right]
  | .expr (.negate operand _) => [.expr operand]
  | .index _ => []

mutual

/-- How many parts an expression has, itself among them. -/
def size : Expr → Nat
  | .literal .. => 1
  | .ref _ indices _ => 1 + indices.length
  | .reduction _ _ body _ => 1 + body.size
  | .call _ args _ => 1 + sizeAll args
  | .binary _ left right _ => 1 + (left.size + right.size)
  | .negate operand _ => 1 + operand.size

def sizeAll : List Expr → Nat
  | [] => 0
  | e :: rest => e.size + sizeAll rest

end

def Part.size : Part → Nat
  | .expr e => e.size
  | .index _ => 1

def Part.totalSize : List Part → Nat
  | [] => 0
  | p :: rest => p.size + totalSize rest

theorem Part.totalSize_append (ps qs : List Part) :
    totalSize (ps ++ qs) = totalSize ps + totalSize qs := by
  induction ps with
  | nil => simp [totalSize]
  | cons p rest ih => simp [totalSize, ih, Nat.add_assoc]

theorem Part.totalSize_indices (indices : List Index) :
    totalSize (indices.map .index) = indices.length := by
  induction indices with
  | nil => rfl
  | cons i rest ih => simp [totalSize, size, ih, Nat.add_comm]

theorem sizeAll_eq (args : List Expr) : sizeAll args = Part.totalSize (args.map .expr) := by
  induction args with
  | nil => rfl
  | cons e rest ih => simp [sizeAll, Part.totalSize, Part.size, ih]

/-- A part is one more than the parts below it. -/
theorem Part.size_eq (p : Part) : p.size = 1 + Part.totalSize p.children := by
  match p with
  | .index _ => rfl
  | .expr (.literal ..) => rfl
  | .expr (.ref _ indices _) =>
    simp [Part.size, Expr.size, Part.children, Part.totalSize_indices]
  | .expr (.reduction ..) => simp [Part.size, Expr.size, Part.children, Part.totalSize]
  | .expr (.call _ args _) => simp [Part.size, Expr.size, Part.children, sizeAll_eq]
  | .expr (.binary ..) => simp [Part.size, Expr.size, Part.children, Part.totalSize]
  | .expr (.negate ..) => simp [Part.size, Expr.size, Part.children, Part.totalSize]

/-- Visits the parts on a stack, each part before those below it. -/
def walkFrom : List Part → List Part
  | [] => []
  | p :: stack => p :: walkFrom (p.children ++ stack)
termination_by stack => Part.totalSize stack
decreasing_by
  have := p.size_eq
  rw [Part.totalSize_append, Part.totalSize]
  omega

/-- All parts, each before those below it, from left to right. -/
def walk (e : Expr) : List Part := walkFrom [.expr e]

/-! ## Names and symbols -/

/-- Adds an item unless it is there already. -/
def insertLast (items : List String) (s : String) : List String :=
  if s ∈ items then items else items ++ [s]

/-- The items without repetitions, each at its first place. -/
def firsts (items : List String) : List String :=
  items.foldl insertLast []

/-- The symbols used in index lists, in the order of their first use. -/
def indexSymbols (e : Expr) : List String :=
  firsts <| e.walk.flatMap fun
    | .expr (.ref _ indices _) => indices.filterMap Index.symbol?
    | _ => []

/-- The symbols that reductions run over, in the order of their first use. -/
def reductionSymbols (e : Expr) : List String :=
  firsts <| e.walk.filterMap fun
    | .expr (.reduction _ symbol _ _) => some symbol
    | _ => none

/-- The names used outside of index lists, in the order of their first use. -/
def names (e : Expr) : List String :=
  firsts <| e.walk.filterMap fun
    | .expr (.ref name _ _) => some name
    | _ => none

/-- Every name that occurs, in an index list or outside. -/
def mentioned (e : Expr) : List String :=
  e.walk.filterMap fun
    | .expr (.ref name _ _) => some name
    | .index (.symbol name _) => some name
    | _ => none

/-- No name occurs. -/
def isConstant (e : Expr) : Bool :=
  e.walk.all fun
    | .expr (.ref ..) => false
    | _ => true

end Expr

end EnergyGraph
