-- The value of an expression. Names are index symbols first and arrays second.
-- A reduction gives its symbol one value of its domain after the other, in a
-- table that the whole evaluation shares, and puts the table back at its end.
import EnergyGraph.Expr.Syntax
import EnergyGraph.Tensor

namespace EnergyGraph

/-! ## Failures -/

/-- An operation applied outside of its domain. -/
inductive DomainViolation (α : Type) where
  | sqrtOfNegative (x : α)
  | logOfNonPositive (x : α)
  | expOverflow (x : α)
  | undefinedAt (function : Builtin) (x : α)
  | overflow (left : α) (op : Operator) (right : α)
  | divisionByZero (x : α)
  | fractionalPower (base exponent : α)
  | zeroToNegative (exponent : α)
deriving Inhabited

def DomainViolation.message {α : Type} [Scalar α] : DomainViolation α → String
  | .sqrtOfNegative x => s!"sqrt of negative argument {Scalar.text x}"
  | .logOfNonPositive x => s!"log of non-positive argument {Scalar.text x}"
  | .expOverflow x => s!"exp overflow for argument {Scalar.text x}"
  | .undefinedAt function x => s!"{function.name} undefined for argument {Scalar.text x}"
  | .overflow left op right => s!"overflow in {Scalar.text left} {op.symbol} {Scalar.text right}"
  | .divisionByZero x => s!"division of {Scalar.text x} by zero"
  | .fractionalPower base exponent =>
    s!"negative base {Scalar.text base} with non-integer exponent {Scalar.text exponent}"
  | .zeroToNegative exponent => s!"zero base with negative exponent {Scalar.text exponent}"

/-- A name or a position that the context does not answer. -/
inductive LookupViolation where
  | unresolvedName (name : String)
  | unresolvedArray (name : String)
  | notScalar (name : String) (shape : Shape)
  | wrongRank (name : String) (rank count : Nat)
  | outOfBounds (k : Int) (axis : Nat) (name : String) (low high : Int)
  | unboundSymbol (name : String)
  | noDomain (symbol : String)
deriving DecidableEq, Inhabited

def LookupViolation.code : LookupViolation → String
  | .unresolvedName _ | .unresolvedArray _ => "UnresolvedReference"
  | .notScalar .. | .wrongRank .. => "ShapeMismatch"
  | .outOfBounds .. => "IndexOutOfBounds"
  | .unboundSymbol _ | .noDomain _ => "UnboundSymbol"

def LookupViolation.message : LookupViolation → String
  | .unresolvedName name => s!"Unresolved name '{name}'."
  | .unresolvedArray name => s!"Unresolved array '{name}'."
  | .notScalar name shape => s!"'{name}' has shape {shape.tuple} and cannot be used as a scalar."
  | .wrongRank name rank count =>
    s!"'{name}' has {rank} dimension(s) but was indexed with {count}."
  | .outOfBounds k axis name low high =>
    s!"Index {k} on axis {axis} of '{name}' is outside {low}..{high}."
  | .unboundSymbol name => s!"Index symbol '{name}' is not bound."
  | .noDomain symbol => s!"No reduction domain for symbol '{symbol}'."

inductive EvalFailure (α : Type) where
  | domain (v : DomainViolation α)
  | lookup (v : LookupViolation)
  | refusal (r : Refusal.Kind)
deriving Inhabited

/-! ## Contexts -/

/-- Index symbols with their values, in the order in which they were bound. -/
abbrev Symbols := List (String × Int)

namespace Symbols

/-- Binds a symbol; a known one keeps its place. -/
def set : Symbols → String → Int → Symbols
  | [], name, k => [(name, k)]
  | (n, v) :: rest, name, k => if n == name then (n, k) :: rest else (n, v) :: set rest name k

def erase (s : Symbols) (name : String) : Symbols := s.filter fun (n, _) => n != name

/-- Puts a symbol back to what it was before. -/
def restore (s : Symbols) (name : String) : Option Int → Symbols
  | some k => s.set name k
  | none => s.erase name

def value (s : Symbols) : Value := .object (s.map fun (n, k) => (n, .int k))

def shown (s : Symbols) : String := s.value.shown

end Symbols

/-- Arrays by name, each name once. -/
abbrev Arrays (α : Type) := List (String × Tensor α)

/-- What stays the same while an expression is evaluated. -/
structure EvalContext (α : Type) where
  arrays : Arrays α
  base : Int
  /-- The values that the symbol of a reduction takes. -/
  domains : List (String × List Int)

/-- An evaluation shares one table of symbols, which outlives a failure. -/
abbrev Eval (α β : Type) := ExceptT (EvalFailure α) (StateM Symbols) β

namespace Expr

variable {α : Type} [Scalar α]

open Scalar (lt eq isFinite isInfinite)

/-! ## Operations -/

/-- Overflow is a result that is infinite where both operands are finite. -/
def checked (op : Operator) (left right result : α) : Except (EvalFailure α) α :=
  if isInfinite result && isFinite left && isFinite right then
    .error (.domain (.overflow left op right))
  else .ok result

def power (base exponent : α) : Except (EvalFailure α) α :=
  if lt base Scalar.zero && !Scalar.isIntegral exponent then
    .error (.domain (.fractionalPower base exponent))
  else if eq base Scalar.zero && lt exponent Scalar.zero then
    .error (.domain (.zeroToNegative exponent))
  else checked .pow base exponent (Scalar.pow base exponent)

def divide (left right : α) : Except (EvalFailure α) α :=
  if eq right Scalar.zero then .error (.domain (.divisionByZero left)) else .ok (left / right)

def applyOperator (op : Operator) (left right : α) : Except (EvalFailure α) α :=
  match op with
  | .add => checked .add left right (left + right)
  | .sub => checked .sub left right (left - right)
  | .mul => checked .mul left right (left * right)
  | .div => divide left right
  | .pow => power left right

/-- Sine, cosine and tangent have no value at infinity. -/
def trigonometric (function : Builtin) (f : α → α) (x : α) : Except (EvalFailure α) α :=
  if isInfinite x then .error (.domain (.undefinedAt function x)) else .ok (f x)

/-- Functions of one argument. -/
def applyUnary (function : Builtin) (x : α) : Except (EvalFailure α) α :=
  match function with
  | .sqrt => if lt x Scalar.zero then .error (.domain (.sqrtOfNegative x)) else .ok (Scalar.sqrt x)
  | .exp =>
    let y := Scalar.exp x
    if isInfinite y && isFinite x then .error (.domain (.expOverflow x)) else .ok y
  | .log =>
    if Scalar.le x Scalar.zero then .error (.domain (.logOfNonPositive x)) else .ok (Scalar.log x)
  | .abs => .ok (Scalar.abs x)
  | .sin => trigonometric .sin Scalar.sin x
  | .cos => trigonometric .cos Scalar.cos x
  | .tan => trigonometric .tan Scalar.tan x
  | .sum => .ok (Scalar.zero + x)
  | .prod => .ok (Scalar.one * x)
  | .max | .min => .error (.refusal .badType)

/-- The value of a function at its arguments. The largest and the smallest of a
single number are refused. -/
def applyBuiltin (function : Builtin) (args : List α) : Except (EvalFailure α) α :=
  match function, args with
  | .sum, _ => .ok (args.foldl (· + ·) Scalar.zero)
  | .prod, _ => .ok (args.foldl (· * ·) Scalar.one)
  | .max, x :: y :: rest => .ok ((y :: rest).foldl Scalar.larger x)
  | .min, x :: y :: rest => .ok ((y :: rest).foldl Scalar.smaller x)
  | f, [x] => applyUnary f x
  | _, _ => .error (.refusal .badType)

/-- One step of a reduction. -/
def step (fold : Fold) (acc term : α) : α :=
  match fold with
  | .sum => acc + term
  | .prod => acc * term

def start : Fold → α
  | .sum => Scalar.zero
  | .prod => Scalar.one

/-! ## Names -/

/-- The cell of an array that index values point at, counted from the index base. -/
def cellAt (name : String) (array : Tensor α) (keys : List Int) (base : Int) :
    Except (EvalFailure α) α :=
  if keys.length ≠ array.rank then
    .error (.lookup (.wrongRank name array.rank keys.length))
  else
    let outside? := ((keys.zip array.shape).zipIdx).find? fun ((k, d), _) =>
      k - base < 0 || k - base ≥ (d : Int)
    match outside? with
    | some ((k, d), axis) => .error (.lookup (.outOfBounds k axis name base (base + d - 1)))
    | none =>
      match array.at? (keys.map fun k => (k - base).toNat) with
      | some x => .ok x
      | none => .error (.refusal .badPosition)

/-- A name without indices: an index symbol, or an array with a single cell. -/
def scalarNamed (c : EvalContext α) (symbols : Symbols) (name : String) :
    Except (EvalFailure α) α :=
  match symbols.lookup name with
  | some k =>
    match Scalar.ofInt? k with
    | some x => .ok x
    | none => .error (.refusal .tooLarge)
  | none =>
    match c.arrays.lookup name with
    | none => .error (.lookup (.unresolvedName name))
    | some array =>
      match array.only? with
      | some x => .ok x
      | none => .error (.lookup (.notScalar name array.shape))

/-- The value of a position in an index list. -/
def indexValue (symbols : Symbols) : Index → Except (EvalFailure α) Int
  | .literal n _ => .ok n
  | .symbol name _ =>
    match symbols.lookup name with
    | some k => .ok k
    | none => .error (.lookup (.unboundSymbol name))

def cellNamed (c : EvalContext α) (symbols : Symbols) (name : String) (indices : List Index) :
    Except (EvalFailure α) α :=
  match c.arrays.lookup name with
  | none => .error (.lookup (.unresolvedArray name))
  | some array => do
    let keys ← indices.mapM (indexValue symbols)
    cellAt name array keys c.base

/-! ## Expressions -/

/-- Runs a step and then puts the symbol back, also after a failure. -/
def restoring {β : Type} (symbol : String) (before : Option Int) (body : Eval α β) : Eval α β :=
  ExceptT.mk do
    let result ← body.run
    modify fun symbols => Symbols.restore symbols symbol before
    pure result

mutual

def eval (c : EvalContext α) : Expr → Eval α α
  | .literal value _ =>
    match Scalar.ofNumber? value with
    | some x => pure x
    | none => throw (.refusal .tooLarge)
  | .ref name [] _ => do MonadExcept.ofExcept (scalarNamed c (← get) name)
  | .ref name indices _ => do MonadExcept.ofExcept (cellNamed c (← get) name indices)
  | .reduction fold symbol body _ => do
    match c.domains.lookup symbol with
    | none => throw (.lookup (.noDomain symbol))
    | some domain =>
      let before := (← get).lookup symbol
      restoring symbol before <|
        domain.foldlM (fun acc k => do
          modify (Symbols.set · symbol k)
          let term ← body.eval c
          pure (step fold acc term)) (start fold)
  | .call function args _ => do
    let values ← evalAll c args
    MonadExcept.ofExcept (applyBuiltin function values)
  | .binary op left right _ => do
    let a ← left.eval c
    let b ← right.eval c
    MonadExcept.ofExcept (applyOperator op a b)
  | .negate operand _ => do
    let a ← operand.eval c
    pure (-a)

def evalAll (c : EvalContext α) : List Expr → Eval α (List α)
  | [] => pure []
  | e :: rest => do
    let a ← e.eval c
    let as ← evalAll c rest
    pure (a :: as)

end

/-- The value, or the failure, and the symbols afterwards. -/
def evaluate (e : Expr) (c : EvalContext α) (symbols : Symbols) :
    Except (EvalFailure α) α × Symbols :=
  (e.eval c).run.run symbols

/-- The value of an expression without index symbols. -/
def evaluateScalar (e : Expr) (arrays : Arrays α) (base : Int) : Except (EvalFailure α) α :=
  (e.evaluate ⟨arrays, base, []⟩ []).1

end Expr

end EnergyGraph
