-- Formulas: an expression together with the text that it came from and the
-- number of index symbols that its author declared.
import EnergyGraph.Expr.Parser

namespace EnergyGraph

/-- How many index symbols a term declares: nothing said, a name, or a number. -/
inductive Arity where
  | unspecified
  | named (name : String)
  | count (n : Int)
deriving DecidableEq, Inhabited

def Arity.value : Arity → Value
  | .unspecified => .null
  | .named name => .text name
  | .count n => .int n

structure Formula where
  source : String
  body : Expr
  arity : Arity
deriving Inhabited

namespace Formula

open EnergyGraph.Expr (Unreadable)

/-- A number as a formula. -/
def ofNumber (n : Number) (arity : Arity) : Formula := ⟨n.text, .literal n ⟨0, 0⟩, arity⟩

/-- The index symbols and reduction symbols of an expression, each once. -/
def symbolsOf (e : Expr) : List String := Expr.firsts (e.indexSymbols ++ e.reductionSymbols)

/-- The formula of a text. Where the arity is a number, no more symbols may occur. -/
def ofText (source : String) (arity : Arity) : Except Unreadable Formula :=
  match arity with
  | .count n =>
    if n < 0 then .error (.mistake ⟨.negativeArity n, ⟨0, 0⟩⟩)
    else do
      let body ← Expr.parse source
      let symbols := symbolsOf body
      if (symbols.length : Int) > n then
        let sorted := symbols.mergeSort fun a b => a ≤ b
        .error (.mistake ⟨.tooManySymbols sorted n, ⟨0, source.length⟩⟩)
      else .ok ⟨source, body, arity⟩
  | _ => do .ok ⟨source, ← Expr.parse source, arity⟩

/-- The formula that a value of a document stands for: a text or a number. -/
def ofValue (v : Value) (arity : Arity) : Except Failure Formula :=
  match v with
  | .text source => (ofText source arity).mapError (·.failure source)
  | .int n => .ok (.ofNumber (.int n) arity)
  | .float x => .ok (.ofNumber (.float x) arity)
  | .bool b => .error ((Unreadable.mistake ⟨.truthValue b, ⟨0, 0⟩⟩).failure v.plain)
  | _ => .error ((Unreadable.mistake ⟨.notText v.typeName, ⟨0, 0⟩⟩).failure v.plain)

end Formula

/-! ## Replacing names by numbers -/

/-- Numbers by name, each name once. -/
abbrev Numbers := List (String × Number)

namespace Expr

/-- The number that takes the place of a name, unless the name is kept. -/
def replacement? (values : Numbers) (kept : List String) (name : String) : Option Number :=
  if name ∈ kept then none else values.lookup name

/-- Two things after a change that either may have left as it was; nothing where both did. -/
def both? {α β : Type} (a : α) (b : β) : Option α → Option β → Option (α × β)
  | none, none => none
  | a', b' => some (a'.getD a, b'.getD b)

mutual

/-- Names outside of index lists become numbers; kept names stay. -/
def replace (values : Numbers) (kept : List String) : Expr → Expr
  | .literal value span => .literal value span
  | .ref name [] span =>
    match replacement? values kept name with
    | some n => .literal n span
    | none => .ref name [] span
  | .ref name indices span => .ref name indices span
  | .reduction fold symbol body span => .reduction fold symbol (body.replace values kept) span
  | .call function args span => .call function (replaceAll values kept args) span
  | .binary op left right span =>
    .binary op (left.replace values kept) (right.replace values kept) span
  | .negate operand span => .negate (operand.replace values kept) span

def replaceAll (values : Numbers) (kept : List String) : List Expr → List Expr
  | [] => []
  | e :: rest => e.replace values kept :: replaceAll values kept rest

/-- The expression with its names replaced, and nothing where none of them is: it stays the very
same then, and so does every part that holds no such name. -/
def replaced? (values : Numbers) (kept : List String) : Expr → Option Expr
  | .literal .. => none
  | .ref name [] span => (replacement? values kept name).map fun n => .literal n span
  | .ref .. => none
  | .reduction fold symbol body span =>
    (body.replaced? values kept).map fun b => .reduction fold symbol b span
  | .call function args span =>
    (replacedAll? values kept args).map fun as => .call function as span
  | .binary op left right span =>
    (both? left right (left.replaced? values kept) (right.replaced? values kept)).map fun (l, r) =>
      .binary op l r span
  | .negate operand span => (operand.replaced? values kept).map fun o => .negate o span

def replacedAll? (values : Numbers) (kept : List String) : List Expr → Option (List Expr)
  | [] => none
  | e :: rest =>
    (both? e rest (e.replaced? values kept) (replacedAll? values kept rest)).map fun (e, es) =>
      e :: es

end

end Expr

namespace Formula

/-- Replaces names by numbers, except for the protected ones and the symbols of reductions. -/
def substitute (f : Formula) (values : Numbers) (isProtected : List String) : Formula :=
  { f with body := f.body.replace values (isProtected ++ f.body.reductionSymbols) }

/-- The formula after a substitution, and nothing where it is the very same. -/
def substitute? (f : Formula) (values : Numbers) (isProtected : List String) : Option Formula :=
  (f.body.replaced? values (isProtected ++ f.body.reductionSymbols)).map fun body => { f with body }

/-- Substitution leaves the formula as it is. -/
def isUnchanged (f : Formula) (values : Numbers) (isProtected : List String) : Bool :=
  (f.substitute? values isProtected).isNone

end Formula

end EnergyGraph
