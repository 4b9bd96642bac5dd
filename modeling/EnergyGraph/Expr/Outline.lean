-- Expressions, tokens and formulas as plain values, node by node.
import EnergyGraph.Expr.Formula
import EnergyGraph.Expr.Printer

namespace EnergyGraph

/-- A value with the word for its kind. -/
def Value.typed (v : Value) : Value := .object [("type", .text v.typeName), ("value", v)]

namespace Expr

def Token.Kind.word : Token.Kind → String
  | .number _ => "NUMBER"
  | .name => "IDENT"
  | .operator _ => "OP"
  | .openParen => "("
  | .closeParen => ")"
  | .openBracket => "["
  | .closeBracket => "]"
  | .comma => ","
  | .finish => "END"

/-- The number of a token that is one. -/
def Token.Kind.value : Token.Kind → Value
  | .number n => (Value.ofNumber n).typed
  | _ => .null

def Token.outline (t : Token) : Value :=
  .object [("kind", .text t.kind.word), ("text", .text t.text), ("start", .int t.start),
    ("end", .int t.stop), ("value", t.kind.value)]

/-- A node: its kind, what is in it, and its stretch of the text. -/
def node (kind : String) (members : Object) (span : Span) : Value :=
  .object ([("k", .text kind)] ++ members ++ [("span", span.value)])

def literalOutline (n : Number) (span : Span) : Value :=
  let v := Value.ofNumber n
  node "Literal" [("type", .text v.typeName), ("value", v)] span

def indexOutline : Index → Value
  | .symbol name span => node "Ref" [("name", .text name), ("indices", .list [])] span
  | .literal n span => literalOutline (.int n) span

mutual

def outline : Expr → Value
  | .literal value span => literalOutline value span
  | .ref name indices span =>
    node "Ref" [("name", .text name), ("indices", .list (indices.map indexOutline))] span
  | .reduction fold symbol body span =>
    node "Reduction" [("op", .text fold.name), ("symbol", .text symbol), ("body", body.outline)] span
  | .call function args span =>
    node "Call" [("name", .text function.name), ("args", .list (outlineAll args))] span
  | .binary op left right span =>
    node "BinOp" [("op", .text (String.singleton op.symbol)), ("left", left.outline),
      ("right", right.outline)] span
  | .negate operand span => node "UnaryOp" [("op", .text "-"), ("operand", operand.outline)] span

def outlineAll : List Expr → List Value
  | [] => []
  | e :: rest => e.outline :: outlineAll rest

end

end Expr

namespace Formula

/-- The text, the expression as it is printed, and the declared arity. -/
def outline (f : Formula) : Value :=
  .object [("source", .text f.source), ("expr", .text f.body.text), ("arity", f.arity.value)]

/-- The names in a formula, by their role. -/
def nameMembers (f : Formula) : Object :=
  [("names", .texts f.body.names), ("is_constant", .bool f.body.isConstant)]

/-- Everything about a formula. -/
def fullOutline (f : Formula) : Value :=
  .object ([("source", .text f.source), ("arity", f.arity.value), ("ast", f.body.outline),
    ("unparse", .text f.body.text), ("index_symbols", .texts f.body.indexSymbols),
    ("reduction_symbols", .texts f.body.reductionSymbols)] ++ f.nameMembers)

end Formula

end EnergyGraph
