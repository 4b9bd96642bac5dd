-- Expressions written as text: every operator stands between parentheses.
import EnergyGraph.Expr.Syntax

namespace EnergyGraph

def Index.text : Index → String
  | .symbol name _ => name
  | .literal n _ => toString n

namespace Expr

mutual

@[simp]
def text : Expr → String
  | .literal value _ => value.text
  | .ref name [] _ => name
  | .ref name indices _ => name ++ "[" ++ ", ".intercalate (indices.map Index.text) ++ "]"
  | .reduction fold symbol body _ => fold.name ++ "_" ++ symbol ++ "(" ++ body.text ++ ")"
  | .call function args _ => function.name ++ "(" ++ ", ".intercalate (texts args) ++ ")"
  | .binary op left right _ =>
    "(" ++ left.text ++ " " ++ String.singleton op.symbol ++ " " ++ right.text ++ ")"
  | .negate operand _ => "(-" ++ operand.text ++ ")"

@[simp]
def texts : List Expr → List String
  | [] => []
  | e :: rest => e.text :: texts rest

end

end Expr

end EnergyGraph
