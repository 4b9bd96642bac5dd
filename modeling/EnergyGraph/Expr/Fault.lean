-- The mistakes that an expression text can have, and how they are told.
import EnergyGraph.Expr.Syntax

namespace EnergyGraph.Expr

inductive Fault where
  | malformedNumber (text : String)
  | infiniteNumber (text : String)
  | unexpectedCharacter (c : Char)
  | empty
  | endOfText
  | unopened (text : String)
  | unclosedParen
  | unclosedBracket
  | unexpectedToken (text : String)
  | unexpectedInArguments (text : String)
  | fractionalIndex (text : String)
  | badIndex
  | badReductionTarget (name : String)
  | reductionArity (name : String) (count : Nat)
  | unknownFunction (name : String)
  | functionArity (function : Builtin) (count : Nat)
  | tooManySymbols (symbols : List String) (arity : Int)
  | negativeArity (arity : Int)
  | truthValue (b : Bool)
  | notText (typeName : String)
deriving DecidableEq, Inhabited

namespace Fault

def code : Fault → String
  | .malformedNumber _ | .infiniteNumber _ | .truthValue _ => "BadLiteral"
  | .reductionArity .. | .functionArity .. | .tooManySymbols .. | .negativeArity _ => "Arity"
  | .unknownFunction _ => "UnknownFunction"
  | _ => "Syntax"

def message : Fault → String
  | .malformedNumber text => s!"Malformed numeric literal '{text}'."
  | .infiniteNumber text => s!"Numeric literal '{text}' is not a finite double."
  | .unexpectedCharacter c => s!"Unexpected character '{c}'."
  | .empty => "Empty expression."
  | .endOfText => "Unexpected end of expression."
  | .unopened text => s!"Unbalanced '{text}'."
  | .unclosedParen => "Unbalanced '(': missing ')'."
  | .unclosedBracket => "Unbalanced '[': missing ']'."
  | .unexpectedToken text => s!"Unexpected token '{text}'."
  | .unexpectedInArguments text => s!"Unexpected token '{text}' in argument list."
  | .fractionalIndex text => s!"Index literal '{text}' must be an integer."
  | .badIndex => "Index must be a symbol or an integer literal."
  | .badReductionTarget name => s!"Reduction target in '{name}' must be an identifier."
  | .reductionArity name count => s!"Reduction '{name}' takes exactly one argument, got {count}."
  | .unknownFunction name => s!"Unknown function '{name}'."
  | .functionArity function count =>
    let expected := if function.isVariadic then "at least 1" else "1"
    s!"Function '{function.name}' expects {expected} argument(s), got {count}."
  | .tooManySymbols symbols arity =>
    s!"Expression uses {symbols.length} index symbol(s) {Text.quotedList symbols} " ++
      s!"but declares arity {arity}."
  | .negativeArity arity => s!"Declared arity must be non-negative, got {arity}."
  | .truthValue b => s!"Boolean {(Value.bool b).shown} is not a numeric expression."
  | .notText typeName => s!"Expression must be a string, got {typeName}."

end Fault

/-- A mistake and the stretch of the text that has it. -/
structure Mistake where
  fault : Fault
  span : Span
deriving DecidableEq, Inhabited

def Mistake.diagnostic (m : Mistake) (source : String) : Diagnostic :=
  .ofExpression m.fault.code m.fault.message ⟨source, m.span⟩ [] []

/-- Why a text is not read as an expression. -/
inductive Unreadable where
  | mistake (m : Mistake)
  /-- An integer has more than `Decimal.longestInteger` digits. -/
  | longInteger
deriving DecidableEq, Inhabited

/-- A mistake is told with its place, a number that is too long is refused. -/
def Unreadable.failure (source : String) : Unreadable → Failure
  | .mistake m => .diagnostic (m.diagnostic source)
  | .longInteger => .refusal (.plain .badValue)

end EnergyGraph.Expr
