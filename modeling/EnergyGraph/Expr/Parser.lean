-- Expressions read from tokens. Sums bind weaker than products, products weaker
-- than powers, and a sign binds tighter than a power. Sums and products group to
-- the left, powers to the right.
import EnergyGraph.Expr.Token

namespace EnergyGraph.Expr

/-- Something read from the front of the tokens; at least one token was used up. -/
structure Parsed (α : Type) (tokens : List Token) where
  value : α
  rest : List Token
  shorter : rest.length < tokens.length

/-- Something read from the front of the tokens, if there was anything to read. -/
structure Continued (α : Type) (tokens : List Token) where
  value : α
  rest : List Token
  notLonger : rest.length ≤ tokens.length

/-- The next token, or the place after the text, which is `stop` characters long. -/
def spanAt (stop : Nat) : List Token → Span
  | [] => ⟨stop, stop + 1⟩
  | t :: _ => t.span

/-! ## Index lists -/

def takeIndex (stop : Nat) : (tokens : List Token) → Except Mistake (Parsed Index tokens)
  | [] => .error ⟨.badIndex, spanAt stop []⟩
  | t :: rest =>
    match t.kind with
    | .name => .ok ⟨.symbol t.text ⟨t.start, t.stop⟩, rest, by simp⟩
    | .number (.int n) => .ok ⟨.literal n ⟨t.start, t.stop⟩, rest, by simp⟩
    | .number (.float _) => .error ⟨.fractionalIndex t.text, t.span⟩
    | _ => .error ⟨.badIndex, t.span⟩

/-- One or more positions, separated by commas. -/
def takeIndices (stop : Nat) (tokens : List Token) : Except Mistake (Parsed (List Index) tokens) :=
  match takeIndex stop tokens with
  | .error e => .error e
  | .ok ⟨i, rest, h⟩ =>
    match hr : rest with
    | t :: after =>
      if t.kind == .comma then
        match takeIndices stop after with
        | .error e => .error e
        | .ok ⟨more, tail, h2⟩ => .ok ⟨i :: more, tail, by simp at h; omega⟩
      else .ok ⟨[i], rest, by simpa [hr] using h⟩
    | [] => .ok ⟨[i], [], h⟩
termination_by tokens.length
decreasing_by simp at h; omega

/-- An indexed array, from the token after the opening bracket `opening` on. -/
def takeIndexed (stop : Nat) (name opening : Token) (tokens : List Token) :
    Except Mistake (Parsed Expr tokens) :=
  match takeIndices stop tokens with
  | .error e => .error e
  | .ok ⟨is, rest, h⟩ =>
    match rest with
    | t :: after =>
      if t.kind == .closeBracket then
        .ok ⟨.ref name.text is ⟨name.start, t.stop⟩, after, by simp at h; omega⟩
      else .error ⟨.unclosedBracket, opening.span⟩
    | [] => .error ⟨.unclosedBracket, opening.span⟩

/-! ## Calls -/

/-- The name of a reduction, taken apart at its first underscore. -/
def reductionName? (name : String) : Option (Fold × String) :=
  let cs := name.toList
  let head := String.ofList (cs.takeWhile (· != '_'))
  match cs.dropWhile (· != '_') with
  | [] => none
  | _ :: symbol =>
    let symbol := String.ofList symbol
    if head == "sum" then some (.sum, symbol)
    else if head == "prod" then some (.prod, symbol)
    else none

/-- A reduction symbol starts with a letter. -/
def isReductionSymbol (symbol : String) : Bool :=
  match symbol.toList with
  | [] => false
  | c :: _ => Text.isLetter c

/-- The meaning of a call: a reduction, or a built-in function. -/
def callNode (name : Token) (span : Span) (args : List Expr) : Except Mistake Expr :=
  match reductionName? name.text with
  | some (fold, symbol) =>
    if isReductionSymbol symbol then
      match args with
      | [body] => .ok (.reduction fold symbol body span)
      | _ => .error ⟨.reductionArity name.text args.length, span⟩
    else .error ⟨.badReductionTarget name.text, ⟨name.start, name.stop⟩⟩
  | none =>
    match Builtin.ofName? name.text with
    | none => .error ⟨.unknownFunction name.text, ⟨name.start, name.stop⟩⟩
    | some function =>
      if function.accepts args.length then .ok (.call function args span)
      else .error ⟨.functionArity function args.length, span⟩

/-- The end of a call, once its arguments are read. -/
def finishCall (name opening : Token) (args : List Expr) (tokens : List Token) :
    Except Mistake (Parsed Expr tokens) :=
  match tokens with
  | t :: after =>
    if t.kind == .closeParen then
      match callNode name ⟨name.start, t.stop⟩ args with
      | .error e => .error e
      | .ok node => .ok ⟨node, after, by simp⟩
    else if t.kind == .finish then .error ⟨.unclosedParen, opening.span⟩
    else .error ⟨.unexpectedInArguments t.text, t.span⟩
  | [] => .error ⟨.unclosedParen, opening.span⟩

/-! ## Expressions -/

/-- An operator between the terms of a sum. -/
def sumOperator? : Token.Kind → Option Operator
  | .operator .add => some .add
  | .operator .sub => some .sub
  | _ => none

/-- An operator between the factors of a product. -/
def productOperator? : Token.Kind → Option Operator
  | .operator .mul => some .mul
  | .operator .div => some .div
  | _ => none

def binaryNode (op : Operator) (left right : Expr) : Expr :=
  .binary op left right ⟨left.span.start, right.span.stop⟩

mutual

/-- A sum. -/
def takeSum (stop : Nat) (tokens : List Token) : Except Mistake (Parsed Expr tokens) :=
  match takeProduct stop tokens with
  | .error e => .error e
  | .ok ⟨first, rest, h⟩ =>
    match takeSumTail stop first rest with
    | .error e => .error e
    | .ok ⟨node, tail, h2⟩ => .ok ⟨node, tail, by omega⟩
termination_by (tokens.length, 6)

/-- The rest of a sum whose terms so far are `left`. -/
def takeSumTail (stop : Nat) (left : Expr) (tokens : List Token) :
    Except Mistake (Continued Expr tokens) :=
  match tokens with
  | [] => .ok ⟨left, [], by simp⟩
  | t :: after =>
    match sumOperator? t.kind with
    | none => .ok ⟨left, t :: after, by simp⟩
    | some op =>
      match takeProduct stop after with
      | .error e => .error e
      | .ok ⟨right, rest, h⟩ =>
        match takeSumTail stop (binaryNode op left right) rest with
        | .error e => .error e
        | .ok ⟨node, tail, h2⟩ => .ok ⟨node, tail, by simp; omega⟩
termination_by (tokens.length, 5)
decreasing_by all_goals (simp [Prod.lex_def]; try omega)

/-- A product. -/
def takeProduct (stop : Nat) (tokens : List Token) : Except Mistake (Parsed Expr tokens) :=
  match takePower stop tokens with
  | .error e => .error e
  | .ok ⟨first, rest, h⟩ =>
    match takeProductTail stop first rest with
    | .error e => .error e
    | .ok ⟨node, tail, h2⟩ => .ok ⟨node, tail, by omega⟩
termination_by (tokens.length, 4)

/-- The rest of a product whose factors so far are `left`. -/
def takeProductTail (stop : Nat) (left : Expr) (tokens : List Token) :
    Except Mistake (Continued Expr tokens) :=
  match tokens with
  | [] => .ok ⟨left, [], by simp⟩
  | t :: after =>
    match productOperator? t.kind with
    | none => .ok ⟨left, t :: after, by simp⟩
    | some op =>
      match takePower stop after with
      | .error e => .error e
      | .ok ⟨right, rest, h⟩ =>
        match takeProductTail stop (binaryNode op left right) rest with
        | .error e => .error e
        | .ok ⟨node, tail, h2⟩ => .ok ⟨node, tail, by simp; omega⟩
termination_by (tokens.length, 3)
decreasing_by all_goals (simp [Prod.lex_def]; try omega)

/-- A signed operand, perhaps raised to a power. -/
def takePower (stop : Nat) (tokens : List Token) : Except Mistake (Parsed Expr tokens) :=
  match takeSigned stop tokens with
  | .error e => .error e
  | .ok ⟨base, rest, h⟩ =>
    match hr : rest with
    | [] => .ok ⟨base, [], h⟩
    | t :: after =>
      if t.kind == .operator .pow then
        match takePower stop after with
        | .error e => .error e
        | .ok ⟨exponent, tail, h2⟩ =>
          .ok ⟨binaryNode .pow base exponent, tail, by simp at h; omega⟩
      else .ok ⟨base, t :: after, h⟩
termination_by (tokens.length, 2)
decreasing_by all_goals (simp [Prod.lex_def]; try simp at h; try omega)

/-- An operand with any number of signs; a plus sign leaves no trace. -/
def takeSigned (stop : Nat) (tokens : List Token) : Except Mistake (Parsed Expr tokens) :=
  match tokens with
  | [] => takeOperand stop []
  | t :: after =>
    match sumOperator? t.kind with
    | none => takeOperand stop (t :: after)
    | some op =>
      match takeSigned stop after with
      | .error e => .error e
      | .ok ⟨node, rest, h⟩ =>
        let node := if op = .sub then .negate node ⟨t.start, node.span.stop⟩ else node
        .ok ⟨node, rest, by simp; omega⟩
termination_by (tokens.length, 1)
decreasing_by all_goals (simp [Prod.lex_def]; try omega)

/-- A number, a name, an indexed array, a call, or a sum between parentheses. -/
def takeOperand (stop : Nat) (tokens : List Token) : Except Mistake (Parsed Expr tokens) :=
  match tokens with
  | [] => .error ⟨.endOfText, spanAt stop []⟩
  | t :: after =>
    match t.kind with
    | .number value => .ok ⟨.literal value ⟨t.start, t.stop⟩, after, by simp⟩
    | .openParen =>
      match takeSum stop after with
      | .error e => .error e
      | .ok ⟨node, rest, h⟩ =>
        match rest with
        | [] => .error ⟨.unclosedParen, t.span⟩
        | u :: tail =>
          if u.kind == .closeParen then .ok ⟨node, tail, by simp at h ⊢; omega⟩
          else .error ⟨.unclosedParen, t.span⟩
    | .name =>
      match hu : after with
      | [] => .ok ⟨.ref t.text [] ⟨t.start, t.stop⟩, [], by simp⟩
      | u :: tail =>
        match u.kind with
        | .openParen =>
          match takeArguments stop t u tail with
          | .error e => .error e
          | .ok ⟨node, rest, h⟩ => .ok ⟨node, rest, by simp; omega⟩
        | .openBracket =>
          match takeIndexed stop t u tail with
          | .error e => .error e
          | .ok ⟨node, rest, h⟩ => .ok ⟨node, rest, by simp; omega⟩
        | _ => .ok ⟨.ref t.text [] ⟨t.start, t.stop⟩, u :: tail, by simp⟩
    | .finish => .error ⟨.endOfText, t.span⟩
    | _ => .error ⟨.unexpectedToken t.text, t.span⟩
termination_by (tokens.length, 0)
decreasing_by all_goals (simp [Prod.lex_def]; try omega)

/-- A call, from the token after the opening parenthesis `opening` on. -/
def takeArguments (stop : Nat) (name opening : Token) (tokens : List Token) :
    Except Mistake (Parsed Expr tokens) :=
  match tokens with
  | [] => .error ⟨.endOfText, spanAt stop []⟩
  | t :: after =>
    if t.kind == .closeParen then finishCall name opening [] (t :: after)
    else
      match takeItems stop (t :: after) with
      | .error e => .error e
      | .ok ⟨args, rest, h⟩ =>
        match finishCall name opening args rest with
        | .error e => .error e
        | .ok ⟨node, tail, h2⟩ => .ok ⟨node, tail, by omega⟩
termination_by (tokens.length, 8)

/-- One or more sums, separated by commas. -/
def takeItems (stop : Nat) (tokens : List Token) : Except Mistake (Parsed (List Expr) tokens) :=
  match takeSum stop tokens with
  | .error e => .error e
  | .ok ⟨first, rest, h⟩ =>
    match hr : rest with
    | [] => .ok ⟨[first], [], h⟩
    | t :: after =>
      if t.kind == .comma then
        match takeItems stop after with
        | .error e => .error e
        | .ok ⟨more, tail, h2⟩ => .ok ⟨first :: more, tail, by simp at h; omega⟩
      else .ok ⟨[first], t :: after, h⟩
termination_by (tokens.length, 7)
decreasing_by all_goals (simp [Prod.lex_def]; try simp at h; try omega)

end

/-- The expression that tokens make up; the text ends at `stop`. -/
def ofTokens (stop : Nat) (tokens : List Token) : Except Mistake Expr := do
  match tokens with
  | [] => .error ⟨.empty, spanAt stop []⟩
  | _ =>
    let ⟨node, rest, _⟩ ← takeSum stop tokens
    match rest with
    | [] => .ok node
    | t :: _ =>
      match t.kind with
      | .closeParen | .closeBracket => .error ⟨.unopened t.text, t.span⟩
      | _ => .error ⟨.unexpectedToken t.text, t.span⟩

/-- The expression that a whole text holds. -/
def parse (text : String) : Except Unreadable Expr := do
  let cs := text.toList
  (ofTokens cs.length (← tokensFrom 0 cs)).mapError .mistake

end EnergyGraph.Expr
