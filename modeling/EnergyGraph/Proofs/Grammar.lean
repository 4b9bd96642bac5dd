-- The grammar of expressions, as a judgement on lists of tokens:
--   sum     := product (('+' | '-') product)*
--   product := power (('*' | '/') power)*
--   power   := signed ('^' power)?
--   signed  := ('-' | '+') signed | operand
--   operand := number | name | name '[' index (',' index)* ']' | name '(' sum (',' sum)* ')'
--            | '(' sum ')'
-- A repetition is written with the new part at its end, which is the side to which the
-- expression grows.
import EnergyGraph.Expr.Parser
import Mathlib.Data.List.Basic

namespace EnergyGraph.Expr

/-! ## The judgement -/

inductive Category where
  | sum
  | product
  | power
  | signed
  | operand
deriving DecidableEq

/-- Parts one after the other, with commas between them. -/
inductive Listed {α : Type} (tokensOf : α → List Token) : List α → List Token → Prop
  | last {part} : Listed tokensOf [part] (tokensOf part)
  | more {part parts comma ts} (hcomma : comma.kind = .comma) (h : Listed tokensOf parts ts) :
    Listed tokensOf (part :: parts) (tokensOf part ++ comma :: ts)

/-- A token in an index list: a symbol or an integer. -/
inductive IsIndex : Token → Index → Prop
  | symbol {t} (h : t.kind = .name) : IsIndex t (.symbol t.text ⟨t.start, t.stop⟩)
  | literal {t n} (h : t.kind = .number (.int n)) : IsIndex t (.literal n ⟨t.start, t.stop⟩)

/-- Tokens that are an expression of a category. -/
inductive Derives : Category → List Token → Expr → Prop
  | product {ts e} (h : Derives .product ts e) : Derives .sum ts e
  | added {ts us t op left right} (hop : t.kind = .operator op) (hsum : op = .add ∨ op = .sub)
    (hleft : Derives .sum ts left) (hright : Derives .product us right) :
    Derives .sum (ts ++ t :: us) (binaryNode op left right)
  | power {ts e} (h : Derives .power ts e) : Derives .product ts e
  | multiplied {ts us t op left right} (hop : t.kind = .operator op)
    (hproduct : op = .mul ∨ op = .div) (hleft : Derives .product ts left)
    (hright : Derives .power us right) : Derives .product (ts ++ t :: us) (binaryNode op left right)
  | signed {ts e} (h : Derives .signed ts e) : Derives .power ts e
  | raised {ts us t base exponent} (hop : t.kind = .operator .pow) (hbase : Derives .signed ts base)
    (hexponent : Derives .power us exponent) :
    Derives .power (ts ++ t :: us) (binaryNode .pow base exponent)
  | operand {ts e} (h : Derives .operand ts e) : Derives .signed ts e
  | plus {t ts e} (hop : t.kind = .operator .add) (h : Derives .signed ts e) :
    Derives .signed (t :: ts) e
  | minus {t ts e} (hop : t.kind = .operator .sub) (h : Derives .signed ts e) :
    Derives .signed (t :: ts) (.negate e ⟨t.start, e.span.stop⟩)
  | number {t value} (h : t.kind = .number value) :
    Derives .operand [t] (.literal value ⟨t.start, t.stop⟩)
  | name {t} (h : t.kind = .name) : Derives .operand [t] (.ref t.text [] ⟨t.start, t.stop⟩)
  | indexed {name opening closing ts} {parts : List (Token × Index)} (hname : name.kind = .name)
    (hopening : opening.kind = .openBracket) (hclosing : closing.kind = .closeBracket)
    (hlisted : Listed (fun p => [p.1]) parts ts) (hparts : ∀ p ∈ parts, IsIndex p.1 p.2) :
    Derives .operand (name :: opening :: (ts ++ [closing]))
      (.ref name.text (parts.map (·.2)) ⟨name.start, closing.stop⟩)
  | parenthesized {opening closing ts e} (hopening : opening.kind = .openParen)
    (hclosing : closing.kind = .closeParen) (h : Derives .sum ts e) :
    Derives .operand (opening :: (ts ++ [closing])) e
  /-- A fold over a symbol that starts with a letter, of exactly one argument. -/
  | reduction {name opening closing ts body fold symbol} (hname : name.kind = .name)
    (hopening : opening.kind = .openParen) (hclosing : closing.kind = .closeParen)
    (htext : name.text = fold.name ++ "_" ++ symbol) (hsymbol : isReductionSymbol symbol = true)
    (h : Derives .sum ts body) :
    Derives .operand (name :: opening :: (ts ++ [closing]))
      (.reduction fold symbol body ⟨name.start, closing.stop⟩)
  /-- A built-in function of as many arguments as it takes. -/
  | call {name opening closing ts function} {parts : List (List Token × Expr)}
    (hname : name.kind = .name) (hopening : opening.kind = .openParen)
    (hclosing : closing.kind = .closeParen) (htext : name.text = function.name)
    (hcount : function.accepts parts.length = true) (hlisted : Listed (·.1) parts ts)
    (hparts : ∀ p ∈ parts, Derives .sum p.1 p.2) :
    Derives .operand (name :: opening :: (ts ++ [closing]))
      (.call function (parts.map (·.2)) ⟨name.start, closing.stop⟩)

/-! ## Lists with commas -/

section

variable {α : Type} {tokensOf : α → List Token} {part : α} {parts : List α} {ts : List Token}

theorem Listed.ne_nil (h : Listed tokensOf parts ts) : parts ≠ [] := by
  cases h <;> exact List.cons_ne_nil _ _

/-- A list starts as its first part does. -/
theorem Listed.head (h : Listed tokensOf (part :: parts) ts) : ∃ us, ts = tokensOf part ++ us := by
  cases h with
  | last => exact ⟨[], (List.append_nil _).symm⟩
  | more _ _ => exact ⟨_, rfl⟩

end

/-! ## First tokens -/

/-- Tokens with which an operand starts. -/
def Token.Kind.startsOperand : Token.Kind → Bool
  | .number _ | .name | .openParen => true
  | _ => false

/-- Tokens with which an expression starts. -/
def Token.Kind.startsExpr (kind : Token.Kind) : Bool :=
  kind.startsOperand || (sumOperator? kind).isSome

theorem startsExpr_of_startsOperand {kind : Token.Kind} (h : kind.startsOperand = true) :
    kind.startsExpr = true := by
  unfold Token.Kind.startsExpr
  rw [h, Bool.true_or]

theorem Derives.operand_head {ts : List Token} {e : Expr} (h : Derives .operand ts e) :
    ∃ t us, ts = t :: us ∧ t.kind.startsOperand = true := by
  cases h with
  | number hkind => exact ⟨_, _, rfl, by rw [hkind]; rfl⟩
  | name hkind => exact ⟨_, _, rfl, by rw [hkind]; rfl⟩
  | indexed hname => exact ⟨_, _, rfl, by rw [hname]; rfl⟩
  | parenthesized hopening => exact ⟨_, _, rfl, by rw [hopening]; rfl⟩
  | reduction hname => exact ⟨_, _, rfl, by rw [hname]; rfl⟩
  | call hname => exact ⟨_, _, rfl, by rw [hname]; rfl⟩

theorem Derives.head {category : Category} {ts : List Token} {e : Expr}
    (h : Derives category ts e) : ∃ t us, ts = t :: us ∧ t.kind.startsExpr = true := by
  induction h with
  | product _ ih | power _ ih | signed _ ih => exact ih
  | added _ _ _ _ ih _ | multiplied _ _ _ _ ih _ | raised _ _ _ ih _ =>
    obtain ⟨t, us, rfl, ht⟩ := ih
    exact ⟨t, _, rfl, ht⟩
  | plus hop _ _ | minus hop _ _ => exact ⟨_, _, rfl, by rw [hop]; rfl⟩
  | operand h _ =>
    obtain ⟨t, us, rfl, ht⟩ := h.operand_head
    exact ⟨t, us, rfl, startsExpr_of_startsOperand ht⟩
  | number hkind => exact ⟨_, _, rfl, by rw [hkind]; rfl⟩
  | name hkind => exact ⟨_, _, rfl, by rw [hkind]; rfl⟩
  | indexed hname => exact ⟨_, _, rfl, by rw [hname]; rfl⟩
  | parenthesized hopening => exact ⟨_, _, rfl, by rw [hopening]; rfl⟩
  | reduction hname => exact ⟨_, _, rfl, by rw [hname]; rfl⟩
  | call hname => exact ⟨_, _, rfl, by rw [hname]; rfl⟩

/-! ## The meaning of a call -/

theorem toList_foldName_append {fold : Fold} {symbol : String} :
    (fold.name ++ "_" ++ symbol).toList = fold.name.toList ++ '_' :: symbol.toList := by
  simp [String.toList_append]

/-- A text that has an underscore is what stands before the first one, and what follows it. -/
theorem eq_of_dropWhile {cs tail : List Char} {c : Char}
    (h : cs.dropWhile (· != '_') = c :: tail) : cs = cs.takeWhile (· != '_') ++ '_' :: tail := by
  have hc : c = '_' := by
    have hnot := List.head_dropWhile_not (p := (· != '_')) (l := cs)
      (by rw [h]; exact List.cons_ne_nil c tail)
    simpa [h] using hnot
  calc cs = cs.takeWhile (· != '_') ++ cs.dropWhile (· != '_') :=
        List.takeWhile_append_dropWhile.symm
    _ = cs.takeWhile (· != '_') ++ '_' :: tail := by rw [h, hc]

/-- A name is that of a reduction if it is the name of a fold, an underscore and a symbol. -/
theorem reductionName?_eq_some {name symbol : String} {fold : Fold} :
    reductionName? name = some (fold, symbol) ↔ name = fold.name ++ "_" ++ symbol := by
  rw [← String.toList_inj, toList_foldName_append]
  unfold reductionName?
  dsimp only
  constructor
  · intro h
    split at h
    · cases h
    · rename_i c tail hdrop
      have hname := eq_of_dropWhile hdrop
      split at h
      · rename_i hhead
        cases h
        have hfold : name.toList.takeWhile (· != '_') = Fold.sum.name.toList := by
          rw [Fold.name, ← eq_of_beq hhead, String.toList_ofList]
        rw [← hfold, String.toList_ofList]
        exact hname
      · split at h
        · rename_i hhead
          cases h
          have hfold : name.toList.takeWhile (· != '_') = Fold.prod.name.toList := by
            rw [Fold.name, ← eq_of_beq hhead, String.toList_ofList]
          rw [← hfold, String.toList_ofList]
          exact hname
        · cases h
  · intro h
    rw [h]
    cases fold <;> simp [Fold.name]

theorem reductionName?_builtin (function : Builtin) : reductionName? function.name = none := by
  cases function <;> decide

theorem ofName?_eq_some {name : String} {function : Builtin} :
    Builtin.ofName? name = some function ↔ name = function.name := by
  constructor
  · intro h
    unfold Builtin.ofName? at h
    have hname := List.find?_some h
    exact (eq_of_beq hname).symm
  · rintro rfl
    exact Builtin.ofName?_name function

/-- A call is a reduction or that of a built-in function, and nothing else. -/
theorem callNode_eq_ok {name : Token} {span : Span} {args : List Expr} {e : Expr} :
    callNode name span args = .ok e ↔
      (∃ fold symbol body, name.text = fold.name ++ "_" ++ symbol ∧
        isReductionSymbol symbol = true ∧ args = [body] ∧ e = .reduction fold symbol body span) ∨
      ∃ function : Builtin, name.text = function.name ∧ function.accepts args.length = true ∧
        e = .call function args span := by
  unfold callNode
  constructor
  · intro h
    split at h
    · rename_i fold symbol hname
      refine Or.inl ⟨fold, symbol, ?_⟩
      split at h
      · rename_i hsymbol
        split at h
        · rename_i body
          exact ⟨body, reductionName?_eq_some.mp hname, hsymbol, rfl, (Except.ok.inj h).symm⟩
        · cases h
      · cases h
    · split at h
      · cases h
      · rename_i function hfunction
        refine Or.inr ⟨function, ofName?_eq_some.mp hfunction, ?_⟩
        split at h
        · rename_i hcount
          exact ⟨hcount, (Except.ok.inj h).symm⟩
        · cases h
  · rintro (⟨fold, symbol, body, hname, hsymbol, rfl, rfl⟩ | ⟨function, hname, hcount, rfl⟩)
    · simp only [reductionName?_eq_some.mpr hname, hsymbol, if_true]
    · simp only [hname, reductionName?_builtin, Builtin.ofName?_name, hcount, if_true]

end EnergyGraph.Expr
