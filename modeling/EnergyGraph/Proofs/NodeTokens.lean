-- The tokens of a node. They are those from its first place to its last one. An expression may
-- have more tokens than its node: the parentheses around it, and plus signs. So what stands between
-- the places of an operator, which are those of its operands, may have parentheses without their
-- partners. If all of them match, the tokens derive the node.
import EnergyGraph.Proofs.RoundTrip
import EnergyGraph.Proofs.TokenPlaces
import EnergyGraph.Proofs.Walking

namespace EnergyGraph.Expr

/-! ## Matching parentheses -/

/-- How many parentheses are open after some more of them, where none is closed that is not open. -/
def depth? : ℕ → List Bool → Option ℕ
  | d, [] => some d
  | d, true :: rest => depth? (d + 1) rest
  | 0, false :: _ => none
  | d + 1, false :: rest => depth? d rest

/-- Every parenthesis that is opened is closed, and the other way around. -/
def Nested (ps : List Bool) : Prop := depth? 0 ps = some 0

section

variable {d k n : ℕ} {xs ys : List Bool}

theorem depth?_append : depth? d (xs ++ ys) = (depth? d xs).bind (depth? · ys) := by
  induction xs generalizing d with
  | nil => rfl
  | cons x xs ih =>
    cases x with
    | true => exact ih
    | false =>
      cases d with
      | zero => rfl
      | succ d => exact ih

/-- Parentheses that were open before stay open. -/
theorem depth?_add (h : depth? d xs = some k) : depth? (d + n) xs = some (k + n) := by
  induction xs generalizing d with
  | nil =>
    cases h
    rfl
  | cons x xs ih =>
    cases x with
    | true =>
      have hrest := ih h
      rwa [Nat.add_right_comm] at hrest
    | false =>
      cases d with
      | zero => cases h
      | succ d =>
        rw [Nat.add_right_comm]
        exact ih h

theorem Nested.depth? (h : Nested xs) : Expr.depth? d xs = some d := by
  have hdepth := depth?_add (n := d) h
  rwa [Nat.zero_add] at hdepth

theorem nested_nil : Nested [] := rfl

theorem Nested.append (hx : Nested xs) (hy : Nested ys) : Nested (xs ++ ys) := by
  unfold Nested
  rw [depth?_append, hx.depth?, Option.bind_some, hy.depth?]

theorem Nested.between (h : Nested xs) : Nested (true :: (xs ++ [false])) := by
  unfold Nested
  change Expr.depth? 1 (xs ++ [false]) = some 0
  rw [depth?_append, h.depth?]
  rfl

theorem Nested.of_append (h : Nested (xs ++ ys)) (hx : Nested xs) : Nested ys := by
  unfold Nested at h
  rwa [depth?_append, hx.depth?, Option.bind_some] at h

theorem depth?_opened : depth? d (List.replicate n true) = some (d + n) := by
  induction n generalizing d with
  | zero => rfl
  | succ n ih =>
    rw [List.replicate_succ]
    change depth? (d + 1) _ = _
    rw [ih, Nat.add_right_comm, Nat.add_assoc]

/-- Where two texts match one after the other, nothing that the first needs in front of it and
nothing that the second needs behind it is missing. -/
theorem Nested.alone {opened closed : ℕ} (h : Nested (xs ++ ys))
    (hx : Nested (List.replicate opened true ++ xs))
    (hy : Nested (ys ++ List.replicate closed false)) : opened = 0 ∧ closed = 0 := by
  unfold Nested at hx h
  rw [depth?_append, depth?_opened, Option.bind_some] at hx
  rw [depth?_append] at h
  obtain ⟨k, hk, hky⟩ := Option.bind_eq_some_iff.mp h
  have hsum : Expr.depth? (0 + opened) xs = some (k + opened) := depth?_add hk
  rw [hx, Option.some_inj] at hsum
  obtain ⟨rfl, rfl⟩ : k = 0 ∧ opened = 0 := by omega
  have hclosed : Nested (List.replicate closed false) := hy.of_append hky
  cases closed with
  | zero => exact ⟨rfl, rfl⟩
  | succ closed => cases hclosed

end

/-! ## Parentheses of derivations -/

section

variable {ts us : List Token} {t : Token} {category : Category} {e : Expr}

@[simp]
theorem parens_append : parens (ts ++ us) = parens ts ++ parens us := List.filterMap_append

theorem parens_cons_none (h : t.kind.paren? = none) : parens (t :: ts) = parens ts :=
  List.filterMap_cons_none h

theorem parens_cons_some {b : Bool} (h : t.kind.paren? = some b) :
    parens (t :: ts) = b :: parens ts :=
  List.filterMap_cons_some h

theorem parens_singleton (h : t.kind.paren? = none) : parens [t] = [] := parens_cons_none h

theorem parens_operator {op : Operator} (h : t.kind = .operator op) :
    parens (t :: ts) = parens ts :=
  parens_cons_none (by rw [h]; rfl)

theorem nested_between {opening closing : Token} (hopening : opening.kind = .openParen)
    (hclosing : closing.kind = .closeParen) (h : Nested (parens ts)) :
    Nested (parens (opening :: (ts ++ [closing]))) := by
  rw [parens_cons_some (b := true) (by rw [hopening]; rfl), parens_append,
    parens_cons_some (b := false) (by rw [hclosing]; rfl)]
  exact h.between

theorem Listed.nested {α : Type} {tokensOf : α → List Token} {parts : List α}
    (h : Listed tokensOf parts ts) (hparts : ∀ p ∈ parts, Nested (parens (tokensOf p))) :
    Nested (parens ts) := by
  induction h with
  | last => exact hparts _ List.mem_cons_self
  | more hcomma _ ih =>
    obtain ⟨hpart, hparts⟩ := List.forall_mem_cons.mp hparts
    rw [parens_append, parens_cons_none (by rw [hcomma]; rfl)]
    exact hpart.append (ih hparts)

theorem IsIndex.paren? {i : Index} (h : IsIndex t i) : t.kind.paren? = none := by
  cases h with
  | symbol hkind => rw [hkind]; rfl
  | literal hkind => rw [hkind]; rfl

/-- The parentheses of an expression match. -/
theorem Derives.nested (h : Derives category ts e) : Nested (parens ts) := by
  induction h with
  | product _ ih | power _ ih | signed _ ih | operand _ ih => exact ih
  | added hop _ _ _ ihleft ihright | multiplied hop _ _ _ ihleft ihright
  | raised hop _ _ ihleft ihright =>
    rw [parens_append, parens_operator hop]
    exact ihleft.append ihright
  | plus hop _ ih | minus hop _ ih => rwa [parens_operator hop]
  | number hkind | name hkind =>
    rw [parens_singleton (by rw [hkind]; rfl)]
    exact nested_nil
  | indexed hname hopening hclosing hlisted hparts =>
    have hall := hlisted.nested fun p hp => by
      rw [parens_singleton (hparts p hp).paren?]
      exact nested_nil
    rw [parens_cons_none (by rw [hname]; rfl), parens_cons_none (by rw [hopening]; rfl),
      parens_append, parens_singleton (by rw [hclosing]; rfl), List.append_nil]
    exact hall
  | parenthesized hopening hclosing _ ih => exact nested_between hopening hclosing ih
  | reduction hname hopening hclosing _ _ _ ih =>
    rw [parens_cons_none (by rw [hname]; rfl)]
    exact nested_between hopening hclosing ih
  | call hname hopening hclosing _ _ hlisted _ ih =>
    rw [parens_cons_none (by rw [hname]; rfl)]
    exact nested_between hopening hclosing (hlisted.nested ih)

end

/-! ## What stands around a node -/

section

variable {ts us before mid after : List Token} {t : Token} {category : Category} {e : Expr}

/-- An expression of any category is a sum. -/
theorem Derives.sum (h : Derives category ts e) : Derives .sum ts e := by
  cases category with
  | sum => exact h
  | product => exact .product h
  | power => exact .product (.power h)
  | signed => exact h.sum_of_signed
  | operand => exact Derives.sum_of_signed (.operand h)

/-- A plus sign in front may be left out. -/
theorem Derives.of_plus (h : Derives category (t :: ts) e) (hplus : t.kind = .operator .add) :
    Derives category ts e := by
  generalize hall : t :: ts = all at h
  induction h generalizing ts with
  | product _ ih => exact .product (ih hall)
  | power _ ih => exact .power (ih hall)
  | signed _ ih => exact .signed (ih hall)
  | operand _ ih => exact .operand (ih hall)
  | added hop hsum hleft hright ih _ =>
    obtain ⟨u, vs, rfl, -⟩ := hleft.head
    cases hall
    exact .added hop hsum (ih rfl) hright
  | multiplied hop hproduct hleft hright ih _ =>
    obtain ⟨u, vs, rfl, -⟩ := hleft.head
    cases hall
    exact .multiplied hop hproduct (ih rfl) hright
  | raised hop hbase hexponent ih _ =>
    obtain ⟨u, vs, rfl, -⟩ := hbase.head
    cases hall
    exact .raised hop (ih rfl) hexponent
  | plus _ h _ =>
    cases hall
    exact h
  | minus hkind _ _ | number hkind | name hkind | indexed hkind | parenthesized hkind
  | reduction hkind | call hkind =>
    cases hall
    rw [hplus] at hkind
    cases hkind

theorem Derives.of_pluses (h : Derives category (before ++ ts) e)
    (hbefore : ∀ t ∈ before, t.kind = .operator .add) : Derives category ts e := by
  induction before with
  | nil => exact h
  | cons t before ih =>
    obtain ⟨ht, hbefore⟩ := List.forall_mem_cons.mp hbefore
    exact ih (h.of_plus ht) hbefore

/-- What may stand around the tokens of a node, besides the node: opening parentheses and plus
signs before them, and closing parentheses after them. -/
structure Around (before after : List Token) : Prop where
  before : ∀ t ∈ before, t.kind = .openParen ∨ t.kind = .operator .add
  after : ∀ t ∈ after, t.kind = .closeParen

theorem around_nil : Around [] [] := ⟨nofun, nofun⟩

/-- There are parentheses before a node, or nothing but plus signs. -/
theorem Around.parens_before (h : Around before after) : ∃ opened,
    parens before = List.replicate opened true ∧
      (opened = 0 → ∀ t ∈ before, t.kind = .operator .add) := by
  have hbefore := h.before
  clear h
  induction before with
  | nil => exact ⟨0, rfl, nofun⟩
  | cons t before ih =>
    obtain ⟨ht, hbefore⟩ := List.forall_mem_cons.mp hbefore
    obtain ⟨opened, hopened, hpluses⟩ := ih hbefore
    rcases ht with hopen | hplus
    · refine ⟨opened + 1, ?_, nofun⟩
      rw [parens_cons_some (b := true) (by rw [hopen]; rfl), hopened, List.replicate_succ]
    · refine ⟨opened, ?_, fun hnone => List.forall_mem_cons.mpr ⟨hplus, hpluses hnone⟩⟩
      rw [parens_operator hplus, hopened]

theorem Around.parens_after (h : Around before after) :
    parens after = List.replicate after.length false := by
  have hafter := h.after
  clear h
  induction after with
  | nil => rfl
  | cons t after ih =>
    obtain ⟨ht, hafter⟩ := List.forall_mem_cons.mp hafter
    rw [parens_cons_some (b := false) (by rw [ht]; rfl), ih hafter, List.length_cons,
      List.replicate_succ]

/-- From the first token of one stretch through the last of another one. -/
theorem Spans.join {s s' : Span} (h : Spans ts s) (h' : Spans us s') :
    Spans (ts ++ (mid ++ us)) ⟨s.start, s'.stop⟩ := by
  obtain ⟨t, ht, hstart⟩ := Option.map_eq_some_iff.mp h.start
  obtain ⟨u, hu, hstop⟩ := Option.map_eq_some_iff.mp h'.stop
  refine ⟨?_, ?_⟩
  · rw [List.head?_append, ht]
    exact congrArg some hstart
  · rw [List.getLast?_append, List.getLast?_append, hu]
    exact congrArg some hstop

theorem spans_bracketed {name opening closing : Token} :
    Spans (name :: opening :: (ts ++ [closing])) ⟨name.start, closing.stop⟩ := by
  have hfirst : Spans [name] name.place := ⟨rfl, rfl⟩
  have hlast : Spans [closing] closing.place := ⟨rfl, rfl⟩
  have hjoined : Spans ([name] ++ ((opening :: ts) ++ [closing])) ⟨name.start, closing.stop⟩ :=
    hfirst.join hlast
  exact hjoined

/-- An operator, with or without an operand on its left. -/
def isOperator : Expr → Bool
  | .binary .. | .negate .. => true
  | _ => false

/-- The tokens of a node in the middle of those of an expression. They are those of the node and
nothing else, unless their parentheses do not match. -/
def Framed (ts : List Token) (e : Expr) : Prop :=
  ∃ before mid after, ts = before ++ (mid ++ after) ∧ Around before after ∧ Spans mid e.span ∧
    (Derives .sum mid e ∨ e.isOperator = true ∧ ¬ Nested (parens mid))

theorem framed_self (h : Derives category ts e) (hspan : Spans ts e.span) : Framed ts e :=
  ⟨[], ts, [], by rw [List.nil_append, List.append_nil], around_nil, hspan, Or.inl h.sum⟩

/-- Parentheses on the inner sides of the operands match only if there are none on the outer
sides. -/
theorem framed_binary {op : Operator} {left right : Expr} (hop : t.kind = .operator op)
    (hleft : Framed ts left) (hright : Framed us right) (hts : Nested (parens ts))
    (hus : Nested (parens us))
    (h : Derives category (ts ++ t :: us) (binaryNode op left right)) :
    Framed (ts ++ t :: us) (binaryNode op left right) := by
  obtain ⟨before, lmid, inner, rfl, hbefore, hlspan, -⟩ := hleft
  obtain ⟨inner', rmid, after, rfl, hafter, hrspan, -⟩ := hright
  have hspan : Spans (lmid ++ ((inner ++ t :: inner') ++ rmid)) (binaryNode op left right).span :=
    hlspan.join hrspan
  have hsplit : before ++ (lmid ++ inner) ++ t :: (inner' ++ (rmid ++ after)) =
      before ++ ((lmid ++ ((inner ++ t :: inner') ++ rmid)) ++ after) := by simp
  rw [hsplit] at h ⊢
  refine ⟨before, _, after, rfl, ⟨hbefore.before, hafter.after⟩, hspan, ?_⟩
  rw [or_iff_not_imp_right, not_and_not_right]
  intro hmatch
  obtain ⟨opened, hopened, hpluses⟩ := hbefore.parens_before
  have hmid : Nested (parens (lmid ++ inner) ++ parens (inner' ++ rmid)) := by
    have hmid := hmatch rfl
    simpa [parens_operator hop] using hmid
  rw [parens_append, hopened] at hts
  rw [← List.append_assoc, parens_append, hafter.parens_after] at hus
  obtain ⟨hnone, hlength⟩ := hmid.alone hts hus
  obtain rfl : after = [] := List.eq_nil_of_length_eq_zero hlength
  rw [List.append_nil] at h
  exact (h.of_pluses (hpluses hnone)).sum

theorem framed_minus (hop : t.kind = .operator .sub) (hoperand : Framed ts e)
    (hts : Nested (parens ts))
    (h : Derives category (t :: ts) (.negate e ⟨t.start, e.span.stop⟩)) :
    Framed (t :: ts) (.negate e ⟨t.start, e.span.stop⟩) := by
  obtain ⟨before, mid, after, rfl, haround, hspan, -⟩ := hoperand
  have hsign : Spans [t] t.place := ⟨rfl, rfl⟩
  have hwhole : Spans ([t] ++ (before ++ mid)) ⟨t.start, e.span.stop⟩ := hsign.join hspan
  refine ⟨[], [t] ++ (before ++ mid), after, by simp, ⟨nofun, haround.after⟩, hwhole, ?_⟩
  rw [or_iff_not_imp_right, not_and_not_right]
  intro hmatch
  have hmid : Nested ([] ++ parens (before ++ mid)) := by
    have hmid := hmatch rfl
    rwa [List.singleton_append, parens_operator hop] at hmid
  rw [← List.append_assoc, parens_append, haround.parens_after] at hts
  have hnothing : Nested (List.replicate 0 true ++ []) := nested_nil
  obtain ⟨-, hlength⟩ := hmid.alone hnothing hts
  obtain rfl : after = [] := List.eq_nil_of_length_eq_zero hlength
  rw [List.append_nil] at h
  exact h.sum

theorem Derives.framed (h : Derives category ts e) : Framed ts e := by
  induction h with
  | product _ ih | power _ ih | signed _ ih | operand _ ih => exact ih
  | added hop hsum hleft hright ihleft ihright =>
    exact framed_binary hop ihleft ihright hleft.nested hright.nested
      (.added hop hsum hleft hright)
  | multiplied hop hproduct hleft hright ihleft ihright =>
    exact framed_binary hop ihleft ihright hleft.nested hright.nested
      (.multiplied hop hproduct hleft hright)
  | raised hop hbase hexponent ihbase ihexponent =>
    exact framed_binary hop ihbase ihexponent hbase.nested hexponent.nested
      (.raised hop hbase hexponent)
  | plus hop _ ih =>
    obtain ⟨before, mid, after, rfl, haround, hmid⟩ := ih
    refine ⟨_ :: before, mid, after, rfl, ⟨?_, haround.after⟩, hmid⟩
    exact List.forall_mem_cons.mpr ⟨Or.inr hop, haround.before⟩
  | minus hop h ih => exact framed_minus hop ih h.nested (.minus hop h)
  | number hkind => exact framed_self (.number hkind) ⟨rfl, rfl⟩
  | name hkind => exact framed_self (.name hkind) ⟨rfl, rfl⟩
  | indexed hname hopening hclosing hlisted hparts =>
    exact framed_self (.indexed hname hopening hclosing hlisted hparts) spans_bracketed
  | @parenthesized opening closing us e hopening hclosing _ ih =>
    obtain ⟨before, mid, after, rfl, haround, hmid⟩ := ih
    refine ⟨opening :: before, mid, after ++ [closing], by simp, ⟨?_, ?_⟩, hmid⟩
    · exact List.forall_mem_cons.mpr ⟨Or.inl hopening, haround.before⟩
    · exact List.forall_mem_append.mpr ⟨haround.after, by simpa using hclosing⟩
  | reduction hname hopening hclosing htext hsymbol hbody =>
    exact framed_self (.reduction hname hopening hclosing htext hsymbol hbody) spans_bracketed
  | call hname hopening hclosing htext hcount hlisted hparts =>
    exact framed_self (.call hname hopening hclosing htext hcount hlisted hparts) spans_bracketed

end

/-! ## The tokens of a part -/

/-- The expression that a part is: a position is a name or a number. -/
def Part.asExpr : Part → Expr
  | .expr e => e
  | .index (.symbol name span) => .ref name [] span
  | .index (.literal n span) => .literal (.int n) span

def Part.span (p : Part) : Span := p.asExpr.span

section

variable {ts us : List Token} {category : Category} {e : Expr} {p : Part}

theorem IsIndex.derives {t : Token} {i : Index} (h : IsIndex t i) :
    Derives .operand [t] (Part.index i).asExpr := by
  cases h with
  | symbol hkind => exact .name hkind
  | literal hkind => exact .number hkind

theorem Listed.isInfix {α : Type} {tokensOf : α → List Token} {parts : List α}
    (h : Listed tokensOf parts ts) {part : α} (hpart : part ∈ parts) : tokensOf part <:+: ts := by
  induction h with
  | last =>
    obtain rfl := List.mem_singleton.mp hpart
    exact List.infix_rfl
  | more _ _ ih =>
    rcases List.mem_cons.mp hpart with rfl | hpart
    · exact (List.prefix_append _ _).isInfix
    · exact (ih hpart).trans ((List.suffix_cons _ _).isInfix.trans (List.suffix_append _ _).isInfix)

theorem infix_bracketed {name opening closing : Token} :
    ts <:+: name :: opening :: (ts ++ [closing]) :=
  ⟨[name, opening], [closing], rfl⟩

/-- A part is what some of the tokens derive that stand one after the other. -/
def HasPart (ts : List Token) (p : Part) : Prop :=
  ∃ us category, us <:+: ts ∧ Derives category us p.asExpr

theorem Derives.hasPart_self (h : Derives category ts e) : HasPart ts (.expr e) :=
  ⟨ts, category, List.infix_rfl, h⟩

theorem HasPart.mono (h : HasPart us p) (hus : us <:+: ts) : HasPart ts p := by
  obtain ⟨vs, category, hvs, h⟩ := h
  exact ⟨vs, category, hvs.trans hus, h⟩

theorem hasPart_binary {op : Operator} {t : Token} {left right : Expr}
    (h : Derives category (ts ++ t :: us) (binaryNode op left right))
    (hleft : p ∈ left.walk → HasPart ts p) (hright : p ∈ right.walk → HasPart us p)
    (hp : p ∈ (binaryNode op left right).walk) : HasPart (ts ++ t :: us) p := by
  rw [binaryNode, walk_binary, List.mem_cons, List.mem_append] at hp
  rcases hp with rfl | hp | hp
  · exact h.hasPart_self
  · exact (hleft hp).mono (List.prefix_append _ _).isInfix
  · exact (hright hp).mono ((List.suffix_cons t us).trans (List.suffix_append _ _)).isInfix

theorem Derives.hasPart (h : Derives category ts e) (hp : p ∈ e.walk) : HasPart ts p := by
  induction h with
  | product _ ih | power _ ih | signed _ ih | operand _ ih => exact ih hp
  | added hop hsum hleft hright ihleft ihright =>
    exact hasPart_binary (.added hop hsum hleft hright) ihleft ihright hp
  | multiplied hop hproduct hleft hright ihleft ihright =>
    exact hasPart_binary (.multiplied hop hproduct hleft hright) ihleft ihright hp
  | raised hop hbase hexponent ihbase ihexponent =>
    exact hasPart_binary (.raised hop hbase hexponent) ihbase ihexponent hp
  | plus _ _ ih => exact (ih hp).mono (List.suffix_cons _ _).isInfix
  | minus hop h ih =>
    rw [walk_negate] at hp
    rcases List.mem_cons.mp hp with rfl | hp
    · exact (Derives.minus hop h).hasPart_self
    · exact (ih hp).mono (List.suffix_cons _ _).isInfix
  | number hkind =>
    rw [walk_literal] at hp
    obtain rfl := List.mem_singleton.mp hp
    exact (Derives.number hkind).hasPart_self
  | name hkind =>
    rw [walk_ref] at hp
    obtain rfl := List.mem_singleton.mp hp
    exact (Derives.name hkind).hasPart_self
  | indexed hname hopening hclosing hlisted hparts =>
    rw [walk_ref, List.map_map] at hp
    rcases List.mem_cons.mp hp with rfl | hp
    · exact (Derives.indexed hname hopening hclosing hlisted hparts).hasPart_self
    · obtain ⟨part, hpart, rfl⟩ := List.mem_map.mp hp
      exact ⟨[part.1], .operand, (hlisted.isInfix hpart).trans infix_bracketed,
        (hparts part hpart).derives⟩
  | @parenthesized opening closing us e _ _ _ ih => exact (ih hp).mono ⟨[opening], [closing], rfl⟩
  | reduction hname hopening hclosing htext hsymbol hbody ih =>
    rw [walk_reduction] at hp
    rcases List.mem_cons.mp hp with rfl | hp
    · exact (Derives.reduction hname hopening hclosing htext hsymbol hbody).hasPart_self
    · exact (ih hp).mono infix_bracketed
  | call hname hopening hclosing htext hcount hlisted hparts ih =>
    rw [walk_call] at hp
    rcases List.mem_cons.mp hp with rfl | hp
    · exact (Derives.call hname hopening hclosing htext hcount hlisted hparts).hasPart_self
    · obtain ⟨arg, harg, hp⟩ := List.mem_flatMap.mp hp
      obtain ⟨part, hpart, rfl⟩ := List.mem_map.mp harg
      exact (ih part hpart hp).mono ((hlisted.isInfix hpart).trans infix_bracketed)

end

end EnergyGraph.Expr
