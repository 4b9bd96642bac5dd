-- What the places of a node say about the text. The parts of a node stand in it one after the
-- other. The stretch of a node is read as that node if its parentheses match, as they do for all
-- nodes but operators, and is not read at all if they do not.
import EnergyGraph.Proofs.NodeTokens

namespace EnergyGraph

namespace Expr

/-! ## The parts of a node in order -/

section

variable {ts us : List Token} {category : Category} {e : Expr} {lo hi : ℕ}

/-- A stretch from the first of some tokens through the last lies where they are placed. -/
theorem Spans.inOrder {s : Span} (hs : Spans ts s) (h : Placed lo ts hi) : InOrder lo [s] hi := by
  obtain ⟨first, hfirst, hstart⟩ := Option.map_eq_some_iff.mp hs.start
  obtain ⟨tail, rfl⟩ := List.head?_eq_some_iff.mp hfirst
  obtain ⟨last, hlast, hstop⟩ := Option.map_eq_some_iff.mp hs.stop
  obtain ⟨hle, hlt, htail⟩ := h
  have hfrom : Placed first.start (first :: tail) hi := ⟨le_refl _, hlt, htail⟩
  obtain ⟨hle', hlt', hhi⟩ := hfrom.of_mem (List.mem_map_of_mem (List.mem_of_getLast? hlast))
  obtain ⟨start, stop⟩ := s
  obtain rfl : first.start = start := hstart
  obtain rfl : last.stop = stop := hstop
  exact ⟨hle, lt_of_le_of_lt hle' hlt', hhi⟩

theorem Derives.inOrder (h : Derives category ts e) (hts : Placed lo ts hi) :
    InOrder lo [e.span] hi := by
  obtain ⟨before, mid, after, rfl, -, hspan, -⟩ := h.framed
  exact hspan.inOrder (hts.of_isInfix ⟨before, after, by rw [List.append_assoc]⟩)

/-- Where each part of a list lies within its tokens, the parts come in order. -/
theorem Listed.inOrder {α : Type} {tokensOf : α → List Token} {spanOf : α → Span} {parts : List α}
    (h : Listed tokensOf parts ts)
    (hparts : ∀ p ∈ parts, ∀ lo hi, Placed lo (tokensOf p) hi → InOrder lo [spanOf p] hi)
    (hts : Placed lo ts hi) : InOrder lo (parts.map spanOf) hi := by
  induction h generalizing lo with
  | last => exact hparts _ List.mem_cons_self lo hi hts
  | @more part parts comma us hcomma hlisted ih =>
    obtain ⟨hpart, hparts⟩ := List.forall_mem_cons.mp hparts
    obtain ⟨mid, hfirst, hrest⟩ := placed_append.mp hts
    have hpast : Placed mid us hi := hrest.of_isInfix (List.suffix_cons comma us).isInfix
    have hboth : InOrder lo ([spanOf part] ++ parts.map spanOf) hi :=
      inOrder_append.mpr ⟨mid, hpart lo mid hfirst, ih hparts hpast⟩
    exact hboth

theorem inOrder_operands {t : Token} {left right : Expr} {category' : Category}
    (hleft : Derives category ts left) (hright : Derives category' us right)
    (hts : Placed lo (ts ++ t :: us) hi) :
    InOrder left.span.start [left.span, right.span] right.span.stop := by
  obtain ⟨mid, hts, hus⟩ := placed_append.mp hts
  have hus : Placed mid us hi := hus.of_isInfix (List.suffix_cons t us).isInfix
  obtain ⟨-, hlt, hle⟩ := hleft.inOrder hts
  obtain ⟨hle', hlt', -⟩ := hright.inOrder hus
  exact ⟨le_refl _, hlt, le_trans hle hle', hlt', le_refl _⟩

theorem placed_between {name opening closing : Token}
    (h : Placed lo (name :: opening :: (ts ++ [closing])) hi) :
    Placed name.start ts closing.stop := by
  obtain ⟨-, hname, hopening, hlt, hrest⟩ := h
  obtain ⟨mid, hts, hle, hlt', -⟩ := placed_append.mp hrest
  have hinner := hts.le
  refine hts.mono ?_ ?_
  · exact le_of_lt (lt_of_lt_of_le hname (le_trans hopening (le_of_lt hlt)))
  · exact le_of_lt (lt_of_le_of_lt hle hlt')

/-- The parts right below a node stand inside of it, from left to right and without overlap. -/
theorem Derives.children_inOrder (h : Derives category ts e) (hts : Placed lo ts hi) :
    InOrder e.span.start ((Part.expr e).children.map Part.span) e.span.stop := by
  induction h generalizing lo hi with
  | product _ ih | power _ ih | signed _ ih | operand _ ih => exact ih hts
  | added _ _ hleft hright _ _ | multiplied _ _ hleft hright _ _ | raised _ hleft hright _ _ =>
    exact inOrder_operands hleft hright hts
  | plus _ _ ih => exact ih (hts.of_isInfix (List.suffix_cons _ _).isInfix)
  | minus _ h _ =>
    obtain ⟨-, hlt, hrest⟩ := hts
    obtain ⟨hle, hlt', -⟩ := h.inOrder hrest
    exact ⟨le_trans (le_of_lt hlt) hle, hlt', le_refl _⟩
  | number hkind | name hkind => exact le_of_lt hts.2.1
  | indexed _ _ _ hlisted hparts =>
    have hindices := hlisted.inOrder (fun p hp lo hi h => (hparts p hp).derives.inOrder h)
      (placed_between hts)
    rw [Part.children, List.map_map, List.map_map]
    exact hindices
  | @parenthesized opening closing us e _ _ _ ih =>
    exact ih (hts.of_isInfix ⟨[opening], [closing], rfl⟩)
  | reduction _ _ _ _ _ hbody _ => exact hbody.inOrder (placed_between hts)
  | call _ _ _ _ _ hlisted hparts _ =>
    have hargs := hlisted.inOrder (fun p hp lo hi h => (hparts p hp).inOrder h) (placed_between hts)
    rw [Part.children, List.map_map, List.map_map]
    exact hargs

end

/-! ## Tokens at other places -/

section

variable {ts us vs : List Token} {t u : Token} {category : Category} {e : Expr}

theorem exists_append_of_forall₂ {α β : Type} {R : α → β → Prop} {xs ys : List α} {zs : List β}
    (h : List.Forall₂ R (xs ++ ys) zs) :
    ∃ xs' ys', zs = xs' ++ ys' ∧ List.Forall₂ R xs xs' ∧ List.Forall₂ R ys ys' := by
  induction xs generalizing zs with
  | nil => exact ⟨[], zs, rfl, .nil, h⟩
  | cons x xs ih =>
    cases h with
    | cons hfirst hrest =>
      obtain ⟨xs', ys', rfl, hxs, hys⟩ := ih hrest
      exact ⟨_ :: xs', ys', rfl, .cons hfirst hxs, hys⟩

theorem exists_between_of_forall₂ {α β : Type} {R : α → β → Prop} {x : α} {xs ys : List α}
    {zs : List β} (h : List.Forall₂ R (xs ++ x :: ys) zs) :
    ∃ xs' x' ys', zs = xs' ++ x' :: ys' ∧ List.Forall₂ R xs xs' ∧ R x x' ∧
      List.Forall₂ R ys ys' := by
  obtain ⟨xs', _, rfl, hxs, hrest⟩ := exists_append_of_forall₂ h
  cases hrest with
  | cons hx hys => exact ⟨xs', _, _, rfl, hxs, hx, hys⟩

theorem parens_congr (h : List.Forall₂ SameWord ts us) : parens ts = parens us := by
  induction h with
  | nil => rfl
  | cons hfirst _ ih =>
    unfold parens at ih ⊢
    rw [List.filterMap_cons, List.filterMap_cons, hfirst.1, ih]

/-- A list moves if its parts do. -/
theorem Listed.moved {α β : Type} {tokensOf : α → List Token} {valueOf : α → β} {Fits : α → Prop}
    {parts : List α} (h : Listed tokensOf parts ts)
    (hparts : ∀ p ∈ parts, ∀ us, List.Forall₂ SameWord (tokensOf p) us →
      ∃ q, tokensOf q = us ∧ Fits q ∧ valueOf q = valueOf p)
    (hsame : List.Forall₂ SameWord ts us) :
    ∃ parts', Listed tokensOf parts' us ∧ (∀ q ∈ parts', Fits q) ∧
      parts'.map valueOf = parts.map valueOf := by
  induction h generalizing us with
  | @last part =>
    obtain ⟨q, rfl, hfits, hvalue⟩ := hparts part List.mem_cons_self us hsame
    exact ⟨[q], .last, by simpa using hfits, by simpa using hvalue⟩
  | @more part parts comma vs hcomma _ ih =>
    obtain ⟨hpart, hparts⟩ := List.forall_mem_cons.mp hparts
    obtain ⟨xs, comma', ys, rfl, hxs, hsamecomma, hys⟩ := exists_between_of_forall₂ hsame
    obtain ⟨q, rfl, hfits, hvalue⟩ := hpart xs hxs
    obtain ⟨parts', hlisted, hall, hvalues⟩ := ih hparts hys
    refine ⟨q :: parts', .more (hsamecomma.1 ▸ hcomma) hlisted,
      List.forall_mem_cons.mpr ⟨hfits, hall⟩, ?_⟩
    rw [List.map_cons, List.map_cons, hvalue, hvalues]

theorem IsIndex.moved {i : Index} (h : IsIndex t i) (hsame : SameWord t u) :
    ∃ i', IsIndex u i' ∧ i'.bare = i.bare := by
  obtain ⟨hkind, htext⟩ := hsame
  cases h with
  | symbol h => exact ⟨_, .symbol (hkind ▸ h), by rw [Index.bare, Index.bare, htext]⟩
  | literal h => exact ⟨_, .literal (hkind ▸ h), rfl⟩

theorem exists_operands_moved {op : Operator} {left right : Expr} {category' : Category}
    (hsame : List.Forall₂ SameWord (ts ++ t :: us) vs)
    (hleft : ∀ {xs}, List.Forall₂ SameWord ts xs →
      ∃ e', Derives category xs e' ∧ e'.bare = left.bare)
    (hright : ∀ {xs}, List.Forall₂ SameWord us xs →
      ∃ e', Derives category' xs e' ∧ e'.bare = right.bare) :
    ∃ xs t' ys left' right', vs = xs ++ t' :: ys ∧ t.kind = t'.kind ∧ Derives category xs left' ∧
      Derives category' ys right' ∧
        (binaryNode op left' right').bare = (binaryNode op left right).bare := by
  obtain ⟨xs, t', ys, rfl, hxs, ht, hys⟩ := exists_between_of_forall₂ hsame
  obtain ⟨left', hleft, hl⟩ := hleft hxs
  obtain ⟨right', hright, hr⟩ := hright hys
  refine ⟨xs, t', ys, left', right', rfl, ht.1, hleft, hright, ?_⟩
  rw [binaryNode, binaryNode, bare, bare, hl, hr]

theorem exists_bracketed_moved {name opening closing : Token}
    (hsame : List.Forall₂ SameWord (name :: opening :: (ts ++ [closing])) vs) :
    ∃ name' opening' xs closing', vs = name' :: opening' :: (xs ++ [closing']) ∧
      SameWord name name' ∧ opening.kind = opening'.kind ∧ closing.kind = closing'.kind ∧
        List.Forall₂ SameWord ts xs := by
  cases hsame with
  | cons hname hrest =>
    cases hrest with
    | cons hopening hrest =>
      obtain ⟨xs, closing', ys, rfl, hxs, hclosing, hys⟩ := exists_between_of_forall₂ hrest
      cases hys
      exact ⟨_, _, xs, closing', rfl, hname, hopening.1, hclosing.1, hxs⟩

/-- Tokens with the same words derive the same expression, up to its places. -/
theorem Derives.moved (h : Derives category ts e) (hsame : List.Forall₂ SameWord ts vs) :
    ∃ e', Derives category vs e' ∧ e'.bare = e.bare := by
  induction h generalizing vs with
  | product _ ih =>
    obtain ⟨e', h, he⟩ := ih hsame
    exact ⟨e', .product h, he⟩
  | power _ ih =>
    obtain ⟨e', h, he⟩ := ih hsame
    exact ⟨e', .power h, he⟩
  | signed _ ih =>
    obtain ⟨e', h, he⟩ := ih hsame
    exact ⟨e', .signed h, he⟩
  | operand _ ih =>
    obtain ⟨e', h, he⟩ := ih hsame
    exact ⟨e', .operand h, he⟩
  | added hop hsum _ _ ihleft ihright =>
    obtain ⟨xs, t', ys, left', right', rfl, ht, hleft, hright, he⟩ :=
      exists_operands_moved hsame ihleft ihright
    exact ⟨_, .added (ht ▸ hop) hsum hleft hright, he⟩
  | multiplied hop hproduct _ _ ihleft ihright =>
    obtain ⟨xs, t', ys, left', right', rfl, ht, hleft, hright, he⟩ :=
      exists_operands_moved hsame ihleft ihright
    exact ⟨_, .multiplied (ht ▸ hop) hproduct hleft hright, he⟩
  | raised hop _ _ ihbase ihexponent =>
    obtain ⟨xs, t', ys, base', exponent', rfl, ht, hbase, hexponent, he⟩ :=
      exists_operands_moved hsame ihbase ihexponent
    exact ⟨_, .raised (ht ▸ hop) hbase hexponent, he⟩
  | plus hop _ ih =>
    cases hsame with
    | cons ht hrest =>
      obtain ⟨e', h, he⟩ := ih hrest
      exact ⟨e', .plus (ht.1 ▸ hop) h, he⟩
  | minus hop _ ih =>
    cases hsame with
    | cons ht hrest =>
      obtain ⟨e', h, he⟩ := ih hrest
      exact ⟨_, .minus (ht.1 ▸ hop) h, by rw [bare, bare, he]⟩
  | number hkind =>
    cases hsame with
    | cons ht hrest =>
      cases hrest
      exact ⟨_, .number (ht.1 ▸ hkind), rfl⟩
  | name hkind =>
    cases hsame with
    | cons ht hrest =>
      cases hrest
      exact ⟨_, .name (ht.1 ▸ hkind), by rw [bare, bare, ht.2]⟩
  | @indexed _ _ _ _ parts hname hopening hclosing hlisted hparts =>
    obtain ⟨name', opening', xs, closing', rfl, hn, ho, hc, hxs⟩ := exists_bracketed_moved hsame
    have hmoved : ∀ p ∈ parts, ∀ us, List.Forall₂ SameWord [p.1] us →
        ∃ q : Token × Index, [q.1] = us ∧ IsIndex q.1 q.2 ∧ q.2.bare = p.2.bare := by
      intro p hp us hus
      cases hus with
      | cons ht hrest =>
        cases hrest
        obtain ⟨i', hi', hbare⟩ := (hparts p hp).moved ht
        exact ⟨(_, i'), rfl, hi', hbare⟩
    obtain ⟨parts', hlisted', hparts', hvalues⟩ := hlisted.moved hmoved hxs
    refine ⟨_, .indexed (hn.1 ▸ hname) (ho ▸ hopening) (hc ▸ hclosing) hlisted' hparts', ?_⟩
    rw [bare, bare, List.map_map, List.map_map, hn.2]
    exact congrArg (fun is => Expr.ref _ is _) hvalues
  | @parenthesized opening closing us e hopening hclosing _ ih =>
    cases hsame with
    | cons ho hrest =>
      obtain ⟨xs, closing', ys, rfl, hxs, hc, hys⟩ := exists_between_of_forall₂ hrest
      cases hys
      obtain ⟨e', h, he⟩ := ih hxs
      exact ⟨e', .parenthesized (ho.1 ▸ hopening) (hc.1 ▸ hclosing) h, he⟩
  | reduction hname hopening hclosing htext hsymbol _ ih =>
    obtain ⟨name', opening', xs, closing', rfl, hn, ho, hc, hxs⟩ := exists_bracketed_moved hsame
    obtain ⟨body', hbody, hb⟩ := ih hxs
    refine ⟨_, .reduction (hn.1 ▸ hname) (ho ▸ hopening) (hc ▸ hclosing) (hn.2 ▸ htext) hsymbol
      hbody, ?_⟩
    rw [bare, bare, hb]
  | @call _ _ _ _ _ parts hname hopening hclosing htext hcount hlisted _ ih =>
    obtain ⟨name', opening', xs, closing', rfl, hn, ho, hc, hxs⟩ := exists_bracketed_moved hsame
    have hmoved : ∀ p ∈ parts, ∀ us, List.Forall₂ SameWord p.1 us →
        ∃ q : List Token × Expr, q.1 = us ∧ Derives .sum q.1 q.2 ∧ q.2.bare = p.2.bare := by
      intro p hp us hus
      obtain ⟨e', h, he⟩ := ih p hp hus
      exact ⟨(us, e'), rfl, h, he⟩
    obtain ⟨parts', hlisted', hparts', hvalues⟩ := hlisted.moved hmoved hxs
    have hlength : parts'.length = parts.length := by
      simpa only [List.length_map] using congrArg List.length hvalues
    refine ⟨_, .call (hn.1 ▸ hname) (ho ▸ hopening) (hc ▸ hclosing) (hn.2 ▸ htext)
      (hlength.symm ▸ hcount) hlisted' hparts', ?_⟩
    rw [bare, bare, bareAll_eq, bareAll_eq, List.map_map, List.map_map]
    exact congrArg (fun args => Expr.call _ args _) hvalues

end

/-! ## The stretches of a text -/

/-- The characters of a text from one place up to another one. -/
def slice (text : String) (s : Span) : String :=
  String.ofList ((text.toList.drop s.start).take (s.stop - s.start))

theorem toList_slice {text : String} {s : Span} :
    (slice text s).toList = (text.toList.drop s.start).take (s.stop - s.start) :=
  String.toList_ofList

/-- The parentheses of a text match. -/
def Matched (text : String) : Prop := Nested (text.toList.filterMap paren?)

theorem matched_iff {text : String} {tokens : List Token}
    (htokens : tokensFrom 0 text.toList = .ok tokens) :
    Matched text ↔ Nested (parens tokens) := by
  unfold Matched
  rw [parens_tokensFrom htokens]

/-- The stretch of a part has tokens. If its parentheses match they derive the part, and so it is
when the part is no operator. -/
theorem exists_tokensFrom_slice {text : String} {tokens : List Token} {e : Expr} {p : Part}
    (htokens : tokensFrom 0 text.toList = .ok tokens) (h : Derives .sum tokens e)
    (hp : p ∈ e.walk) : ∃ us, tokensFrom 0 (slice text p.span).toList = .ok us ∧
      ((∃ e', Derives .sum us e' ∧ e'.bare = p.asExpr.bare) ∨
        p.asExpr.isOperator = true ∧ ¬ Matched (slice text p.span)) := by
  obtain ⟨ts, category, hinfix, hpart⟩ := h.hasPart hp
  obtain ⟨before, mid, after, rfl, -, (hspan : Spans mid p.span), hmid⟩ := hpart.framed
  obtain ⟨left, right, rfl⟩ := hinfix
  have hsplit : left ++ (before ++ (mid ++ after)) ++ right =
      (left ++ before) ++ (mid ++ (after ++ right)) := by simp
  rw [hsplit] at htokens
  obtain ⟨us, hus, hsame⟩ := exists_tokensFrom_cut htokens hspan
  rw [← toList_slice] at hus
  refine ⟨us, hus, hmid.imp (fun hmid => hmid.moved hsame) (And.imp_right fun hparens => ?_)⟩
  rwa [matched_iff hus, ← parens_congr hsame]

end Expr

namespace Formula

open EnergyGraph.Expr

/-- Every part of a formula stands in its text, with the parts below it in order inside of it. The
text of a part is a formula as well, with that part for its expression, if its parentheses match.
Those of an operator need not: its text ends where its operands do, and an operand leaves out the
parentheses around it. It is no formula then. -/
theorem slice_of_part {text : String} {arity : Arity} {f : Formula}
    (h : ofText text arity = .ok f) {p : Part} (hp : p ∈ f.body.walk) :
    InOrder 0 [p.span] text.toList.length ∧
      InOrder p.span.start (p.children.map Part.span) p.span.stop ∧
        ((Matched (slice text p.span) ∧ ∃ g, ofText (slice text p.span) .unspecified = .ok g ∧
            g.body.bare = p.asExpr.bare) ∨
          (¬ Matched (slice text p.span) ∧ p.asExpr.isOperator = true ∧
            ∃ m, ofText (slice text p.span) .unspecified = .error (.mistake m))) := by
  have hparse := parse_of_ofText h
  unfold parse at hparse
  dsimp only at hparse
  obtain ⟨tokens, htokens, hparse⟩ := bind_eq_ok.mp hparse
  have hderives : Derives .sum tokens f.body := ofTokens_eq_ok.mp (mapError_eq_ok.mp hparse)
  have hplaced := placed_text htokens
  obtain ⟨ts, category, hinfix, hpart⟩ := hderives.hasPart hp
  have hts := hplaced.of_isInfix hinfix
  refine ⟨hpart.inOrder hts, ?_, ?_⟩
  · cases p with
    | expr e => exact hpart.children_inOrder hts
    | index i => exact le_of_lt (hpart.inOrder hts).2.1
  · obtain ⟨us, hus, hread⟩ := exists_tokensFrom_slice htokens hderives hp
    have hparse := parse_of_tokensFrom hus
    cases hresult : ofTokens (slice text p.span).toList.length us with
    | ok e' =>
      rw [hresult] at hparse
      have hgot : Derives .sum us e' := ofTokens_eq_ok.mp hresult
      have hmatched : Matched (slice text p.span) := (matched_iff hus).mpr hgot.nested
      refine Or.inl ⟨hmatched, _, ofText_unspecified hparse, ?_⟩
      rcases hread with ⟨e'', he'', hbare⟩ | ⟨-, hnot⟩
      · rw [hgot.unique he'', hbare]
      · exact absurd hmatched hnot
    | error m =>
      rcases hread with ⟨e'', he'', -⟩ | ⟨hoperator, hnot⟩
      · rw [ofTokens_eq_ok.mpr he''] at hresult
        cases hresult
      · refine Or.inr ⟨hnot, hoperator, m, ?_⟩
        unfold ofText
        rw [hparse, hresult]
        rfl

/-- The sum in `(a + b) * c`. -/
def factorSum : Expr := .binary .add (.ref "a" [] ⟨1, 2⟩) (.ref "b" [] ⟨5, 6⟩) ⟨1, 6⟩

/-- The product in `(a + b) * c`. -/
def sumProduct : Expr := .binary .mul factorSum (.ref "c" [] ⟨10, 11⟩) ⟨1, 11⟩

/-- The stretch of a product does not start with the parenthesis of its first factor, and is no
formula; that of the factor is one. -/
theorem slice_of_part_product :
    ofText "(a + b) * c" .unspecified = .ok ⟨"(a + b) * c", sumProduct, .unspecified⟩ ∧
      slice "(a + b) * c" sumProduct.span = "a + b) * c" ∧
        (∃ m, ofText "a + b) * c" .unspecified = .error (.mistake m)) ∧
          slice "(a + b) * c" factorSum.span = "a + b" ∧
            ∃ g, ofText "a + b" .unspecified = .ok g ∧ g.body.bare = factorSum.bare := by
  have htokens : ofTokens 0 [⟨.openParen, "(", 0, 1⟩, ⟨.name, "a", 1, 2⟩,
      ⟨.operator .add, "+", 3, 4⟩, ⟨.name, "b", 5, 6⟩, ⟨.closeParen, ")", 6, 7⟩,
      ⟨.operator .mul, "*", 8, 9⟩, ⟨.name, "c", 10, 11⟩] = .ok sumProduct := by cbv
  have h : ofText "(a + b) * c" .unspecified = .ok ⟨"(a + b) * c", sumProduct, .unspecified⟩ :=
    ofText_unspecified (parse_of_derives (by with_unfolding_all rfl) (ofTokens_eq_ok.mp htokens))
  have hproduct : slice "(a + b) * c" sumProduct.span = "a + b) * c" := by decide
  have hsum : slice "(a + b) * c" factorSum.span = "a + b" := by decide
  have hmem : Part.expr sumProduct ∈ sumProduct.walk := by
    rw [walk_eq]
    exact List.mem_cons_self
  have hmem' : Part.expr factorSum ∈ sumProduct.walk := by
    rw [sumProduct, walk_binary, walk_eq]
    exact List.mem_cons_of_mem _ (List.mem_append_left _ List.mem_cons_self)
  have hopen : ¬ Matched "a + b) * c" := by
    unfold Matched Nested
    decide
  have hclosed : Matched "a + b" := by
    unfold Matched Nested
    decide
  refine ⟨h, hproduct, ?_, hsum, ?_⟩
  · obtain ⟨-, -, ⟨hmatched, -⟩ | ⟨-, -, m, hm⟩⟩ := slice_of_part h hmem
    · exact absurd (hproduct ▸ hmatched) hopen
    · exact ⟨m, hproduct ▸ hm⟩
  · obtain ⟨-, -, ⟨-, hg⟩ | ⟨hnot, -⟩⟩ := slice_of_part h hmem'
    · exact hsum ▸ hg
    · exact absurd hclosed (hsum ▸ hnot)

end Formula

end EnergyGraph
