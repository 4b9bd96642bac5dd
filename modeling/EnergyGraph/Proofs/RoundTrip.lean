-- Reading undoes writing. The text of a legible expression is read as the expression itself, up
-- to places in the text and up to signs: a literal with a minus sign is read as the negation of
-- a literal without.
import EnergyGraph.Proofs.Legible

namespace EnergyGraph

def Index.bare : Index → Index
  | .symbol name _ => .symbol name ⟨0, 0⟩
  | .literal n _ => .literal n ⟨0, 0⟩

namespace Expr

/-! ## Expressions without their places -/

mutual

/-- An expression without the places in the text that it was read from. -/
@[simp]
def bare : Expr → Expr
  | .literal value _ => .literal value ⟨0, 0⟩
  | .ref name indices _ => .ref name (indices.map Index.bare) ⟨0, 0⟩
  | .reduction fold symbol body _ => .reduction fold symbol body.bare ⟨0, 0⟩
  | .call function args _ => .call function (bareAll args) ⟨0, 0⟩
  | .binary op left right _ => .binary op left.bare right.bare ⟨0, 0⟩
  | .negate operand _ => .negate operand.bare ⟨0, 0⟩

@[simp]
def bareAll : List Expr → List Expr
  | [] => []
  | e :: rest => e.bare :: bareAll rest

end

mutual

/-- Literals with a minus sign become negations of literals without one. -/
@[simp]
def explicit : Expr → Expr
  | .literal value span =>
    if value.isNegative then .negate (.literal value.magnitude span) span else .literal value span
  | .ref name indices span => .ref name indices span
  | .reduction fold symbol body span => .reduction fold symbol body.explicit span
  | .call function args span => .call function (explicitAll args) span
  | .binary op left right span => .binary op left.explicit right.explicit span
  | .negate operand span => .negate operand.explicit span

@[simp]
def explicitAll : List Expr → List Expr
  | [] => []
  | e :: rest => e.explicit :: explicitAll rest

end

theorem bareAll_eq (args : List Expr) : bareAll args = args.map bare := by
  induction args with
  | nil => rfl
  | cons e rest ih => rw [bareAll, ih, List.map_cons]

theorem explicitAll_eq (args : List Expr) : explicitAll args = args.map explicit := by
  induction args with
  | nil => rfl
  | cons e rest ih => rw [explicitAll, ih, List.map_cons]

theorem texts_eq (args : List Expr) : texts args = args.map text := by
  induction args with
  | nil => rfl
  | cons e rest ih => rw [texts, ih, List.map_cons]

/-- Expressions without signs in their literals are left as they are. -/
theorem Legible.explicit_eq {e : Expr} (h : Legible Unsigned e) : e.explicit = e := by
  induction h with
  | literal h => rw [explicit, h.2, if_neg (by simp)]
  | ref => rw [explicit]
  | reduction _ _ _ ih => rw [explicit, ih]
  | call _ _ _ ih => rw [explicit, explicitAll_eq, List.map_congr_left ih, List.map_id']
  | binary _ _ ihleft ihright => rw [explicit, ihleft, ihright]
  | negate _ ih => rw [explicit, ih]

/-! ## What may follow an expression -/

/-- The end of the text, a blank, a comma or a closing bracket. -/
def Closes (rest : List Char) : Prop :=
  ∀ c after, rest = c :: after → c ∈ [' ', ')', ',', ']']

section

variable {rest : List Char}

theorem closes_cons {c : Char} (h : c ∈ [' ', ')', ',', ']']) : Closes (c :: rest) := by
  rintro _ _ ⟨⟩
  exact h

theorem Closes.ending (h : Closes rest) : Ending rest := by
  intro before
  cases rest with
  | nil => rfl
  | cons c after =>
    have hc := h c after rfl
    have hchars : (Text.isAlphanumeric c || c == '.' || c == '_') = false ∧
        (c == '+' || c == '-') = false := by
      simp only [List.mem_cons, List.not_mem_nil, or_false] at hc
      rcases hc with rfl | rfl | rfl | rfl <;> decide
    rw [numberTail, hchars.1, hchars.2]
    rfl

theorem nameEnds_cons {c : Char} (h : isNameChar c = false) : NameEnds (c :: rest) := by
  rintro _ _ ⟨⟩
  exact h

theorem Closes.nameEnds (h : Closes rest) : NameEnds rest := by
  intro c after hrest
  have hc := h c after hrest
  simp only [List.mem_cons, List.not_mem_nil, or_false] at hc
  rcases hc with rfl | rfl | rfl | rfl <;> decide

end

/-! ## Parts of texts -/

section

variable {start : ℕ} {cs rest : List Char} {ts : List Token}

/-- A text between brackets. -/
theorem lexes_between {left right : Char} {opening closing : Token.Kind}
    (hleft : mark? left = some opening) (hright : mark? right = some closing)
    (h : Lexes (start + 1) cs (right :: rest) ts) :
    ∃ t u, t.kind = opening ∧ u.kind = closing ∧
      Lexes start (left :: (cs ++ [right])) rest (t :: (ts ++ [u])) := by
  refine ⟨⟨opening, String.singleton left, start, start + 1⟩,
    ⟨closing, String.singleton right, start + 1 + cs.length, start + 1 + cs.length + 1⟩, rfl, rfl, ?_⟩
  have hopening : Lexes start [left] ((cs ++ [right]) ++ rest)
      [⟨opening, String.singleton left, start, start + 1⟩] := lexes_mark hleft
  exact hopening.append (h.append (lexes_mark hright))

theorem lexes_parens (h : Lexes (start + 1) cs (')' :: rest) ts) :
    ∃ t u, t.kind = .openParen ∧ u.kind = .closeParen ∧
      Lexes start ('(' :: (cs ++ [')'])) rest (t :: (ts ++ [u])) :=
  lexes_between rfl rfl h

theorem lexes_brackets (h : Lexes (start + 1) cs (']' :: rest) ts) :
    ∃ t u, t.kind = .openBracket ∧ u.kind = .closeBracket ∧
      Lexes start ('[' :: (cs ++ [']'])) rest (t :: (ts ++ [u])) :=
  lexes_between rfl rfl h

/-- Texts with commas between them are lexed as lists of what each is lexed as. -/
theorem lexes_listed {α β : Type} {tokensOf : β → List Token} {R : α → β → Prop} {text : α → String}
    (items : List α) (hne : items ≠ [])
    (hitems : ∀ a ∈ items, ∀ start rest, Closes rest →
      ∃ b, Lexes start (text a).toList rest (tokensOf b) ∧ R a b)
    (start : ℕ) (rest : List Char) (hrest : Closes rest) :
    ∃ parts ts, Lexes start (", ".intercalate (items.map text)).toList rest ts ∧
      Listed tokensOf parts ts ∧ List.Forall₂ R items parts := by
  induction items generalizing start with
  | nil => exact absurd rfl hne
  | cons a items ih =>
    obtain ⟨ha, hitems⟩ := List.forall_mem_cons.mp hitems
    cases items with
    | nil =>
      obtain ⟨b, hb, hR⟩ := ha start rest hrest
      refine ⟨[b], tokensOf b, ?_, .last, .cons hR .nil⟩
      rwa [List.map_singleton, String.intercalate_singleton]
    | cons a' items =>
      have htext : (", ".intercalate ((a :: a' :: items).map text)).toList =
          (text a).toList ++ ([','] ++ ([' '] ++
            (", ".intercalate ((a' :: items).map text)).toList)) := by
        rw [List.map_cons, List.map_cons, String.intercalate_cons_cons, String.toList_append,
          String.toList_append, List.append_assoc]
        rfl
      obtain ⟨b, hb, hR⟩ := ha start
        (([','] ++ ([' '] ++ (", ".intercalate ((a' :: items).map text)).toList)) ++ rest)
        (closes_cons (by simp))
      obtain ⟨parts, ts, hts, hlisted, hall⟩ := ih (List.cons_ne_nil _ _) hitems
        (start + (text a).toList.length + 1 + 1)
      rw [htext]
      exact ⟨b :: parts, _, hb.append ((lexes_mark rfl).append (lexes_blank.append hts)),
        .more rfl hlisted, .cons hR hall⟩

end

/-! ## Expressions read again -/

/-- Wherever its text stands, an expression is read as itself, with its signs explicit. -/
def Rereads (e : Expr) : Prop :=
  ∀ start rest, Closes rest → ∃ ts e', Lexes start e.text.toList rest ts ∧
    Derives .signed ts e' ∧ e'.bare = e.explicit.bare

theorem Derives.sum_of_signed {ts : List Token} {e : Expr} (h : Derives .signed ts e) :
    Derives .sum ts e :=
  .product (.power (.signed h))

/-- Signed operands stand on either side of any operator. -/
theorem Derives.binary {op : Operator} {t : Token} (hop : t.kind = .operator op)
    {ts us : List Token} {left right : Expr} (hleft : Derives .signed ts left)
    (hright : Derives .signed us right) :
    Derives .sum (ts ++ t :: us) (binaryNode op left right) := by
  cases op with
  | add => exact .added hop (Or.inl rfl) hleft.sum_of_signed (.power (.signed hright))
  | sub => exact .added hop (Or.inr rfl) hleft.sum_of_signed (.power (.signed hright))
  | mul => exact .product (.multiplied hop (Or.inl rfl) (.power (.signed hleft)) (.signed hright))
  | div => exact .product (.multiplied hop (Or.inr rfl) (.power (.signed hleft)) (.signed hright))
  | pow => exact .product (.power (.raised hop hleft (.signed hright)))

theorem mark?_symbol (op : Operator) : mark? op.symbol = some (.operator op) := by
  cases op <;> rfl

theorem rereads_literal {value : Number} {span : Span} (h : value.Printable) :
    Rereads (.literal value span) := by
  intro start rest hrest
  obtain ⟨cs, htext, hnumeral⟩ := numeral_text h
  rw [text, htext, explicit]
  cases hsign : value.isNegative with
  | false =>
    rw [Number.magnitude_eq h hsign] at hnumeral
    exact ⟨_, _, lexes_numeral hnumeral hrest.ending, .operand (.number rfl), rfl⟩
  | true =>
    exact ⟨_, _, (lexes_mark rfl).append (lexes_numeral hnumeral hrest.ending),
      .minus rfl (.operand (.number rfl)), rfl⟩

theorem rereads_index {i : Index} (h : i.Legible) (start : ℕ) (rest : List Char)
    (hrest : Closes rest) : ∃ p : Token × Index, Lexes start i.text.toList rest [p.1] ∧
      IsIndex p.1 p.2 ∧ p.2.bare = i.bare := by
  cases i with
  | symbol name span =>
    exact ⟨(⟨.name, name, start, start + name.toList.length⟩,
      .symbol name ⟨start, start + name.toList.length⟩), lexes_name h hrest.nameEnds,
      .symbol rfl, rfl⟩
  | literal n span =>
    obtain ⟨hpos, hsize⟩ := h
    obtain ⟨k, rfl⟩ := Int.eq_ofNat_of_zero_le hpos
    have htext : (Index.literal k span).text.toList = Nat.toDigits 10 k := Nat.toList_repr
    rw [htext]
    exact ⟨(_, .literal k ⟨start, start + (Nat.toDigits 10 k).length⟩),
      lexes_numeral (numeral_toDigits hsize) hrest.ending, .literal rfl, rfl⟩

theorem rereads_ref {name : String} {indices : List Index} {span : Span} (hname : IsName name)
    (hindices : ∀ i ∈ indices, i.Legible) : Rereads (.ref name indices span) := by
  intro start rest hrest
  rw [explicit, bare]
  cases indices with
  | nil =>
    rw [text]
    exact ⟨_, _, lexes_name hname hrest.nameEnds, .operand (.name rfl), rfl⟩
  | cons i more =>
    have htext : (Expr.ref name (i :: more) span).text.toList = name.toList ++
        ('[' :: ((", ".intercalate ((i :: more).map Index.text)).toList ++ [']'])) := by
      rw [text, String.toList_append, String.toList_append, String.toList_append,
        List.append_assoc, List.append_assoc]
      · rfl
      · exact List.cons_ne_nil i more
    obtain ⟨parts, ts, hts, hlisted, hall⟩ := lexes_listed (i :: more) (List.cons_ne_nil i more)
      (fun i hi => rereads_index (hindices i hi)) (start + name.toList.length + 1) (']' :: rest)
      (closes_cons (by simp))
    obtain ⟨t, u, ht, hu, hbrackets⟩ := lexes_brackets hts
    have hbare := map_eq_of_forall₂ (hall.imp fun _ _ h => h.2)
    rw [htext]
    refine ⟨_, _, (lexes_name hname (nameEnds_cons (by decide))).append hbrackets,
      .operand (.indexed rfl ht hu hlisted ?_), ?_⟩
    · intro p hp
      obtain ⟨_, _, h⟩ := exists_of_mem_right hall hp
      exact h.1
    · rw [bare, List.map_map]
      exact congrArg (Expr.ref name · ⟨0, 0⟩) hbare

theorem rereads_reduction {fold : Fold} {symbol : String} {body : Expr} {span : Span}
    (hname : IsName (fold.name ++ "_" ++ symbol)) (hsymbol : isReductionSymbol symbol = true)
    (h : Rereads body) : Rereads (.reduction fold symbol body span) := by
  intro start rest hrest
  have htext : (Expr.reduction fold symbol body span).text.toList =
      (fold.name ++ "_" ++ symbol).toList ++ ('(' :: (body.text.toList ++ [')'])) := by
    rw [text]
    generalize fold.name ++ "_" ++ symbol = name
    simp [String.toList_append]
  obtain ⟨ts, e', hts, hderives, hbare⟩ := h (start + (fold.name ++ "_" ++ symbol).toList.length + 1)
    (')' :: rest) (closes_cons (by simp))
  obtain ⟨t, u, ht, hu, hbrackets⟩ := lexes_parens hts
  rw [htext]
  refine ⟨_, _, (lexes_name hname (nameEnds_cons (by decide))).append hbrackets,
    .operand (.reduction rfl ht hu rfl hsymbol hderives.sum_of_signed), ?_⟩
  rw [explicit, bare, bare, hbare]

theorem rereads_call {function : Builtin} {args : List Expr} {span : Span}
    (hname : IsName function.name) (hcount : function.accepts args.length = true)
    (h : ∀ a ∈ args, Rereads a) : Rereads (.call function args span) := by
  intro start rest hrest
  have hne : args ≠ [] := by
    rintro rfl
    cases function <;> cases hcount
  have htext : (Expr.call function args span).text.toList = function.name.toList ++
      ('(' :: ((", ".intercalate (args.map text)).toList ++ [')'])) := by
    rw [text, texts_eq, String.toList_append, String.toList_append, String.toList_append,
      List.append_assoc, List.append_assoc]
    rfl
  have hitems : ∀ a ∈ args, ∀ start rest, Closes rest → ∃ p : List Token × Expr,
      Lexes start a.text.toList rest p.1 ∧ Derives .sum p.1 p.2 ∧ p.2.bare = a.explicit.bare := by
    intro a ha start rest hrest
    obtain ⟨ts, e', hts, hderives, hbare⟩ := h a ha start rest hrest
    exact ⟨(ts, e'), hts, hderives.sum_of_signed, hbare⟩
  obtain ⟨parts, ts, hts, hlisted, hall⟩ := lexes_listed args hne hitems
    (start + function.name.toList.length + 1) (')' :: rest) (closes_cons (by simp))
  obtain ⟨t, u, ht, hu, hbrackets⟩ := lexes_parens hts
  have hbare := map_eq_of_forall₂ (hall.imp fun _ _ h => h.2)
  rw [htext]
  refine ⟨_, _, (lexes_name hname (nameEnds_cons (by decide))).append hbrackets,
    .operand (.call rfl ht hu rfl ?_ hlisted ?_), ?_⟩
  · rwa [← hall.length_eq]
  · intro p hp
    obtain ⟨_, _, h⟩ := exists_of_mem_right hall hp
    exact h.1
  · rw [explicit, explicitAll_eq, bare, bare, bareAll_eq, bareAll_eq, List.map_map, List.map_map]
    exact congrArg (Expr.call function · ⟨0, 0⟩) hbare

theorem rereads_binary {op : Operator} {left right : Expr} {span : Span} (hleft : Rereads left)
    (hright : Rereads right) : Rereads (.binary op left right span) := by
  intro start rest hrest
  have htext : (Expr.binary op left right span).text.toList = '(' :: ((left.text.toList ++
      ([' '] ++ ([op.symbol] ++ ([' '] ++ right.text.toList)))) ++ [')']) := by
    rw [text]
    simp [String.toList_append]
  obtain ⟨ts, left', hts, hderives, hbare⟩ := hleft (start + 1)
    (([' '] ++ ([op.symbol] ++ ([' '] ++ right.text.toList))) ++ ')' :: rest)
    (closes_cons (by simp))
  obtain ⟨us, right', hus, hderives', hbare'⟩ :=
    hright (start + 1 + left.text.toList.length + 1 + 1 + 1) (')' :: rest) (closes_cons (by simp))
  have hinner := hts.append
    (lexes_blank.append ((lexes_mark (mark?_symbol op)).append (lexes_blank.append hus)))
  obtain ⟨t, u, ht, hu, hbrackets⟩ := lexes_parens hinner
  rw [htext]
  refine ⟨_, _, hbrackets,
    .operand (.parenthesized ht hu (.binary rfl hderives hderives')), ?_⟩
  rw [explicit, binaryNode, bare, bare, hbare, hbare']

theorem rereads_negate {operand : Expr} {span : Span} (h : Rereads operand) :
    Rereads (.negate operand span) := by
  intro start rest hrest
  have htext : (Expr.negate operand span).text.toList =
      '(' :: ((['-'] ++ operand.text.toList) ++ [')']) := by
    rw [text, String.toList_append, String.toList_append, List.append_assoc]
    rfl
  obtain ⟨ts, e', hts, hderives, hbare⟩ := h (start + 1 + 1) (')' :: rest) (closes_cons (by simp))
  have hminus : mark? '-' = some (.operator .sub) := rfl
  obtain ⟨t, u, ht, hu, hbrackets⟩ := lexes_parens ((lexes_mark hminus).append hts)
  rw [htext]
  refine ⟨_, _, hbrackets,
    .operand (.parenthesized ht hu (Derives.sum_of_signed (.minus rfl hderives))), ?_⟩
  rw [explicit, bare, bare, hbare]

/-- The text of a legible expression is read as the expression. -/
theorem Legible.rereads {e : Expr} (h : Legible Number.Printable e) : Rereads e := by
  induction h with
  | literal h => exact rereads_literal h
  | ref hname hindices => exact rereads_ref hname hindices
  | reduction hname hsymbol _ ih => exact rereads_reduction hname hsymbol ih
  | call hname hcount _ ih => exact rereads_call hname hcount ih
  | binary _ _ ihleft ihright => exact rereads_binary ihleft ihright
  | negate _ ih => exact rereads_negate ih

/-! ## Texts read again -/

theorem parse_of_lexes {source : String} {ts : List Token}
    (h : Lexes 0 source.toList [] ts) :
    parse source = (ofTokens source.toList.length ts).mapError .mistake := by
  unfold Lexes at h
  rw [List.append_nil, tokensFrom.eq_1] at h
  apply parse_of_tokensFrom
  rw [h]
  exact congrArg Except.ok (List.append_nil ts)

theorem Rereads.parse {e : Expr} (h : Rereads e) :
    ∃ e', Expr.parse e.text = .ok e' ∧ e'.bare = e.explicit.bare := by
  obtain ⟨ts, e', hts, hderives, hbare⟩ := h 0 [] nofun
  refine ⟨e', ?_, hbare⟩
  rw [parse_of_lexes hts, ofTokens_eq_ok.mpr hderives.sum_of_signed]
  rfl

/-- Places leave no trace in texts. -/
theorem Legible.text_bare {P : Number → Prop} {e : Expr} (h : Legible P e) :
    e.bare.text = e.text := by
  induction h with
  | literal => rfl
  | @ref name indices _ _ _ =>
    rw [bare]
    cases indices with
    | nil => rfl
    | cons i rest =>
      have htexts : ((i :: rest).map Index.bare).map Index.text = (i :: rest).map Index.text := by
        rw [List.map_map]
        exact List.map_congr_left fun i _ => by cases i <;> rfl
      rw [List.map_cons] at htexts ⊢
      rw [text, text, htexts]
      · exact List.cons_ne_nil i rest
      · exact List.cons_ne_nil _ _
  | reduction _ _ _ ih => rw [bare, text, ih, text]
  | @call function args span _ _ _ ih =>
    have htexts : args.map (text ∘ bare) = args.map text := List.map_congr_left ih
    rw [bare, text, text, bareAll_eq, texts_eq, texts_eq, List.map_map, htexts]
  | binary _ _ ihleft ihright => rw [bare, text, ihleft, ihright, text]
  | negate _ ih => rw [bare, text, ih, text]

end Expr

namespace Formula

/-- Reading undoes writing. A formula that was read, and whatever finite numbers take the place of
names in it, is written as a text that is read as the formula, up to places and with its signs
explicit. Without numbers in the place of names there are no such signs, and what is read is
written as the same text again. -/
theorem ofText_text {source : String} {arity : Arity} {f : Formula}
    (h : ofText source arity = .ok f) {values : Numbers} (hvalues : ∀ v ∈ values, v.2.Printable)
    (isProtected : List String) :
    (∃ g, ofText (f.substitute values isProtected).body.text .unspecified = .ok g ∧
      g.body.bare = (f.substitute values isProtected).body.explicit.bare) ∧
    ∃ g, ofText f.body.text .unspecified = .ok g ∧ g.body.bare = f.body.bare ∧
      g.body.text = f.body.text := by
  have hunsigned := Expr.legible_of_parse (parse_of_ofText h)
  have hlegible : Expr.Legible Number.Printable f.body := hunsigned.imp fun _ hv => hv.1
  constructor
  · obtain ⟨e, hparse, hbare⟩ := (hlegible.replace hvalues _).rereads.parse
    exact ⟨_, ofText_unspecified hparse, hbare⟩
  · obtain ⟨e, hparse, hbare⟩ := hlegible.rereads.parse
    rw [hunsigned.explicit_eq] at hbare
    refine ⟨_, ofText_unspecified hparse, hbare, ?_⟩
    calc e.text = e.bare.text := (Expr.legible_of_parse hparse).text_bare.symm
      _ = f.body.bare.text := by rw [hbare]
      _ = f.body.text := hunsigned.text_bare

/-- The sum in the text below, and what is added up there. -/
def rowProduct : Expr :=
  .binary .mul (.ref "A" [.symbol "i" ⟨22, 23⟩, .literal 2 ⟨25, 26⟩] ⟨20, 27⟩)
    (.ref "z" [] ⟨30, 31⟩) ⟨20, 31⟩

def rowSum : Expr := .reduction .sum "i" rowProduct ⟨14, 32⟩

/-- The expression of the text. -/
def signs : Expr :=
  .binary .add
    (.binary .pow (.negate (.ref "x" [] ⟨1, 2⟩) ⟨0, 2⟩) (.literal (.int 2) ⟨3, 4⟩) ⟨0, 4⟩)
    (.call .max [.ref "y" [] ⟨11, 12⟩, rowSum] ⟨7, 33⟩) ⟨0, 33⟩

open EnergyGraph.Expr in
theorem parse_signs : parse "-x^2 + max(y, sum_i(A[i, 2] * z))" = .ok signs := by
  have hsquare : ofTokens 0 [⟨.operator .sub, "-", 0, 1⟩, ⟨.name, "x", 1, 2⟩,
      ⟨.operator .pow, "^", 2, 3⟩, ⟨.number (.int 2), "2", 3, 4⟩] = .ok (.binary .pow
        (.negate (.ref "x" [] ⟨1, 2⟩) ⟨0, 2⟩) (.literal (.int 2) ⟨3, 4⟩) ⟨0, 4⟩) := by cbv
  have hproduct : ofTokens 0 [⟨.name, "A", 20, 21⟩, ⟨.openBracket, "[", 21, 22⟩,
      ⟨.name, "i", 22, 23⟩, ⟨.comma, ",", 23, 24⟩, ⟨.number (.int 2), "2", 25, 26⟩,
      ⟨.closeBracket, "]", 26, 27⟩, ⟨.operator .mul, "*", 28, 29⟩, ⟨.name, "z", 30, 31⟩] =
        .ok rowProduct := by cbv
  have hy : Derives .sum [⟨.name, "y", 11, 12⟩] (.ref "y" [] ⟨11, 12⟩) :=
    .product (.power (.signed (.operand (.name rfl))))
  have hsum : Derives .sum (⟨.name, "sum_i", 14, 19⟩ :: ⟨.openParen, "(", 19, 20⟩ ::
      (_ ++ [⟨.closeParen, ")", 31, 32⟩])) rowSum :=
    .product (.power (.signed (.operand
      (.reduction rfl rfl rfl rfl (by decide) (ofTokens_eq_ok.mp hproduct)))))
  have hlisted (ys zs : List Token) : Listed (·.1) [(ys, .ref "y" [] ⟨11, 12⟩), (zs, rowSum)]
      (ys ++ ⟨.comma, ",", 12, 13⟩ :: zs) := .more rfl .last
  have hlargest : Derives .operand (⟨.name, "max", 7, 10⟩ :: ⟨.openParen, "(", 10, 11⟩ ::
      (_ ++ [⟨.closeParen, ")", 32, 33⟩])) (.call .max [.ref "y" [] ⟨11, 12⟩, rowSum] ⟨7, 33⟩) :=
    .call rfl rfl rfl rfl rfl (hlisted _ _)
      (List.forall_mem_cons.mpr ⟨hy, List.forall_mem_singleton.mpr hsum⟩)
  have hall : Derives .sum (_ ++ ⟨.operator .add, "+", 5, 6⟩ :: _) signs :=
    .added rfl (Or.inl rfl) (ofTokens_eq_ok.mp hsquare) (.power (.signed (.operand hlargest)))
  exact parse_of_derives (by with_unfolding_all rfl) hall

/-- Signs become explicit where negative numbers, and the negative zero, take the place of names. -/
theorem ofText_text_signs : ∃ f g,
    ofText "-x^2 + max(y, sum_i(A[i, 2] * z))" .unspecified = .ok f ∧
    (f.substitute [("x", .int (-3)), ("y", .float (-0.0))] []).body.text =
      "(((--3) ^ 2) + max(-0.0, sum_i((A[i, 2] * z))))" ∧
    ofText "(((--3) ^ 2) + max(-0.0, sum_i((A[i, 2] * z))))" .unspecified = .ok g ∧
    g.body.bare =
      (f.substitute [("x", .int (-3)), ("y", .float (-0.0))] []).body.explicit.bare := by
  have hread : ofText "-x^2 + max(y, sum_i(A[i, 2] * z))" .unspecified =
      .ok ⟨"-x^2 + max(y, sum_i(A[i, 2] * z))", signs, .unspecified⟩ :=
    ofText_unspecified parse_signs
  have htext : (Formula.substitute ⟨"-x^2 + max(y, sum_i(A[i, 2] * z))", signs, .unspecified⟩
      [("x", .int (-3)), ("y", .float (-0.0))] []).body.text =
        "(((--3) ^ 2) + max(-0.0, sum_i((A[i, 2] * z))))" := by decide +kernel
  have hvalues : ∀ v ∈ ([("x", .int (-3)), ("y", .float (-0.0))] : Numbers), v.2.Printable := by
    intro v hv
    simp only [List.mem_cons, List.not_mem_nil, or_false] at hv
    rcases hv with rfl | rfl
    · exact Nat.lt_of_lt_of_le (by decide : 3 < 10 ^ 1)
        (Nat.pow_le_pow_right (by decide) (by decide))
    · exact (by decide : (-0.0 : Float).isFinite = true)
  obtain ⟨⟨g, hg, hbare⟩, -⟩ := ofText_text hread hvalues []
  rw [htext] at hg
  exact ⟨_, g, hread, htext, hg, hbare⟩

end Formula

end EnergyGraph
