-- The tree of a text: whatever the grammar derives is read, so that no list of tokens has
-- two trees, and the parser answers with the one tree if there is one.
import EnergyGraph.Proofs.Parsing

namespace EnergyGraph.Expr

/-! ## Where an expression ends -/

/-- Tokens that make a name the start of something longer. -/
def Token.Kind.opens : Token.Kind → Bool
  | .openParen | .openBracket => true
  | _ => false

/-- Tokens that carry on an expression of a category. -/
def Category.carriesOn : Category → Token.Kind → Bool
  | .operand, kind | .signed, kind => kind.opens
  | .power, kind => kind.opens || kind == .operator .pow
  | .product, kind => kind.opens || kind == .operator .pow || (productOperator? kind).isSome
  | .sum, kind =>
    kind.opens || kind == .operator .pow || (productOperator? kind).isSome ||
      (sumOperator? kind).isSome

/-- The token after an expression, if there is one, does not carry it on. -/
def Ends (category : Category) (rest : List Token) : Prop :=
  ∀ t after, rest = t :: after → category.carriesOn t.kind = false

section

variable {rest : List Token} {t : Token} {category wider : Category}

theorem ends_nil : Ends category [] := nofun

theorem ends_cons (h : category.carriesOn t.kind = false) : Ends category (t :: rest) := by
  rintro _ _ ⟨⟩
  exact h

/-- Where an expression has ended that some tokens more carry on, neither these nor the others
follow. -/
theorem Ends.split (more : Token.Kind → Bool) (h : Ends wider rest)
    (hmore : ∀ kind, wider.carriesOn kind = (category.carriesOn kind || more kind)) :
    Ends category rest ∧ ∀ t after, rest = t :: after → more t.kind = false := by
  have hboth : ∀ t after, rest = t :: after →
      category.carriesOn t.kind = false ∧ more t.kind = false := by
    intro t after hrest
    have ht := h t after hrest
    rw [hmore] at ht
    exact Bool.or_eq_false_iff.mp ht
  exact ⟨fun t after hrest => (hboth t after hrest).1, fun t after hrest => (hboth t after hrest).2⟩

theorem ends_sum_of_closing (h : t.kind = .closeParen) : Ends .sum (t :: rest) :=
  ends_cons (by rw [h]; rfl)

theorem ends_sum_of_comma (h : t.kind = .comma) : Ends .sum (t :: rest) :=
  ends_cons (by rw [h]; rfl)

end

/-! ## Operators between parts -/

/-- A step reads tokens of a category, in front of any rest at which they end. -/
def ReadBy (step : Step Expr) (category : Category) (ts : List Token) (e : Expr) : Prop :=
  ∀ rest, Ends category rest → step (ts ++ rest) = .ok (e, rest)

/-- Parts with operators between them may go on in the rest. What they then grow to is read. -/
def GrowsBy (whole : Step Expr) (tail : Expr → Step Expr) (part : Category) (ts : List Token)
    (e : Expr) : Prop :=
  ∀ rest r, Ends part rest → tail e rest = .ok r → whole (ts ++ rest) = .ok r

section

variable {ts us : List Token} {t : Token} {op : Operator} {e left right : Expr}
  {wholes parts : Category} {operator? : Token.Kind → Option Operator} {whole part : Step Expr}
  {tail : Expr → Step Expr}

theorem ReadsOn.grows_single (h : ReadsOn operator? whole part tail)
    (hpart : ReadBy part parts ts e) : GrowsBy whole tail parts ts e := by
  intro rest ⟨v, left⟩ hrest htail
  exact h.eq_ok.mpr ⟨e, rest, hpart rest hrest, htail⟩

theorem ReadsOn.grows_joined (h : ReadsOn operator? whole part tail)
    (hleft : GrowsBy whole tail parts ts left) (hop : operator? t.kind = some op)
    (hends : parts.carriesOn t.kind = false) (hright : ReadBy part parts us right) :
    GrowsBy whole tail parts (ts ++ t :: us) (binaryNode op left right) := by
  intro rest ⟨v, after⟩ hrest htail
  rw [List.append_assoc]
  refine hleft (t :: us ++ rest) _ (ends_cons hends) (h.tail_eq_ok.mpr (Or.inr ?_))
  exact ⟨t, us ++ rest, op, right, rest, rfl, hop, hright rest hrest, htail⟩

/-- At the end of the whole there is nothing that it could grow by. -/
theorem ReadsOn.readBy (h : ReadsOn operator? whole part tail)
    (hgrows : GrowsBy whole tail parts ts e)
    (hmore : ∀ kind, wholes.carriesOn kind = (parts.carriesOn kind || (operator? kind).isSome)) :
    ReadBy whole wholes ts e := by
  intro rest hrest
  obtain ⟨hends, hstops⟩ := hrest.split _ hmore
  refine hgrows rest _ hends (h.tail_eq_ok.mpr (Or.inl ⟨?_, rfl, rfl⟩))
  intro t after hrest
  exact Option.not_isSome_iff_eq_none.mp (Bool.eq_false_iff.mp (hstops t after hrest))

end

/-! ## Commas between parts -/

section

variable {α γ : Type} {ts rest : List Token} {closing : Token} {step : Step (List α)}
  {first : Step α} {tokensOf : γ × α → List Token} {parts : List (γ × α)}

theorem complete_listed
    (hstep : step = first.andThen fun a => Step.behind (· == .comma) [a] step (a :: ·))
    (hlisted : Listed tokensOf parts ts) (hclosing : (closing.kind == .comma) = false)
    (hparts : ∀ p ∈ parts, ∀ t after, t.kind = .comma ∨ t = closing →
      first (tokensOf p ++ t :: after) = .ok (p.2, t :: after)) :
    step (ts ++ closing :: rest) = .ok (parts.map (·.2), closing :: rest) := by
  induction hlisted with
  | @last p =>
    rw [hstep]
    refine Step.andThen_eq_ok.mpr ⟨p.2, _, hparts p (by simp) _ _ (Or.inr rfl), ?_⟩
    refine Step.behind_eq_ok.mpr (Or.inl ⟨?_, rfl, rfl⟩)
    rintro _ _ ⟨⟩
    exact hclosing
  | @more p ps comma us hcomma _ ih =>
    obtain ⟨hpart, hparts⟩ := List.forall_mem_cons.mp hparts
    rw [List.append_assoc, List.cons_append, hstep]
    refine Step.andThen_eq_ok.mpr ⟨p.2, _, hpart _ _ (Or.inl hcomma), ?_⟩
    refine Step.behind_eq_ok.mpr (Or.inr ⟨comma, _, ps.map (·.2), rfl, ?_, ih hparts, rfl⟩)
    exact beq_comma.mpr hcomma

end

/-! ## What is derived is read -/

/-- Tokens of a category are read by its step. A sum or a product may grow in the rest. -/
def Complete (stop : ℕ) : Category → List Token → Expr → Prop
  | .sum => GrowsBy (sumStep stop) (sumTailStep stop) .product
  | .product => GrowsBy (productStep stop) (productTailStep stop) .power
  | .power => ReadBy (powerStep stop) .power
  | .signed => ReadBy (signedStep stop) .signed
  | .operand => ReadBy (operandStep stop) .operand

section

variable {stop : ℕ} {rest ts us : List Token} {e base exponent : Expr}
  {t name opening closing : Token}

theorem Complete.sum (h : Complete stop .sum ts e) : ReadBy (sumStep stop) .sum ts e :=
  readsOn_sums.readBy h fun _ => rfl

theorem Complete.product (h : Complete stop .product ts e) :
    ReadBy (productStep stop) .product ts e :=
  readsOn_products.readBy h fun _ => rfl

theorem nameStep_of_ends (h : Ends .operand rest) :
    nameStep stop name rest = .ok (.ref name.text [] ⟨name.start, name.stop⟩, rest) := by
  cases rest with
  | nil => rfl
  | cons t after =>
    have hopens : t.kind.opens = false := h t after rfl
    refine nameStep_alone ?_ ?_ <;>
    · intro hkind
      rw [hkind] at hopens
      cases hopens

theorem complete_indexed (hname : name.kind = .name) (hopening : opening.kind = .openBracket)
    (hclosing : closing.kind = .closeBracket) {parts : List (Token × Index)}
    (hlisted : Listed (fun p => [p.1]) parts ts) (hparts : ∀ p ∈ parts, IsIndex p.1 p.2) :
    Complete stop .operand (name :: opening :: (ts ++ [closing]))
      (.ref name.text (parts.map (·.2)) ⟨name.start, closing.stop⟩) := by
  intro rest _
  have hindices : indicesStep stop (ts ++ closing :: rest) =
      .ok (parts.map (·.2), closing :: rest) :=
    complete_listed indicesStep_eq hlisted (by rw [hclosing]; rfl) fun p hp _ _ _ =>
      indexStep_eq_ok.mpr ⟨p.1, rfl, hparts p hp⟩
  rw [List.cons_append, List.cons_append, List.append_assoc, operandStep_cons, hname]
  dsimp only
  rw [nameStep_indexing hopening, indexedStep_eq]
  exact Step.andThen_eq_ok.mpr ⟨_, _, hindices,
    Step.closing_eq_ok.mpr ⟨closing, rfl, beq_closeBracket.mpr hclosing, rfl⟩⟩

theorem complete_items {parts : List (List Token × Expr)} (hlisted : Listed (·.1) parts ts)
    (hclosing : closing.kind = .closeParen) (hparts : ∀ p ∈ parts, Complete stop .sum p.1 p.2) :
    itemsStep stop (ts ++ closing :: rest) = .ok (parts.map (·.2), closing :: rest) := by
  refine complete_listed itemsStep_eq hlisted (by rw [hclosing]; rfl) fun p hp t after ht => ?_
  refine (hparts p hp).sum _ ?_
  rcases ht with hcomma | rfl
  · exact ends_sum_of_comma hcomma
  · exact ends_sum_of_closing hclosing

/-- Arguments are read if they are derived, and what they make is the call. -/
theorem operandStep_call (hname : name.kind = .name) (hopening : opening.kind = .openParen)
    (hclosing : closing.kind = .closeParen) {parts : List (List Token × Expr)}
    (hlisted : Listed (·.1) parts ts) (hderives : ∀ p ∈ parts, Derives .sum p.1 p.2)
    (hparts : ∀ p ∈ parts, Complete stop .sum p.1 p.2) :
    operandStep stop (name :: opening :: (ts ++ [closing]) ++ rest) =
      (callNode name ⟨name.start, closing.stop⟩ (parts.map (·.2))).map fun node =>
        (node, rest) := by
  have hitems : itemsStep stop (ts ++ closing :: rest) = .ok (parts.map (·.2), closing :: rest) :=
    complete_items hlisted hclosing hparts
  obtain ⟨⟨first, arg⟩, more, rfl⟩ := List.exists_cons_of_ne_nil hlisted.ne_nil
  obtain ⟨t, us, rfl, hstarts⟩ := (hderives (first, arg) (by simp)).head
  obtain ⟨vs, rfl⟩ := hlisted.head
  have hne : ¬ (t.kind == .closeParen) = true := by
    rw [beq_closeParen]
    intro hkind
    rw [hkind] at hstarts
    cases hstarts
  rw [List.cons_append, List.cons_append, List.append_assoc, operandStep_cons, hname]
  dsimp only
  rw [nameStep_call hopening, List.append_assoc, List.cons_append, List.singleton_append]
  rw [List.append_assoc, List.cons_append] at hitems
  rw [argumentsStep_cons, if_neg hne, Step.andThen, hitems]
  exact finishStep_cons.trans (if_pos (beq_closeParen.mpr hclosing))

theorem complete_raised (hop : t.kind = .operator .pow) (hbase : Complete stop .signed ts base)
    (hexponent : Complete stop .power us exponent) :
    Complete stop .power (ts ++ t :: us) (binaryNode .pow base exponent) := by
  intro rest hrest
  have hends : Ends .signed (t :: us ++ rest) := ends_cons (by rw [hop]; rfl)
  rw [List.append_assoc, powerStep_eq]
  refine Step.andThen_eq_ok.mpr ⟨base, _, hbase _ hends, Step.behind_eq_ok.mpr (Or.inr ?_)⟩
  exact ⟨t, us ++ rest, exponent, rfl, beq_pow.mpr hop, hexponent rest hrest, rfl⟩

theorem complete_signed (hop : sumOperator? t.kind = some op) (h : Complete stop .signed ts e) :
    ReadBy (signedStep stop) .signed (t :: ts)
      (if op = .sub then .negate e ⟨t.start, e.span.stop⟩ else e) := by
  intro rest hrest
  rw [List.cons_append, signedStep_cons, hop]
  exact Step.andThen_eq_ok.mpr ⟨e, rest, h rest hrest, rfl⟩

theorem complete_signed_of_operand (h : Derives .operand ts e)
    (hoperand : Complete stop .operand ts e) : Complete stop .signed ts e := by
  intro rest hrest
  have hreads := hoperand rest hrest
  obtain ⟨t, us, rfl, hstarts⟩ := h.operand_head
  have hnone : sumOperator? t.kind = none := by
    cases hkind : t.kind <;> rw [hkind] at hstarts <;> first | rfl | cases hstarts
  rw [List.cons_append, signedStep_cons, hnone]
  exact hreads

end

theorem Derives.complete {category : Category} {ts : List Token} {e : Expr}
    (h : Derives category ts e) (stop : ℕ) : Complete stop category ts e := by
  induction h with
  | product _ ih => exact readsOn_sums.grows_single ih.product
  | added hop hsum _ _ ihleft ihright =>
    refine readsOn_sums.grows_joined ihleft (sumOperator?_eq_some.mpr ⟨hop, hsum⟩) ?_
      ihright.product
    rw [hop]
    rcases hsum with rfl | rfl <;> rfl
  | power _ ih => exact readsOn_products.grows_single ih
  | multiplied hop hproduct _ _ ihleft ihright =>
    refine readsOn_products.grows_joined ihleft (productOperator?_eq_some.mpr ⟨hop, hproduct⟩) ?_
      ihright
    rw [hop]
    rcases hproduct with rfl | rfl <;> rfl
  | signed _ ih =>
    intro rest hrest
    obtain ⟨hends, hstops⟩ : Ends .signed rest ∧ _ :=
      hrest.split (· == .operator .pow) fun _ => rfl
    rw [powerStep_eq]
    exact Step.andThen_eq_ok.mpr
      ⟨_, rest, ih rest hends, Step.behind_eq_ok.mpr (Or.inl ⟨hstops, rfl, rfl⟩)⟩
  | raised hop _ _ ihbase ihexponent => exact complete_raised hop ihbase ihexponent
  | operand h ih => exact complete_signed_of_operand h ih
  | plus hop _ ih => exact complete_signed (sumOperator?_eq_some.mpr ⟨hop, Or.inl rfl⟩) ih
  | minus hop _ ih => exact complete_signed (sumOperator?_eq_some.mpr ⟨hop, Or.inr rfl⟩) ih
  | number hkind =>
    intro rest _
    rw [List.cons_append, operandStep_cons, hkind]
    rfl
  | name hkind =>
    intro rest hrest
    rw [List.cons_append, operandStep_cons, hkind]
    exact nameStep_of_ends hrest
  | indexed hname hopening hclosing hlisted hparts =>
    exact complete_indexed hname hopening hclosing hlisted hparts
  | @parenthesized opening closing us e hopening hclosing _ ih =>
    intro rest _
    rw [List.cons_append, List.append_assoc, operandStep_cons, hopening]
    exact Step.andThen_eq_ok.mpr ⟨e, _, ih.sum _ (ends_sum_of_closing hclosing),
      Step.closing_eq_ok.mpr ⟨closing, rfl, beq_closeParen.mpr hclosing, rfl⟩⟩
  | @reduction name opening closing us body fold symbol hname hopening hclosing htext hsymbol hbody
      ih =>
    intro rest _
    have hlisted : Listed (·.1) [(us, body)] us := Listed.last
    rw [operandStep_call hname hopening hclosing hlisted (by simpa using hbody) (by simpa using ih)]
    refine map_eq_ok.mpr ⟨_, callNode_eq_ok.mpr (Or.inl ?_), rfl⟩
    exact ⟨fold, symbol, body, htext, hsymbol, rfl, rfl⟩
  | call hname hopening hclosing htext hcount hlisted hparts ih =>
    intro rest _
    rw [operandStep_call hname hopening hclosing hlisted hparts ih]
    refine map_eq_ok.mpr ⟨_, callNode_eq_ok.mpr (Or.inr ⟨_, htext, ?_, rfl⟩), rfl⟩
    rwa [List.length_map]

/-! ## The tree -/

/-- No list of tokens has two trees. -/
theorem Derives.unique {ts : List Token} {e e' : Expr} (h : Derives .sum ts e)
    (h' : Derives .sum ts e') : e = e' := by
  have hread := (h.complete 0).sum [] ends_nil
  have hread' := (h'.complete 0).sum [] ends_nil
  rw [hread] at hread'
  cases hread'
  rfl

/-- Tokens are an expression if the grammar derives them. -/
theorem ofTokens_eq_ok {stop : Nat} {tokens : List Token} {e : Expr} :
    ofTokens stop tokens = .ok e ↔ Derives .sum tokens e := by
  constructor
  · intro h
    cases tokens with
    | nil => cases h
    | cons t after =>
      rw [ofTokens_cons] at h
      obtain ⟨r, hsum, hend⟩ := bind_eq_ok.mp h
      obtain rfl := ended_eq_ok.mp hend
      obtain ⟨ts, hts, hderives⟩ := soundBelow_sum stop _ _ _ _ (Nat.lt_succ_self _) hsum
      rwa [hts, List.append_nil]
  · intro h
    have hread := (h.complete stop).sum [] ends_nil
    obtain ⟨t, us, rfl, -⟩ := h.head
    rw [List.append_nil] at hread
    rw [ofTokens_cons, hread]
    rfl

/-- A text is read as what its tokens make up. -/
theorem parse_of_tokensFrom {source : String} {ts : List Token}
    (h : tokensFrom 0 source.toList = .ok ts) :
    parse source = (ofTokens source.toList.length ts).mapError .mistake := by
  unfold parse
  dsimp only
  rw [h, ok_bind]

theorem parse_of_derives {source : String} {ts : List Token} {e : Expr}
    (h : tokensFrom 0 source.toList = .ok ts) (hderives : Derives .sum ts e) :
    parse source = .ok e := by
  rw [parse_of_tokensFrom h, ofTokens_eq_ok.mpr hderives]
  rfl

/-- The token that stands after a text of so many characters. -/
def finishAt (length : Nat) : Token := ⟨.finish, "", length, length⟩

/-- A text is read as an expression if its tokens up to the last are derived from the grammar;
they then have one tree, and that is the answer. A text without tokens is refused as it is. -/
theorem parse_iff_derives (text : String) :
    match tokenize text with
    | .error u => parse text = .error u
    | .ok all => ∃ tokens, all = tokens ++ [finishAt text.toList.length] ∧
        (∀ e, parse text = .ok e ↔ Derives .sum tokens e) ∧
        ∀ e e', Derives .sum tokens e → Derives .sum tokens e' → e = e' := by
  unfold tokenize parse
  dsimp only
  cases htokens : tokensFrom 0 text.toList with
  | error u => rfl
  | ok tokens =>
    refine ⟨tokens, rfl, fun e => ?_, fun _ _ h h' => h.unique h'⟩
    have hread : ofTokens text.toList.length tokens = .ok e ↔ Derives .sum tokens e :=
      ofTokens_eq_ok
    rw [← hread]
    dsimp only [bind, Except.bind]
    cases ofTokens text.toList.length tokens <;> simp [Except.mapError]

end EnergyGraph.Expr
