-- The parser reads nothing but what the grammar derives: the tokens that it has read are derived
-- as the expression that it has made of them. This is carried from step to step. Sums and
-- products are both parts with operators between them, index lists and arguments both parts with
-- commas between them; and the sums within a sum have fewer tokens than it.
import EnergyGraph.Proofs.Grammar
import EnergyGraph.Proofs.ParserSteps

namespace EnergyGraph.Expr

/-! ## Kinds of tokens -/

section

variable {kind : Token.Kind} {op : Operator}

/-- Kinds are compared as they are, numbers apart. -/
theorem beq_kind {a b : Token.Kind} (h : ∀ value, b ≠ .number value) : (a == b) = true ↔ a = b := by
  cases b with
  | number value => exact absurd rfl (h value)
  | operator op =>
    cases a with
    | operator op' => cases op <;> cases op' <;> simp <;> rfl
    | _ => simp; rfl
  | _ => cases a <;> simp <;> rfl

theorem beq_closeParen : (kind == .closeParen) = true ↔ kind = .closeParen := beq_kind (by simp)

theorem beq_closeBracket : (kind == .closeBracket) = true ↔ kind = .closeBracket :=
  beq_kind (by simp)

theorem beq_comma : (kind == .comma) = true ↔ kind = .comma := beq_kind (by simp)

theorem beq_pow : (kind == .operator .pow) = true ↔ kind = .operator .pow := beq_kind (by simp)

/-- The operators of sums are plus and minus. -/
theorem sumOperator?_eq_some :
    sumOperator? kind = some op ↔ kind = .operator op ∧ (op = .add ∨ op = .sub) := by
  unfold sumOperator?
  cases kind with
  | operator op' => cases op' <;> cases op <;> simp
  | _ => simp

theorem productOperator?_eq_some :
    productOperator? kind = some op ↔ kind = .operator op ∧ (op = .mul ∨ op = .div) := by
  unfold productOperator?
  cases kind with
  | operator op' => cases op' <;> cases op <;> simp
  | _ => simp

end

/-! ## Operators between parts -/

/-- The rules of the grammar for parts of a category with operators between them. -/
structure Joins (operator? : Token.Kind → Option Operator) (whole part : Category) : Prop where
  single : ∀ {ts e}, Derives part ts e → Derives whole ts e
  joined : ∀ {ts us t op left right}, operator? t.kind = some op → Derives whole ts left →
    Derives part us right → Derives whole (ts ++ t :: us) (binaryNode op left right)

theorem joins_sums : Joins sumOperator? .sum .product where
  single := .product
  joined hop hleft hright := by
    obtain ⟨hkind, hsum⟩ := sumOperator?_eq_some.mp hop
    exact .added hkind hsum hleft hright

theorem joins_products : Joins productOperator? .product .power where
  single := .power
  joined hop hleft hright := by
    obtain ⟨hkind, hproduct⟩ := productOperator?_eq_some.mp hop
    exact .multiplied hkind hproduct hleft hright

/-- What is read is derived by the tokens in front of the rest. -/
def Sound (category : Category) (tokens rest : List Token) (e : Expr) : Prop :=
  ∃ ts, tokens = ts ++ rest ∧ Derives category ts e

/-- A step reads as the grammar derives, if there are fewer tokens than so many. -/
def SoundBelow (category : Category) (n : ℕ) (step : Step Expr) : Prop :=
  ∀ tokens rest e, tokens.length < n → step tokens = .ok (e, rest) → Sound category tokens rest e

section

variable {n : ℕ} {tokens rest ts : List Token} {e left : Expr} {wholes parts : Category}
  {operator? : Token.Kind → Option Operator} {whole part : Step Expr} {tail : Expr → Step Expr}

theorem ReadsOn.sound_tail (h : ReadsOn operator? whole part tail)
    (hjoins : Joins operator? wholes parts) (hpart : SoundBelow parts n part)
    (hlen : tokens.length < n) (htail : tail left tokens = .ok (e, rest))
    (hleft : Derives wholes ts left) :
    ∃ us, tokens = us ++ rest ∧ Derives wholes (ts ++ us) e := by
  induction hm : tokens.length using Nat.strongRecOn generalizing tokens left ts with
  | _ m ih =>
    rcases h.tail_eq_ok.mp htail with ⟨-, rfl, rfl⟩ |
      ⟨t, after, op, right, mid, rfl, hop, hright, htail⟩
    · exact ⟨[], rfl, by rwa [List.append_nil]⟩
    · rw [List.length_cons] at hlen hm
      have hshort : mid.length < after.length := h.progress _ _ _ hright
      obtain ⟨us, hus, hderives⟩ := hpart _ _ _ (by omega) hright
      obtain ⟨vs, rfl, he⟩ :=
        ih _ (by omega) (by omega) htail (hjoins.joined hop hleft hderives) rfl
      subst hus
      exact ⟨t :: us ++ vs, by simp, by simpa using he⟩

theorem ReadsOn.soundBelow (h : ReadsOn operator? whole part tail)
    (hjoins : Joins operator? wholes parts) (hpart : SoundBelow parts n part) :
    SoundBelow wholes n whole := by
  intro tokens rest e hlen hwhole
  obtain ⟨first, mid, hfirst, htail⟩ := h.eq_ok.mp hwhole
  have hshort := h.progress _ _ _ hfirst
  obtain ⟨ts, rfl, hderives⟩ := hpart _ _ _ hlen hfirst
  obtain ⟨us, rfl, he⟩ := h.sound_tail hjoins hpart (by omega) htail (hjoins.single hderives)
  exact ⟨ts ++ us, (List.append_assoc _ _ _).symm, he⟩

end

/-! ## Commas between parts -/

section

variable {α γ : Type} {n : ℕ} {tokens rest : List Token} {step : Step (List α)} {first : Step α}

/-- What is read once, and again behind each comma, is a list of parts. -/
theorem sound_listed (tokensOf : γ × α → List Token) (IsPart : γ × α → Prop)
    (hstep : step = first.andThen fun a => Step.behind (· == .comma) [a] step (a :: ·))
    (hfirst : ∀ tokens rest a, tokens.length < n → first tokens = .ok (a, rest) →
      ∃ c, tokens = tokensOf (c, a) ++ rest ∧ IsPart (c, a))
    (hlen : tokens.length < n) {as : List α} (h : step tokens = .ok (as, rest)) :
    ∃ (parts : List (γ × α)) (ts : List Token), tokens = ts ++ rest ∧ as = parts.map (·.2) ∧
      Listed tokensOf parts ts ∧ ∀ p ∈ parts, IsPart p := by
  induction hm : tokens.length using Nat.strongRecOn generalizing tokens as with
  | _ m ih =>
    rw [hstep] at h
    obtain ⟨a, mid, ha, hmid⟩ := Step.andThen_eq_ok.mp h
    obtain ⟨c, rfl, hpart⟩ := hfirst _ _ _ hlen ha
    rcases Step.behind_eq_ok.mp hmid with ⟨-, rfl, rfl⟩ |
      ⟨comma, after, more, rfl, hcomma, hmore, rfl⟩
    · exact ⟨[(c, a)], tokensOf (c, a), rfl, rfl, .last, by simpa using hpart⟩
    · have hshort : after.length < m := by
        simp at hm
        omega
      obtain ⟨parts, us, rfl, rfl, hlisted, hparts⟩ := ih _ hshort (by omega) hmore rfl
      refine ⟨(c, a) :: parts, tokensOf (c, a) ++ comma :: us, by simp, rfl,
        .more (beq_comma.mp hcomma) hlisted, ?_⟩
      exact List.forall_mem_cons.mpr ⟨hpart, hparts⟩

end

/-! ## Index lists -/

section

variable {stop n : ℕ} {tokens rest : List Token} {e : Expr} {name opening : Token}

theorem indexStep_eq_ok {i : Index} :
    indexStep stop tokens = .ok (i, rest) ↔ ∃ t, tokens = t :: rest ∧ IsIndex t i := by
  constructor
  · intro h
    cases tokens with
    | nil => cases h
    | cons t after =>
      rw [indexStep_cons] at h
      split at h
      · rename_i hkind
        cases h
        exact ⟨t, rfl, .symbol hkind⟩
      · rename_i hkind
        cases h
        exact ⟨t, rfl, .literal hkind⟩
      · cases h
      · cases h
  · rintro ⟨t, rfl, hi⟩
    rw [indexStep_cons]
    cases hi with
    | symbol hkind => rw [hkind]
    | literal hkind => rw [hkind]

theorem sound_indexed (hname : name.kind = .name) (hopening : opening.kind = .openBracket)
    (h : indexedStep stop name opening tokens = .ok (e, rest)) :
    Sound .operand (name :: opening :: tokens) rest e := by
  rw [indexedStep_eq] at h
  obtain ⟨is, mid, his, hmid⟩ := Step.andThen_eq_ok.mp h
  obtain ⟨closing, rfl, hclosing, rfl⟩ := Step.closing_eq_ok.mp hmid
  obtain ⟨parts, ts, rfl, rfl, hlisted, hparts⟩ :=
    sound_listed (fun p => [p.1]) (fun p => IsIndex p.1 p.2) indicesStep_eq
      (fun _ _ _ _ hi => indexStep_eq_ok.mp hi) (Nat.lt_succ_self _) his
  exact ⟨name :: opening :: (ts ++ [closing]), by simp,
    .indexed hname hopening (beq_closeBracket.mp hclosing) hlisted hparts⟩

/-! ## Calls -/

theorem finishStep_eq_ok {args : List Expr} : finishStep name opening args tokens = .ok (e, rest) ↔
    ∃ closing, tokens = closing :: rest ∧ closing.kind = .closeParen ∧
      callNode name ⟨name.start, closing.stop⟩ args = .ok e := by
  constructor
  · intro h
    cases tokens with
    | nil => cases h
    | cons t after =>
      rw [finishStep_cons] at h
      split at h
      · rename_i hkind
        obtain ⟨node, hnode, ⟨⟩⟩ := map_eq_ok.mp h
        exact ⟨t, rfl, beq_closeParen.mp hkind, hnode⟩
      · split at h <;> cases h
  · rintro ⟨closing, rfl, hkind, hnode⟩
    rw [finishStep_cons, if_pos (beq_closeParen.mpr hkind), hnode]
    rfl

/-- No function takes no arguments. -/
theorem callNode_nil {span : Span} : callNode name span [] ≠ .ok e := by
  intro h
  rcases callNode_eq_ok.mp h with ⟨_, _, _, _, _, hargs, _⟩ | ⟨function, _, hcount, _⟩
  · cases hargs
  · cases function <;> cases hcount

theorem items_of_arguments (h : argumentsStep stop name opening tokens = .ok (e, rest)) :
    ∃ args mid, itemsStep stop tokens = .ok (args, mid) ∧
      finishStep name opening args mid = .ok (e, rest) := by
  cases tokens with
  | nil =>
    rw [argumentsStep_nil] at h
    exact Step.andThen_eq_ok.mp h
  | cons t after =>
    rw [argumentsStep_cons] at h
    split at h
    · obtain ⟨closing, -, -, hnode⟩ := finishStep_eq_ok.mp h
      exact absurd hnode callNode_nil
    · exact Step.andThen_eq_ok.mp h

theorem sound_call (hsums : SoundBelow .sum n (sumStep stop)) (hlen : tokens.length < n)
    (hname : name.kind = .name) (hopening : opening.kind = .openParen)
    (h : argumentsStep stop name opening tokens = .ok (e, rest)) :
    Sound .operand (name :: opening :: tokens) rest e := by
  obtain ⟨args, mid, hargs, hfinish⟩ := items_of_arguments h
  obtain ⟨closing, rfl, hclosing, hnode⟩ := finishStep_eq_ok.mp hfinish
  obtain ⟨parts, ts, rfl, rfl, hlisted, hparts⟩ :=
    sound_listed (·.1) (fun p => Derives .sum p.1 p.2) itemsStep_eq hsums hlen hargs
  refine ⟨name :: opening :: (ts ++ [closing]), by simp, ?_⟩
  rcases callNode_eq_ok.mp hnode with ⟨fold, symbol, body, htext, hsymbol, hbody, rfl⟩ |
    ⟨function, htext, hcount, rfl⟩
  · obtain ⟨p, rfl, rfl⟩ := List.map_eq_singleton_iff.mp hbody
    cases hlisted with
    | last => exact .reduction hname hopening hclosing htext hsymbol (hparts p (by simp))
    | more _ hrest => exact absurd rfl hrest.ne_nil
  · rw [List.length_map] at hcount
    exact .call hname hopening hclosing htext hcount hlisted hparts

/-! ## Expressions -/

theorem sound_name (hsums : SoundBelow .sum n (sumStep stop)) (hlen : tokens.length ≤ n)
    (hname : name.kind = .name) (h : nameStep stop name tokens = .ok (e, rest)) :
    Sound .operand (name :: tokens) rest e := by
  cases tokens with
  | nil =>
    cases h
    exact ⟨[name], rfl, .name hname⟩
  | cons t after =>
    rw [List.length_cons] at hlen
    by_cases hcall : t.kind = .openParen
    · rw [nameStep_call hcall] at h
      exact sound_call hsums (by omega) hname hcall h
    by_cases hindexing : t.kind = .openBracket
    · rw [nameStep_indexing hindexing] at h
      exact sound_indexed hname hindexing h
    · rw [nameStep_alone hcall hindexing] at h
      cases h
      exact ⟨[name], rfl, .name hname⟩

theorem soundBelow_operand (hsums : SoundBelow .sum n (sumStep stop)) :
    SoundBelow .operand (n + 1) (operandStep stop) := by
  intro tokens rest e hlen h
  cases tokens with
  | nil =>
    rw [operandStep_nil] at h
    cases h
  | cons t after =>
    rw [List.length_cons] at hlen
    rw [operandStep_cons] at h
    cases hkind : t.kind <;> simp only [hkind] at h
    case number =>
      cases h
      exact ⟨[t], rfl, .number hkind⟩
    case openParen =>
      obtain ⟨node, mid, hsum, hmid⟩ := Step.andThen_eq_ok.mp h
      obtain ⟨closing, rfl, hclosing, rfl⟩ := Step.closing_eq_ok.mp hmid
      obtain ⟨ts, rfl, hderives⟩ := hsums _ _ _ (by omega) hsum
      exact ⟨t :: (ts ++ [closing]), by simp,
        .parenthesized hkind (beq_closeParen.mp hclosing) hderives⟩
    case name => exact sound_name hsums (by omega) hkind h
    all_goals cases h

theorem soundBelow_signed (hsums : SoundBelow .sum n (sumStep stop)) :
    SoundBelow .signed (n + 1) (signedStep stop) := by
  intro tokens rest e hlen h
  induction tokens generalizing e with
  | nil =>
    rw [signedStep_nil, operandStep_nil] at h
    cases h
  | cons t after ih =>
    rw [signedStep_cons] at h
    cases hop : sumOperator? t.kind with
    | none =>
      simp only [hop] at h
      obtain ⟨ts, hts, hderives⟩ := soundBelow_operand hsums _ _ _ hlen h
      exact ⟨ts, hts, .operand hderives⟩
    | some op =>
      simp only [hop] at h
      obtain ⟨node, mid, hnode, ⟨⟩⟩ := Step.andThen_eq_ok.mp h
      obtain ⟨ts, rfl, hderives⟩ := ih _ (Nat.lt_of_succ_lt hlen) hnode
      obtain ⟨hkind, rfl | rfl⟩ := sumOperator?_eq_some.mp hop
      · exact ⟨t :: ts, rfl, .plus hkind hderives⟩
      · exact ⟨t :: ts, rfl, .minus hkind hderives⟩

theorem soundBelow_power (hsums : SoundBelow .sum n (sumStep stop)) :
    SoundBelow .power (n + 1) (powerStep stop) := by
  intro tokens rest e hlen h
  induction hm : tokens.length using Nat.strongRecOn generalizing tokens e with
  | _ m ih =>
    rw [powerStep_eq] at h
    obtain ⟨base, mid, hbase, hmid⟩ := Step.andThen_eq_ok.mp h
    obtain ⟨ts, rfl, hderives⟩ := soundBelow_signed hsums _ _ _ hlen hbase
    rcases Step.behind_eq_ok.mp hmid with ⟨-, rfl, rfl⟩ |
      ⟨t, after, exponent, rfl, hkind, hexponent, rfl⟩
    · exact ⟨ts, rfl, .signed hderives⟩
    · have hshort : after.length < m := by
        simp at hm
        omega
      obtain ⟨us, rfl, hpower⟩ := ih _ hshort _ _ (by omega) hexponent rfl
      exact ⟨ts ++ t :: us, by simp, .raised (beq_pow.mp hkind) hderives hpower⟩

end

/-- Whatever is read as a sum is derived. -/
theorem soundBelow_sum (stop n : ℕ) : SoundBelow .sum n (sumStep stop) := by
  induction n with
  | zero => exact fun _ _ _ hlen => absurd hlen (Nat.not_lt_zero _)
  | succ n hsums =>
    have hproducts : SoundBelow .product (n + 1) (productStep stop) :=
      readsOn_products.soundBelow joins_products (soundBelow_power hsums)
    exact readsOn_sums.soundBelow joins_sums hproducts

end EnergyGraph.Expr
