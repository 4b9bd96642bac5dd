-- Where the mistakes of a text are, and how far the parser looks. A mistake is a stretch of the
-- text, or the place behind it if the text ends where something has to follow. The token that
-- stands for the end of the text is looked at, but never passed: what comes after it makes no
-- difference, and it is always among the tokens that are left.
import EnergyGraph.Proofs.ParserSteps
import EnergyGraph.Proofs.ParseTrees
import EnergyGraph.Proofs.TermRefusals
import EnergyGraph.Proofs.TokenPlaces

namespace EnergyGraph

namespace Expr

/-! ## Places of mistakes -/

/-- Tokens that something has to follow: operators, opening brackets and commas. -/
def Token.Kind.expectsMore : Token.Kind → Bool
  | .operator _ | .openParen | .openBracket | .comma => true
  | _ => false

/-- There are no tokens, or something has to follow the last of them. -/
def EndEarly (tokens : List Token) : Prop :=
  ∀ t, tokens.getLast? = some t → t.kind.expectsMore = true

/-- Where a mistake among some tokens of a text is that ends at `stop`: a stretch of the text, or
the place behind it if it ends too early. -/
def Located (stop : ℕ) (tokens : List Token) (m : Mistake) : Prop :=
  m.span.start < m.span.stop ∧ m.span.stop ≤ stop ∨
    m.span = ⟨stop, stop + 1⟩ ∧ (m.fault = .endOfText ∨ m.fault = .badIndex) ∧
      tokens ≠ [] ∧ EndEarly tokens

section

variable {stop lo : ℕ} {tokens rest after : List Token} {t before : Token} {m : Mistake}
  {fault : Fault}

theorem Located.of_suffix (h : Located stop rest m) (hrest : rest <:+ tokens) :
    Located stop tokens m := by
  refine h.imp_right fun ⟨hspan, hfault, hne, hearly⟩ => ⟨hspan, hfault, ?_, ?_⟩
  · rintro rfl
    exact hne (List.suffix_nil.mp hrest)
  · obtain ⟨front, rfl⟩ := hrest
    intro t ht
    rw [List.getLast?_append_of_ne_nil _ hne] at ht
    exact hearly t ht

theorem located_first (h : Placed lo (t :: after) stop) :
    Located stop tokens ⟨fault, t.span⟩ := by
  have hlt : t.start < t.stop := h.2.1
  have hle : t.stop ≤ stop := InOrder.le h.2.2
  exact .inl ⟨lt_of_lt_of_le hlt (le_max_left _ _), max_le hle (le_trans hlt hle)⟩

theorem span_finishAt : (finishAt stop).span = ⟨stop, stop + 1⟩ := by
  unfold Token.span finishAt
  dsimp only
  rw [max_eq_right (Nat.le_succ stop)]

theorem located_end (h : before.kind.expectsMore = true)
    (hfault : fault = .endOfText ∨ fault = .badIndex) :
    Located stop [before] ⟨fault, ⟨stop, stop + 1⟩⟩ := by
  refine Or.inr ⟨rfl, hfault, List.cons_ne_nil _ _, ?_⟩
  rintro _ ⟨⟩
  exact h

end

/-! ## Steps that stay in the text -/

/-- What a step does with the tokens that are left of a text, where `heard` are those and some
before them. With the end of the text and whatever else behind them it does the same and leaves
all that is behind. Its mistakes have their places. -/
structure Stays {α : Type} (stop : ℕ) (beyond : List Token) (step : Step α)
    (heard tokens : List Token) : Prop where
  alike : step (tokens ++ finishAt stop :: beyond) =
    (step tokens).map fun r => (r.1, r.2 ++ finishAt stop :: beyond)
  located : FailsAs (Located stop heard) (step tokens)
  rest : Yields (fun r => r.2 <:+ tokens) (step tokens)

section

variable {α β : Type} {stop lo : ℕ} {beyond heard tokens rest after : List Token}
  {step step' : Step α} {next : α → Step β} {a : α} {t : Token} {m : Mistake}

theorem stays_ok (h : step tokens = .ok (a, rest))
    (hbeyond : step (tokens ++ finishAt stop :: beyond) = .ok (a, rest ++ finishAt stop :: beyond))
    (hrest : rest <:+ tokens) : Stays stop beyond step heard tokens := by
  refine ⟨by rw [h, hbeyond]; rfl, ?_, ?_⟩
  · rw [h]
    exact failsAs_ok _
  · rw [h]
    exact yields_ok hrest

theorem stays_error (h : step tokens = .error m)
    (hbeyond : step (tokens ++ finishAt stop :: beyond) = .error m) (hm : Located stop heard m) :
    Stays stop beyond step heard tokens := by
  refine ⟨by rw [h, hbeyond]; rfl, ?_, ?_⟩
  · rw [h]
    exact failsAs_error hm
  · rw [h]
    rintro _ ⟨⟩

/-- What a step does is what another one does that stays. -/
theorem Stays.congr {heard' : List Token} (h : Stays stop beyond step heard tokens)
    (hstep : step' tokens = step tokens)
    (hbeyond : step' (tokens ++ finishAt stop :: beyond) = step (tokens ++ finishAt stop :: beyond))
    (hheard : heard <:+ heard') : Stays stop beyond step' heard' tokens := by
  refine ⟨?_, ?_, ?_⟩
  · rw [hstep, hbeyond]
    exact h.alike
  · rw [hstep]
    exact fun m hm => (h.located m hm).of_suffix hheard
  · rw [hstep]
    exact h.rest

/-- A step that uses up a token and goes on. -/
theorem stays_cons (h : ∀ after, step (t :: after) = step' after)
    (hstep : Stays stop beyond step' heard after) : Stays stop beyond step heard (t :: after) := by
  refine ⟨?_, ?_, ?_⟩
  · rw [List.cons_append, h, h]
    exact hstep.alike
  · rw [h]
    exact hstep.located
  · rw [h]
    exact fun r hr => (hstep.rest r hr).trans (List.suffix_cons t after)

theorem Stays.andThen (h : Stays stop beyond step heard tokens) (hheard : tokens <:+ heard)
    (hnext : ∀ a rest, step tokens = .ok (a, rest) → rest <:+ tokens →
      Stays stop beyond (next a) rest rest) :
    Stays stop beyond (step.andThen next) heard tokens := by
  obtain ⟨halike, hlocated, hrest⟩ := h
  unfold Step.andThen
  cases hstep : step tokens with
  | error m =>
    rw [hstep] at halike
    exact stays_error (by rw [hstep]; rfl) (by rw [halike]; rfl) (hlocated m hstep)
  | ok r =>
    obtain ⟨a, rest⟩ := r
    have hsuffix : rest <:+ tokens := hrest _ hstep
    have hgoes := hnext a rest hstep hsuffix
    rw [hstep] at halike
    refine ⟨?_, ?_, ?_⟩
    · rw [hstep, halike]
      exact hgoes.alike
    · rw [hstep]
      exact fun m hm => (hgoes.located m hm).of_suffix (hsuffix.trans hheard)
    · rw [hstep]
      exact fun r hr => (hgoes.rest r hr).trans hsuffix

theorem stays_behind {kind : Token.Kind → Bool} {b : β} {join : α → β}
    (hfinish : kind .finish = false)
    (hmore : ∀ t after, tokens = t :: after → kind t.kind = true →
      Stays stop beyond step (t :: after) after) :
    Stays stop beyond (Step.behind kind b step join) tokens tokens := by
  have hnothing : ∀ t after, kind t.kind = false →
      Step.behind kind b step join (t :: after) = .ok (b, t :: after) :=
    fun t after hkind => if_neg (by rw [hkind]; nofun)
  cases tokens with
  | nil => exact stays_ok rfl (hnothing _ _ hfinish) List.suffix_rfl
  | cons t after =>
    cases hkind : kind t.kind with
    | false => exact stays_ok (hnothing t after hkind) (hnothing t _ hkind) List.suffix_rfl
    | true =>
      have hgoes : Stays stop beyond (step.andThen fun a rest => .ok (join a, rest)) (t :: after)
          after :=
        (hmore t after rfl hkind).andThen (List.suffix_cons t after) fun a rest _ _ =>
          stays_ok rfl rfl List.suffix_rfl
      exact stays_cons (fun after => if_pos hkind) hgoes

theorem stays_closing {kind : Token.Kind → Bool} {value : Token → α}
    (hfinish : kind .finish = false) (hm : Located stop heard m) :
    Stays stop beyond (Step.closing kind m value) heard tokens := by
  have hnone : ∀ t after, kind t.kind = false → Step.closing kind m value (t :: after) = .error m :=
    fun t after hkind => if_neg (by rw [hkind]; nofun)
  cases tokens with
  | nil => exact stays_error rfl (hnone _ _ hfinish) hm
  | cons t after =>
    cases hkind : kind t.kind with
    | false => exact stays_error (hnone t after hkind) (hnone t _ hkind) hm
    | true => exact stays_ok (if_pos hkind) (if_pos hkind) (List.suffix_cons t after)

end

/-! ## Steps behind a token that something has to follow -/

/-- A step stays in the text behind any token that something has to follow, if there are fewer
tokens than so many. -/
def StaysBelow {α : Type} (stop : ℕ) (beyond : List Token) (n : ℕ) (step : Step α) : Prop :=
  ∀ tokens before lo, tokens.length < n → before.kind.expectsMore = true → Placed lo tokens stop →
    Stays stop beyond step (before :: tokens) tokens

section

variable {α β : Type} {stop lo n : ℕ} {beyond tokens : List Token}

/-- Something that is read once, and again behind each token of a kind that follows. -/
theorem staysBelow_repeated {step : Step α} {first : Step β} {kind : Token.Kind → Bool}
    {single : β → α} {join : β → α → α}
    (hstep : step = first.andThen fun b => Step.behind kind (single b) step (join b))
    (hprogress : first.Progresses) (hkind : ∀ k, kind k = true → k.expectsMore = true)
    (hfirst : StaysBelow stop beyond n first) : StaysBelow stop beyond n step := by
  have hfinish : kind .finish = false := Bool.eq_false_iff.mpr fun h => nomatch hkind _ h
  intro tokens before lo hlen hbefore hplaced
  induction hm : tokens.length using Nat.strongRecOn generalizing tokens before lo with
  | _ m ih =>
    rw [hstep]
    refine (hfirst _ _ _ hlen hbefore hplaced).andThen (List.suffix_cons _ _)
      fun b rest hb hrest => stays_behind hfinish ?_
    rintro t after rfl ht
    have hshort := hprogress _ _ _ hb
    rw [List.length_cons] at hshort
    have hafter := hplaced.of_isInfix ((List.suffix_cons t after).trans hrest).isInfix
    exact ih _ (by omega) _ _ _ (by omega) (hkind _ ht) hafter rfl

/-- Something has to follow each of these operators. -/
def ExpectMore (operator? : Token.Kind → Option Operator) : Prop :=
  ∀ kind op, operator? kind = some op → kind.expectsMore = true

section

variable {whole part : Step Expr} {tail : Expr → Step Expr}
  {operator? : Token.Kind → Option Operator}

theorem ReadsOn.stays (h : ReadsOn operator? whole part tail) (hmore : ExpectMore operator?)
    (hpart : StaysBelow stop beyond n part) (left : Expr) (hlen : tokens.length < n)
    (hplaced : Placed lo tokens stop) : Stays stop beyond (tail left) tokens tokens := by
  have hnone : ∀ left t after, operator? t.kind = none →
      tail left (t :: after) = .ok (left, t :: after) :=
    fun left t after hop => by rw [h.cons, hop]
  have hfinish : operator? .finish = none :=
    Option.eq_none_iff_forall_ne_some.mpr fun op hop => nomatch hmore _ _ hop
  induction hm : tokens.length using Nat.strongRecOn generalizing tokens left lo with
  | _ m ih =>
    cases tokens with
    | nil => exact stays_ok (h.nil left) (hnone left _ _ hfinish) List.suffix_rfl
    | cons t after =>
      cases hop : operator? t.kind with
      | none => exact stays_ok (hnone left t after hop) (hnone left t _ hop) List.suffix_rfl
      | some op =>
        rw [List.length_cons] at hlen hm
        have hcons : ∀ after, tail left (t :: after) =
            part.andThen (fun right => tail (binaryNode op left right)) after :=
          fun after => by rw [h.cons, hop]
        have hright : Stays stop beyond part (t :: after) after :=
          hpart _ _ _ (by omega) (hmore _ _ hop) hplaced.2.2
        refine stays_cons hcons
          (hright.andThen (List.suffix_cons t after) fun right rest hgot hrest => ?_)
        have hshort := h.progress _ _ _ hgot
        exact ih _ (by omega) _ (by omega) (Placed.of_isInfix hplaced.2.2 hrest.isInfix) rfl

theorem ReadsOn.staysBelow (h : ReadsOn operator? whole part tail) (hmore : ExpectMore operator?)
    (hpart : StaysBelow stop beyond n part) : StaysBelow stop beyond n whole := by
  intro tokens before lo hlen hbefore hplaced
  rw [h.starts]
  refine (hpart _ _ _ hlen hbefore hplaced).andThen (List.suffix_cons _ _)
    fun first rest hfirst hrest => ?_
  have hshort := h.progress _ _ _ hfirst
  exact h.stays hmore hpart first (by omega) (hplaced.of_isInfix hrest.isInfix)

end

end

/-! ## Index lists -/

section

variable {stop lo n : ℕ} {beyond tokens : List Token} {before name opening t : Token}

theorem staysBelow_index : StaysBelow stop beyond n (indexStep stop) := by
  intro tokens before lo _ hbefore hplaced
  cases tokens with
  | nil =>
    refine stays_error indexStep_nil ?_ (located_end hbefore (Or.inr rfl))
    change _ = Except.error (Mistake.mk .badIndex ⟨stop, stop + 1⟩)
    rw [← span_finishAt]
    rfl
  | cons t after =>
    refine stays_cons (fun _ => indexStep_cons) ?_
    cases t.kind with
    | number value =>
      cases value with
      | int n => exact stays_ok rfl rfl List.suffix_rfl
      | float x => exact stays_error rfl rfl (located_first hplaced)
    | name => exact stays_ok rfl rfl List.suffix_rfl
    | _ => exact stays_error rfl rfl (located_first hplaced)

/-- Something has to follow a comma. -/
theorem expectsMore_of_comma {kind : Token.Kind} (h : (kind == .comma) = true) :
    kind.expectsMore = true := by
  rw [beq_comma.mp h]
  rfl

theorem staysBelow_indices : StaysBelow stop beyond n (indicesStep stop) :=
  staysBelow_repeated indicesStep_eq progresses_plain (fun _ => expectsMore_of_comma)
    staysBelow_index

theorem stays_indexed (hopens : opening.kind = .openBracket)
    (hplaced : Placed lo (opening :: tokens) stop) :
    Stays stop beyond (indexedStep stop name opening) (opening :: tokens) tokens := by
  rw [indexedStep_eq]
  have hindices : Stays stop beyond (indicesStep stop) (opening :: tokens) tokens :=
    staysBelow_indices _ _ _ (Nat.lt_succ_self _) (by rw [hopens]; rfl) hplaced.2.2
  exact hindices.andThen (List.suffix_cons _ _) fun is rest _ _ =>
    stays_closing rfl (located_first hplaced)

end

/-! ## Calls -/

section

variable {stop lo : ℕ} {beyond tokens rest after : List Token} {before name opening t : Token}

/-- A call is refused as a whole, or for its name. -/
theorem failsAs_callNode {span : Span} {args : List Expr} :
    FailsAs (fun m => m.span = span ∨ m.span = name.place) (callNode name span args) := by
  unfold callNode
  split
  · split
    · split
      · exact failsAs_ok _
      · exact failsAs_error (Or.inl rfl)
    · exact failsAs_error (Or.inr rfl)
  · split
    · exact failsAs_error (Or.inr rfl)
    · split
      · exact failsAs_ok _
      · exact failsAs_error (Or.inl rfl)

theorem located_callNode {args : List Expr} (hname : name.start < name.stop)
    (hle : name.stop ≤ t.stop) (hstop : t.stop ≤ stop) :
    FailsAs (Located stop tokens) (callNode name ⟨name.start, t.stop⟩ args) := by
  intro m hm
  rcases failsAs_callNode m hm with hspan | hspan
  · rw [Located, hspan]
    exact Or.inl ⟨lt_of_lt_of_le hname hle, hstop⟩
  · rw [Located, hspan]
    exact Or.inl ⟨hname, le_trans hle hstop⟩

theorem stays_finish {args : List Expr} (hname : name.start < name.stop)
    (hopening : Located stop tokens ⟨.unclosedParen, opening.span⟩)
    (hplaced : Placed name.stop tokens stop) :
    Stays stop beyond (finishStep name opening args) tokens tokens := by
  cases tokens with
  | nil => exact stays_error finishStep_nil rfl hopening
  | cons t after =>
    have hcons : ∀ after, finishStep name opening args (t :: after) = _ :=
      fun _ => finishStep_cons
    by_cases hclosing : (t.kind == .closeParen) = true
    · obtain ⟨hle, hlt, hrest⟩ := hplaced
      simp only [if_pos hclosing] at hcons
      have hlocated : FailsAs (Located stop (t :: after))
          (callNode name ⟨name.start, t.stop⟩ args) :=
        located_callNode hname (le_trans hle (le_of_lt hlt)) hrest.le
      cases hnode : callNode name ⟨name.start, t.stop⟩ args with
      | error m =>
        have herror : ∀ after, finishStep name opening args (t :: after) = .error m :=
          fun after => by rw [hcons, hnode]; rfl
        exact stays_error (herror after) (herror _) (hlocated m hnode)
      | ok node =>
        have hok : ∀ after, finishStep name opening args (t :: after) = .ok (node, after) :=
          fun after => by rw [hcons, hnode]; rfl
        exact stays_ok (hok after) (hok _) (List.suffix_cons t after)
    · by_cases hfinish : (t.kind == .finish) = true
      · simp only [if_neg hclosing, if_pos hfinish] at hcons
        exact stays_error (hcons after) (hcons _) hopening
      · simp only [if_neg hclosing, if_neg hfinish] at hcons
        exact stays_error (hcons after) (hcons _) (located_first hplaced)

end

/-! ## Expressions -/

section

variable {stop lo n : ℕ} {beyond tokens : List Token} {before name opening t : Token}

theorem staysBelow_items (hsums : StaysBelow stop beyond n (sumStep stop)) :
    StaysBelow stop beyond n (itemsStep stop) :=
  staysBelow_repeated itemsStep_eq progresses_plain (fun _ => expectsMore_of_comma) hsums

theorem stays_arguments (hsums : StaysBelow stop beyond n (sumStep stop)) (hlen : tokens.length < n)
    (hopens : opening.kind = .openParen) (hplaced : Placed lo (name :: opening :: tokens) stop) :
    Stays stop beyond (argumentsStep stop name opening) (opening :: tokens) tokens := by
  have hexpects : opening.kind.expectsMore = true := by rw [hopens]; rfl
  obtain ⟨-, hname, hopening⟩ := hplaced
  have hunclosed : ∀ {heard}, Located stop heard ⟨.unclosedParen, opening.span⟩ :=
    located_first hopening
  have hinner : Placed name.stop tokens stop :=
    Placed.of_isInfix hopening (List.suffix_cons opening tokens).isInfix
  have hitems : Stays stop beyond (itemsStep stop) (opening :: tokens) tokens :=
    staysBelow_items hsums _ _ _ hlen hexpects hopening.2.2
  have hwhole : Stays stop beyond ((itemsStep stop).andThen (finishStep name opening))
      (opening :: tokens) tokens :=
    hitems.andThen (List.suffix_cons _ _) fun args rest _ hrest =>
      stays_finish hname hunclosed (hinner.of_isInfix hrest.isInfix)
  have hgoes : ∀ t after, ¬ (t.kind == .closeParen) = true →
      argumentsStep stop name opening (t :: after) =
        (itemsStep stop).andThen (finishStep name opening) (t :: after) :=
    fun t after hkind => by rw [argumentsStep_cons, if_neg hkind]
  cases tokens with
  | nil => exact hwhole.congr argumentsStep_nil (hgoes _ _ nofun) List.suffix_rfl
  | cons t after =>
    by_cases hkind : (t.kind == .closeParen) = true
    · have hnone : ∀ after, argumentsStep stop name opening (t :: after) =
          finishStep name opening [] (t :: after) :=
        fun after => by rw [argumentsStep_cons, if_pos hkind]
      exact (stays_finish hname hunclosed hinner).congr (hnone after) (hnone _)
        (List.suffix_cons opening _)
    · exact hwhole.congr (hgoes t after hkind) (hgoes t _ hkind) List.suffix_rfl

theorem stays_name (hsums : StaysBelow stop beyond n (sumStep stop)) (hlen : tokens.length ≤ n)
    (hplaced : Placed lo (name :: tokens) stop) :
    Stays stop beyond (nameStep stop name) (name :: tokens) tokens := by
  cases tokens with
  | nil => exact stays_ok rfl rfl List.suffix_rfl
  | cons t after =>
    rw [List.length_cons] at hlen
    by_cases hcall : t.kind = .openParen
    · have harguments := stays_arguments hsums (by omega) hcall hplaced
      exact stays_cons (fun _ => nameStep_call hcall)
        (harguments.congr rfl rfl (List.suffix_cons name _))
    by_cases hindexing : t.kind = .openBracket
    · have hindexed : Stays stop beyond (indexedStep stop name t) (t :: after) after :=
        stays_indexed hindexing hplaced.2.2
      exact stays_cons (fun _ => nameStep_indexing hindexing)
        (hindexed.congr rfl rfl (List.suffix_cons name _))
    · exact stays_ok (nameStep_alone hcall hindexing) (nameStep_alone hcall hindexing)
        List.suffix_rfl

theorem staysBelow_operand (hsums : StaysBelow stop beyond n (sumStep stop)) :
    StaysBelow stop beyond (n + 1) (operandStep stop) := by
  intro tokens before lo hlen hbefore hplaced
  cases tokens with
  | nil =>
    refine stays_error operandStep_nil ?_ (located_end hbefore (Or.inl rfl))
    change _ = Except.error (Mistake.mk .endOfText ⟨stop, stop + 1⟩)
    rw [← span_finishAt]
    exact operandStep_cons
  | cons t after =>
    rw [List.length_cons] at hlen
    have hcons : ∀ after, operandStep stop (t :: after) = _ := fun _ => operandStep_cons
    cases hkind : t.kind with
    | number value =>
      simp only [hkind] at hcons
      exact stays_ok (hcons after) (hcons _) (List.suffix_cons t after)
    | openParen =>
      simp only [hkind] at hcons
      have hsum := hsums after t t.stop (by omega) (by rw [hkind]; rfl) hplaced.2.2
      have hclosed : Stays stop beyond ((sumStep stop).andThen fun node =>
          Step.closing (· == .closeParen) ⟨.unclosedParen, t.span⟩ fun _ => node) (t :: after)
            after :=
        hsum.andThen (List.suffix_cons t after) fun node rest _ _ =>
          stays_closing rfl (located_first hplaced)
      exact stays_cons hcons (hclosed.congr rfl rfl (List.suffix_cons before _))
    | name =>
      simp only [hkind] at hcons
      have hname : Stays stop beyond (nameStep stop t) (t :: after) after :=
        stays_name hsums (by omega) hplaced
      exact stays_cons hcons (hname.congr rfl rfl (List.suffix_cons before _))
    | _ =>
      simp only [hkind] at hcons
      exact stays_error (hcons after) (hcons _) (located_first hplaced)

theorem expectMore_sums : ExpectMore sumOperator? := by
  intro kind op hop
  rw [(sumOperator?_eq_some.mp hop).1]
  rfl

theorem expectMore_products : ExpectMore productOperator? := by
  intro kind op hop
  rw [(productOperator?_eq_some.mp hop).1]
  rfl

theorem expectsMore_of_pow {kind : Token.Kind} (h : (kind == .operator .pow) = true) :
    kind.expectsMore = true := by
  rw [beq_pow.mp h]
  rfl

theorem staysBelow_signed (hsums : StaysBelow stop beyond n (sumStep stop)) :
    StaysBelow stop beyond (n + 1) (signedStep stop) := by
  intro tokens before lo hlen hbefore hplaced
  have hoperand := staysBelow_operand hsums _ _ _ hlen hbefore hplaced
  have hnone : ∀ t after, sumOperator? t.kind = none →
      signedStep stop (t :: after) = operandStep stop (t :: after) :=
    fun t after hop => by rw [signedStep_cons, hop]
  induction tokens generalizing before lo with
  | nil => exact hoperand.congr signedStep_nil (hnone _ _ rfl) List.suffix_rfl
  | cons t after ih =>
    cases hop : sumOperator? t.kind with
    | none => exact hoperand.congr (hnone t after hop) (hnone t _ hop) List.suffix_rfl
    | some op =>
      have hcons : ∀ after,
          signedStep stop (t :: after) = (signedStep stop).andThen (signStep op t) after :=
        fun after => by rw [signedStep_cons, hop]
      rw [List.length_cons] at hlen
      have hexpects := expectMore_sums _ _ hop
      have hafter := ih _ _ (by omega) hexpects hplaced.2.2
        (staysBelow_operand hsums _ _ _ (by omega) hexpects hplaced.2.2)
      have hgoes : Stays stop beyond ((signedStep stop).andThen (signStep op t)) (t :: after)
          after :=
        hafter.andThen (List.suffix_cons t after) fun node rest _ _ =>
          stays_ok rfl rfl List.suffix_rfl
      exact stays_cons hcons (hgoes.congr rfl rfl (List.suffix_cons before _))

theorem staysBelow_power (hsums : StaysBelow stop beyond n (sumStep stop)) :
    StaysBelow stop beyond (n + 1) (powerStep stop) :=
  staysBelow_repeated powerStep_eq progresses_plain (fun _ => expectsMore_of_pow)
    (staysBelow_signed hsums)

theorem staysBelow_product (hsums : StaysBelow stop beyond n (sumStep stop)) :
    StaysBelow stop beyond (n + 1) (productStep stop) :=
  readsOn_products.staysBelow expectMore_products (staysBelow_power hsums)

end

/-- Whatever is read as a sum stays in the text. -/
theorem staysBelow_sum (stop : ℕ) (beyond : List Token) (n : ℕ) :
    StaysBelow stop beyond n (sumStep stop) := by
  -- The sums in a sum, in parentheses or as arguments, have fewer tokens than it.
  induction n with
  | zero => exact fun _ _ _ hlen => absurd hlen (Nat.not_lt_zero _)
  | succ n hsums =>
    exact readsOn_sums.staysBelow expectMore_sums (staysBelow_product hsums)

/-! ## Mistakes of a text -/

/-- The place of a mistake: a stretch of the text, or the place behind it. The latter is that of a
text that ends too early. -/
def Mistake.HasPlace (m : Mistake) (text : String) : Prop :=
  m.span.start < m.span.stop ∧ m.span.stop ≤ text.toList.length ∨
    m.span = ⟨text.toList.length, text.toList.length + 1⟩ ∧
      m.fault ∈ [.empty, .endOfText, .badIndex] ∧
        ∃ tokens, tokensFrom 0 text.toList = .ok tokens ∧ EndEarly tokens

/-- Why a text is refused: a mistake in its place, or a number that is too long. -/
def Tells (text : String) : Unreadable → Prop
  | .mistake m => m.HasPlace text
  | .longInteger => HasLongNumeral text.toList

section

variable {text : String} {tokens : List Token}

theorem Located.hasPlace {m : Mistake} (htokens : tokensFrom 0 text.toList = .ok tokens)
    (h : Located text.toList.length tokens m) : m.HasPlace text := by
  refine h.imp_right fun ⟨hspan, hfault, _, hearly⟩ => ⟨hspan, ?_, tokens, htokens, hearly⟩
  rcases hfault with hfault | hfault <;> simp [hfault]

/-- The parser stays in a text. No token stands before the first one, where any token does that
something has to follow. -/
theorem stays_text (htokens : tokensFrom 0 text.toList = .ok tokens) (beyond : List Token) :
    Stays text.toList.length beyond (sumStep text.toList.length) (⟨.comma, "", 0, 0⟩ :: tokens)
      tokens :=
  staysBelow_sum _ beyond _ tokens _ 0 (Nat.lt_succ_self _) rfl (placed_text htokens)

theorem tells_ofTokens (htokens : tokensFrom 0 text.toList = .ok tokens) :
    FailsAs (fun m => Tells text (.mistake m)) (ofTokens text.toList.length tokens) := by
  cases tokens with
  | nil => exact failsAs_error (Or.inr ⟨rfl, by simp, [], htokens, nofun⟩)
  | cons t after =>
    rw [ofTokens_cons]
    have hstays := stays_text htokens []
    refine failsAs_bind_of (fun m hm => ?_) fun ⟨node, rest⟩ hsum => ?_
    · refine Located.hasPlace htokens ((hstays.located m hm).imp_right ?_)
      rintro ⟨hspan, hfault, -, hearly⟩
      exact ⟨hspan, hfault, List.cons_ne_nil t after, hearly⟩
    · have hrest : rest <:+ t :: after := hstays.rest _ hsum
      have hplaced := (placed_text htokens).of_isInfix hrest.isInfix
      cases rest with
      | nil => exact failsAs_ok node
      | cons u rest =>
        have hlocated : ∀ {fault}, Mistake.HasPlace ⟨fault, u.span⟩ text := fun {fault} =>
          Located.hasPlace htokens (located_first hplaced)
        unfold ended
        dsimp only
        split <;> exact failsAs_error hlocated

theorem tells_parse (text : String) : FailsAs (Tells text) (parse text) := by
  unfold parse
  dsimp only
  refine failsAs_bind_of (fun u hu => ?_) fun tokens htokens => ?_
  · have hrefuses := refuses_tokensFrom 0 text.toList u hu
    cases u with
    | longInteger => exact hrefuses
    | mistake m =>
      obtain ⟨-, hlt, hle⟩ := hrefuses
      rw [Nat.zero_add] at hle
      exact Or.inl ⟨hlt, hle⟩
  · exact failsAs_mapError (tells_ofTokens htokens)

end

end Expr

namespace Formula

open EnergyGraph.Expr

theorem length_pos_of_parse {text : String} {e : Expr} (h : parse text = .ok e) :
    0 < text.toList.length := by
  rw [List.length_pos_iff]
  intro hnil
  unfold parse at h
  dsimp only at h
  rw [hnil, tokensFrom.eq_1] at h
  cases h

theorem tells_ofText (text : String) {arity : Arity} (harity : arity.IsNatural) :
    FailsAs (Tells text) (ofText text arity) := by
  unfold ofText
  split
  · rename_i n
    rw [if_neg (Int.not_lt.mpr (harity n rfl))]
    refine failsAs_bind_of (tells_parse text) fun body hbody => ?_
    dsimp only
    split
    · have hpos := length_pos_of_parse hbody
      rw [String.length_toList] at hpos
      exact failsAs_error (Or.inl ⟨hpos, le_of_eq String.length_toList.symm⟩)
    · exact failsAs_ok _
  · exact failsAs_bind (tells_parse text) fun body => failsAs_ok _

theorem kept_of_ofText {text : String} {arity : Arity} {f : Formula}
    (h : ofText text arity = .ok f) : f.source = text ∧ f.arity = arity := by
  unfold ofText at h
  split at h
  · split at h
    · cases h
    · obtain ⟨body, -, h⟩ := bind_eq_ok.mp h
      dsimp only at h
      split at h
      · cases h
      · cases h
        exact ⟨rfl, rfl⟩
  · obtain ⟨body, -, h⟩ := bind_eq_ok.mp h
    cases h
    exact ⟨rfl, rfl⟩

/-- A text is a formula, or it has a mistake that is told with the text and its place in it, unless
it has a number that is too long. Its tokens are read without passing the end of the text. -/
theorem ofText_or_located (text : String) {arity : Arity} (harity : arity.IsNatural) :
    ((∃ f, ofText text arity = .ok f ∧ f.source = text ∧ f.arity = arity) ∨
      (∃ m d, ofText text arity = .error (.mistake m) ∧ m.HasPlace text ∧
        ofValue (.text text) arity = .error (.diagnostic d) ∧ d.category = .compile ∧
          d.location = some ⟨text, m.span⟩) ∨
        ofText text arity = .error .longInteger ∧ HasLongNumeral text.toList) ∧
      ∀ tokens beyond, tokensFrom 0 text.toList = .ok tokens →
        plain (takeSum text.toList.length (tokens ++ finishAt text.toList.length :: beyond)) =
          (plain (takeSum text.toList.length tokens)).map fun r =>
            (r.1, r.2 ++ finishAt text.toList.length :: beyond) := by
  refine ⟨?_, fun tokens beyond htokens => (stays_text htokens beyond).alike⟩
  cases h : ofText text arity with
  | ok f => exact Or.inl ⟨f, rfl, kept_of_ofText h⟩
  | error u =>
    have htells := tells_ofText text harity u h
    cases u with
    | mistake m =>
      refine Or.inr (Or.inl ⟨m, m.diagnostic text, rfl, htells, ?_, rfl, rfl⟩)
      change (ofText text arity).mapError _ = _
      rw [h]
      rfl
    | longInteger => exact Or.inr (Or.inr ⟨rfl, htells⟩)

/-- A sum without its second term. -/
theorem ofText_or_located_early :
    ofText "1 +" .unspecified = .error (.mistake ⟨.endOfText, ⟨3, 4⟩⟩) ∧
      Mistake.HasPlace ⟨.endOfText, ⟨3, 4⟩⟩ "1 +" ∧
        ∃ d, ofValue (.text "1 +") .unspecified = .error (.diagnostic d) ∧
          d.location = some ⟨"1 +", ⟨3, 4⟩⟩ := by
  have htokens : tokensFrom 0 "1 +".toList =
      .ok [⟨.number (.int 1), "1", 0, 1⟩, ⟨.operator .add, "+", 2, 3⟩] := by with_unfolding_all rfl
  have h : ofText "1 +" .unspecified = .error (.mistake ⟨.endOfText, ⟨3, 4⟩⟩) := by
    unfold ofText
    dsimp only
    rw [parse_of_tokensFrom htokens]
    cbv
  have harity : Arity.unspecified.IsNatural := by
    intro n hn
    cases hn
  obtain ⟨⟨f, hf, -⟩ | ⟨m, d, hm, hplace, hvalue, -, hlocation⟩ | ⟨hlong, -⟩, -⟩ :=
    ofText_or_located "1 +" harity
  · rw [h] at hf
    cases hf
  · rw [h] at hm
    cases hm
    exact ⟨h, hplace, d, hvalue, hlocation⟩
  · rw [h] at hlong
    cases hlong

end Formula

end EnergyGraph
