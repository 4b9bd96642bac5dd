-- The parser as steps, one after the other. A step reads something from the front of the tokens
-- and leaves the rest, or finds a mistake. Each function of the parser is put together from the
-- steps of those that it calls; that the rest gets shorter is left out.
import EnergyGraph.Expr.Parser
import EnergyGraph.Proofs.Steps

namespace EnergyGraph.Expr

/-- Something read from the front of the tokens, with the rest of them, or a mistake. -/
abbrev Step (α : Type) := List Token → Except Mistake (α × List Token)

section

variable {α β γ : Type}

/-- A step, and one that goes on with what is left. -/
def Step.andThen (first : Step α) (next : α → Step β) : Step β :=
  fun tokens => first tokens >>= fun r => next r.1 r.2

/-- Goes on behind a token of a kind. Otherwise nothing more is read. -/
def Step.behind (kind : Token.Kind → Bool) (a : β) (more : Step α) (join : α → β) : Step β
  | [] => .ok (a, [])
  | t :: after =>
    if kind t.kind then more after >>= fun r => .ok (join r.1, r.2)
    else .ok (a, t :: after)

/-- Takes a bracket that closes something. It is a mistake if there is none. -/
def Step.closing (kind : Token.Kind → Bool) (m : Mistake) (value : Token → α) : Step α
  | [] => .error m
  | t :: after => if kind t.kind then .ok (value t, after) else .error m

/-! ### What steps read -/

section

variable {tokens rest : List Token} {kind : Token.Kind → Bool} {a : α} {b : β}

theorem Step.andThen_eq_ok {first : Step α} {next : α → Step β} :
    first.andThen next tokens = .ok (b, rest) ↔
      ∃ a mid, first tokens = .ok (a, mid) ∧ next a mid = .ok (b, rest) :=
  bind_eq_ok.trans Prod.exists

theorem Step.behind_eq_ok {more : Step α} {join : α → β} {single : β} :
    Step.behind kind single more join tokens = .ok (b, rest) ↔
      ((∀ t after, tokens = t :: after → kind t.kind = false) ∧ b = single ∧ rest = tokens) ∨
        ∃ t after c, tokens = t :: after ∧ kind t.kind = true ∧ more after = .ok (c, rest) ∧
          b = join c := by
  unfold Step.behind
  cases tokens with
  | nil =>
    constructor
    · rintro ⟨⟩
      exact Or.inl ⟨nofun, rfl, rfl⟩
    · rintro (⟨-, rfl, rfl⟩ | ⟨t, after, c, ⟨⟩, -⟩)
      rfl
  | cons t after =>
    dsimp only
    constructor
    · intro h
      split at h
      · rename_i hkind
        obtain ⟨⟨c, left⟩, hmore, ⟨⟩⟩ := bind_eq_ok.mp h
        exact Or.inr ⟨t, after, c, rfl, hkind, hmore, rfl⟩
      · rename_i hkind
        cases h
        refine Or.inl ⟨?_, rfl, rfl⟩
        rintro _ _ ⟨⟩
        exact Bool.eq_false_iff.mpr hkind
    · rintro (⟨hkind, rfl, rfl⟩ | ⟨_, _, c, ⟨⟩, hkind, hmore, rfl⟩)
      · rw [hkind t after rfl]
        rfl
      · rw [if_pos hkind, hmore]
        rfl

theorem Step.closing_eq_ok {m : Mistake} {value : Token → α} :
    Step.closing kind m value tokens = .ok (a, rest) ↔
      ∃ t, tokens = t :: rest ∧ kind t.kind = true ∧ a = value t := by
  unfold Step.closing
  cases tokens with
  | nil => simp
  | cons t after =>
    dsimp only
    split
    · rename_i hkind
      constructor
      · rintro ⟨⟩
        exact ⟨t, rfl, hkind, rfl⟩
      · rintro ⟨_, ⟨⟩, -, rfl⟩
        rfl
    · rename_i hkind
      constructor
      · rintro ⟨⟩
      · rintro ⟨_, ⟨⟩, ht, -⟩
        exact absurd ht hkind

end

/-! ### What functions read -/

/-- What is read, without the proof that there is less left. -/
def plain {tokens : List Token} (x : Except Mistake (Parsed α tokens)) :
    Except Mistake (α × List Token) :=
  x.map fun p => (p.value, p.rest)

def plainly {tokens : List Token} (x : Except Mistake (Continued α tokens)) :
    Except Mistake (α × List Token) :=
  x.map fun p => (p.value, p.rest)

/-- Whatever a step reads, it uses up a token for it. -/
def Step.Progresses (step : Step α) : Prop :=
  ∀ tokens a rest, step tokens = .ok (a, rest) → rest.length < tokens.length

theorem progresses_plain {take : ∀ tokens, Except Mistake (Parsed α tokens)} :
    Step.Progresses fun tokens => plain (take tokens) := by
  intro tokens a rest h
  obtain ⟨p, -, hp⟩ := map_eq_ok.mp h
  cases hp
  exact p.shorter

end

/-! ## The steps of the parser -/

section

variable (stop : ℕ)

def sumStep : Step Expr := fun tokens => plain (takeSum stop tokens)

def sumTailStep (left : Expr) : Step Expr := fun tokens => plainly (takeSumTail stop left tokens)

def productStep : Step Expr := fun tokens => plain (takeProduct stop tokens)

def productTailStep (left : Expr) : Step Expr :=
  fun tokens => plainly (takeProductTail stop left tokens)

def powerStep : Step Expr := fun tokens => plain (takePower stop tokens)

def signedStep : Step Expr := fun tokens => plain (takeSigned stop tokens)

def operandStep : Step Expr := fun tokens => plain (takeOperand stop tokens)

def argumentsStep (name opening : Token) : Step Expr :=
  fun tokens => plain (takeArguments stop name opening tokens)

def itemsStep : Step (List Expr) := fun tokens => plain (takeItems stop tokens)

def finishStep (name opening : Token) (args : List Expr) : Step Expr :=
  fun tokens => plain (finishCall name opening args tokens)

def indexStep : Step Index := fun tokens => plain (takeIndex stop tokens)

def indicesStep : Step (List Index) := fun tokens => plain (takeIndices stop tokens)

def indexedStep (name opening : Token) : Step Expr :=
  fun tokens => plain (takeIndexed stop name opening tokens)

end

/-- A sign in front of an operand; a plus sign leaves no trace. -/
def signStep (op : Operator) (sign : Token) (node : Expr) : Step Expr := fun tokens =>
  .ok (if op = .sub then .negate node ⟨sign.start, node.span.stop⟩ else node, tokens)

/-- What follows a name: arguments, an index list, or nothing that belongs to it. -/
def nameStep (stop : ℕ) (name : Token) : Step Expr
  | [] => .ok (.ref name.text [] ⟨name.start, name.stop⟩, [])
  | t :: after =>
    match t.kind with
    | .openParen => argumentsStep stop name t after
    | .openBracket => indexedStep stop name t after
    | _ => .ok (.ref name.text [] ⟨name.start, name.stop⟩, t :: after)

section

variable {stop : ℕ} {t name opening : Token} {after : List Token} {left : Expr}

theorem sumStep_eq : sumStep stop = (productStep stop).andThen (sumTailStep stop) := by
  funext tokens
  change plain (takeSum stop tokens) =
    plain (takeProduct stop tokens) >>= fun r => plainly (takeSumTail stop r.1 r.2)
  rw [takeSum]
  rcases takeProduct stop tokens with m | ⟨first, rest, hrest⟩
  · rfl
  · change _ = plainly (takeSumTail stop first rest)
    dsimp only
    rcases takeSumTail stop first rest with m | ⟨node, tail, htail⟩ <;> rfl

theorem sumTailStep_nil : sumTailStep stop left [] = .ok (left, []) := by
  unfold sumTailStep
  rw [takeSumTail]
  rfl

theorem sumTailStep_cons : sumTailStep stop left (t :: after) =
    match sumOperator? t.kind with
    | none => .ok (left, t :: after)
    | some op =>
      (productStep stop).andThen (fun right => sumTailStep stop (binaryNode op left right))
        after := by
  unfold sumTailStep
  rw [takeSumTail]
  cases sumOperator? t.kind with
  | none => rfl
  | some op =>
    change _ = plain (takeProduct stop after) >>= fun r =>
      plainly (takeSumTail stop (binaryNode op left r.1) r.2)
    dsimp only
    rcases takeProduct stop after with m | ⟨right, rest, hrest⟩
    · rfl
    · change _ = plainly (takeSumTail stop (binaryNode op left right) rest)
      dsimp only
      rcases takeSumTail stop (binaryNode op left right) rest with m | ⟨node, tail, htail⟩ <;> rfl

theorem productStep_eq : productStep stop = (powerStep stop).andThen (productTailStep stop) := by
  funext tokens
  change plain (takeProduct stop tokens) =
    plain (takePower stop tokens) >>= fun r => plainly (takeProductTail stop r.1 r.2)
  rw [takeProduct]
  rcases takePower stop tokens with m | ⟨first, rest, hrest⟩
  · rfl
  · change _ = plainly (takeProductTail stop first rest)
    dsimp only
    rcases takeProductTail stop first rest with m | ⟨node, tail, htail⟩ <;> rfl

theorem productTailStep_nil : productTailStep stop left [] = .ok (left, []) := by
  unfold productTailStep
  rw [takeProductTail]
  rfl

theorem productTailStep_cons : productTailStep stop left (t :: after) =
    match productOperator? t.kind with
    | none => .ok (left, t :: after)
    | some op =>
      (powerStep stop).andThen (fun right => productTailStep stop (binaryNode op left right))
        after := by
  unfold productTailStep
  rw [takeProductTail]
  cases productOperator? t.kind with
  | none => rfl
  | some op =>
    change _ = plain (takePower stop after) >>= fun r =>
      plainly (takeProductTail stop (binaryNode op left r.1) r.2)
    dsimp only
    rcases takePower stop after with m | ⟨right, rest, hrest⟩
    · rfl
    · change _ = plainly (takeProductTail stop (binaryNode op left right) rest)
      dsimp only
      rcases takeProductTail stop (binaryNode op left right) rest with m | ⟨node, tail, htail⟩ <;>
        rfl

theorem powerStep_eq : powerStep stop = (signedStep stop).andThen fun base =>
    Step.behind (· == .operator .pow) base (powerStep stop) (binaryNode .pow base) := by
  funext tokens
  change plain (takePower stop tokens) = plain (takeSigned stop tokens) >>= fun r =>
    Step.behind (· == .operator .pow) r.1 (powerStep stop) (binaryNode .pow r.1) r.2
  rw [takePower]
  rcases takeSigned stop tokens with m | ⟨base, rest, hrest⟩
  · rfl
  · cases rest with
    | nil => rfl
    | cons t after =>
      change _ = if t.kind == .operator .pow then
          plain (takePower stop after) >>= fun r => .ok (binaryNode .pow base r.1, r.2)
        else .ok (base, t :: after)
      dsimp only
      split
      · rcases takePower stop after with m | ⟨exponent, tail, htail⟩ <;> rfl
      · rfl

theorem signedStep_nil : signedStep stop [] = operandStep stop [] := by
  unfold signedStep
  rw [takeSigned]
  rfl

theorem signedStep_cons : signedStep stop (t :: after) =
    match sumOperator? t.kind with
    | none => operandStep stop (t :: after)
    | some op => (signedStep stop).andThen (signStep op t) after := by
  unfold signedStep
  rw [takeSigned]
  cases sumOperator? t.kind with
  | none => rfl
  | some op =>
    change _ = plain (takeSigned stop after) >>= fun r => signStep op t r.1 r.2
    dsimp only
    rcases takeSigned stop after with m | ⟨node, rest, hrest⟩ <;> rfl

/-! ### Operands -/

theorem operandStep_nil : operandStep stop [] = .error ⟨.endOfText, spanAt stop []⟩ := by
  unfold operandStep
  rw [takeOperand]
  rfl

theorem operandStep_cons : operandStep stop (t :: after) =
    match t.kind with
    | .number value => .ok (.literal value ⟨t.start, t.stop⟩, after)
    | .openParen => (sumStep stop).andThen (fun node =>
        Step.closing (· == .closeParen) ⟨.unclosedParen, t.span⟩ fun _ => node) after
    | .name => nameStep stop t after
    | .finish => .error ⟨.endOfText, t.span⟩
    | _ => .error ⟨.unexpectedToken t.text, t.span⟩ := by
  unfold operandStep takeOperand
  cases t.kind with
  | openParen =>
    change _ = plain (takeSum stop after) >>= fun r =>
      Step.closing (· == .closeParen) ⟨.unclosedParen, t.span⟩ (fun _ => r.1) r.2
    dsimp only
    rcases takeSum stop after with m | ⟨node, rest, hrest⟩
    · rfl
    · cases rest with
      | nil => rfl
      | cons u tail =>
        change _ = if u.kind == .closeParen then _ else _
        dsimp only
        split <;> rfl
  | name =>
    dsimp only
    cases after with
    | nil => rfl
    | cons u tail =>
      unfold nameStep
      dsimp only
      cases u.kind with
      | openParen =>
        change _ = plain (takeArguments stop t u tail)
        dsimp only
        rcases takeArguments stop t u tail with m | ⟨node, rest, hrest⟩ <;> rfl
      | openBracket =>
        change _ = plain (takeIndexed stop t u tail)
        dsimp only
        rcases takeIndexed stop t u tail with m | ⟨node, rest, hrest⟩ <;> rfl
      | _ => rfl
  | _ => rfl

theorem nameStep_call (h : t.kind = .openParen) :
    nameStep stop name (t :: after) = argumentsStep stop name t after := by
  unfold nameStep
  simp only [h]

theorem nameStep_indexing (h : t.kind = .openBracket) :
    nameStep stop name (t :: after) = indexedStep stop name t after := by
  unfold nameStep
  simp only [h]

theorem nameStep_alone (hcall : t.kind ≠ .openParen) (hindexing : t.kind ≠ .openBracket) :
    nameStep stop name (t :: after) =
      .ok (.ref name.text [] ⟨name.start, name.stop⟩, t :: after) := by
  unfold nameStep
  dsimp only
  split
  · contradiction
  · contradiction
  · rfl

theorem itemsStep_eq : itemsStep stop = (sumStep stop).andThen fun first =>
    Step.behind (· == .comma) [first] (itemsStep stop) (first :: ·) := by
  funext tokens
  change plain (takeItems stop tokens) = plain (takeSum stop tokens) >>= fun r =>
    Step.behind (· == .comma) [r.1] (itemsStep stop) (r.1 :: ·) r.2
  rw [takeItems]
  rcases takeSum stop tokens with m | ⟨first, rest, hrest⟩
  · rfl
  · cases rest with
    | nil => rfl
    | cons t after =>
      change _ = if t.kind == .comma then
          plain (takeItems stop after) >>= fun r => .ok (first :: r.1, r.2)
        else .ok ([first], t :: after)
      dsimp only
      split
      · rcases takeItems stop after with m | ⟨more, tail, htail⟩ <;> rfl
      · rfl

/-- A mistake in what comes first is one of the whole sum. -/
theorem sumStep_eq_error {tokens : List Token} {m : Mistake}
    (h : signedStep stop tokens = .error m) : sumStep stop tokens = .error m := by
  rw [sumStep_eq, productStep_eq, powerStep_eq]
  unfold Step.andThen
  rw [h]
  rfl

theorem sumStep_nil : sumStep stop [] = .error ⟨.endOfText, spanAt stop []⟩ :=
  sumStep_eq_error (signedStep_nil.trans operandStep_nil)

/-- Where there is no argument, nothing is read. -/
theorem argumentsStep_nil : argumentsStep stop name opening [] =
    (itemsStep stop).andThen (finishStep name opening) [] := by
  unfold argumentsStep
  rw [takeArguments, itemsStep_eq]
  unfold Step.andThen
  rw [sumStep_nil]
  rfl

theorem argumentsStep_cons : argumentsStep stop name opening (t :: after) =
    if t.kind == .closeParen then finishStep name opening [] (t :: after)
    else (itemsStep stop).andThen (finishStep name opening) (t :: after) := by
  unfold argumentsStep
  rw [takeArguments]
  split
  · rfl
  · change _ = plain (takeItems stop (t :: after)) >>= fun r =>
      plain (finishCall name opening r.1 r.2)
    rcases takeItems stop (t :: after) with m | ⟨args, rest, hrest⟩
    · rfl
    · change _ = plain (finishCall name opening args rest)
      dsimp only
      rcases finishCall name opening args rest with m | ⟨node, tail, htail⟩ <;> rfl

theorem finishStep_nil {args : List Expr} :
    finishStep name opening args [] = .error ⟨.unclosedParen, opening.span⟩ := rfl

theorem finishStep_cons {args : List Expr} : finishStep name opening args (t :: after) =
    if t.kind == .closeParen then
      (callNode name ⟨name.start, t.stop⟩ args).map fun node => (node, after)
    else if t.kind == .finish then .error ⟨.unclosedParen, opening.span⟩
    else .error ⟨.unexpectedInArguments t.text, t.span⟩ := by
  unfold finishStep finishCall
  dsimp only
  split
  · cases callNode name ⟨name.start, t.stop⟩ args <;> rfl
  · split <;> rfl

/-! ### Index lists -/

theorem indexStep_nil : indexStep stop [] = .error ⟨.badIndex, spanAt stop []⟩ := rfl

theorem indexStep_cons : indexStep stop (t :: after) =
    match t.kind with
    | .name => .ok (.symbol t.text ⟨t.start, t.stop⟩, after)
    | .number (.int n) => .ok (.literal n ⟨t.start, t.stop⟩, after)
    | .number (.float _) => .error ⟨.fractionalIndex t.text, t.span⟩
    | _ => .error ⟨.badIndex, t.span⟩ := by
  unfold indexStep takeIndex
  dsimp only
  cases t.kind with
  | number value => cases value <;> rfl
  | _ => rfl

theorem indicesStep_eq : indicesStep stop = (indexStep stop).andThen fun i =>
    Step.behind (· == .comma) [i] (indicesStep stop) (i :: ·) := by
  funext tokens
  change plain (takeIndices stop tokens) = plain (takeIndex stop tokens) >>= fun r =>
    Step.behind (· == .comma) [r.1] (indicesStep stop) (r.1 :: ·) r.2
  rw [takeIndices]
  rcases takeIndex stop tokens with m | ⟨i, rest, hrest⟩
  · rfl
  · cases rest with
    | nil => rfl
    | cons t after =>
      change _ = if t.kind == .comma then
          plain (takeIndices stop after) >>= fun r => .ok (i :: r.1, r.2)
        else .ok ([i], t :: after)
      dsimp only
      split
      · rcases takeIndices stop after with m | ⟨more, tail, htail⟩ <;> rfl
      · rfl

theorem indexedStep_eq : indexedStep stop name opening = (indicesStep stop).andThen fun is =>
    Step.closing (· == .closeBracket) ⟨.unclosedBracket, opening.span⟩ fun t =>
      .ref name.text is ⟨name.start, t.stop⟩ := by
  funext tokens
  change plain (takeIndexed stop name opening tokens) = plain (takeIndices stop tokens) >>= fun r =>
    Step.closing (· == .closeBracket) ⟨.unclosedBracket, opening.span⟩
      (fun t => .ref name.text r.1 ⟨name.start, t.stop⟩) r.2
  unfold takeIndexed
  rcases takeIndices stop tokens with m | ⟨is, rest, hrest⟩
  · rfl
  · cases rest with
    | nil => rfl
    | cons t after =>
      change _ = if t.kind == .closeBracket then _ else _
      dsimp only
      split <;> rfl

end

/-! ## Whole texts -/

/-- Nothing may be left of a text behind its expression. -/
def ended : Expr × List Token → Except Mistake Expr
  | (e, []) => .ok e
  | (_, t :: _) =>
    match t.kind with
    | .closeParen | .closeBracket => .error ⟨.unopened t.text, t.span⟩
    | _ => .error ⟨.unexpectedToken t.text, t.span⟩

theorem ofTokens_cons {stop : ℕ} {t : Token} {after : List Token} :
    ofTokens stop (t :: after) = sumStep stop (t :: after) >>= ended := by
  unfold ofTokens sumStep
  rcases takeSum stop (t :: after) with m | ⟨node, rest, hrest⟩
  · rfl
  · cases rest <;> rfl

theorem ended_eq_ok {r : Expr × List Token} {e : Expr} : ended r = .ok e ↔ r = (e, []) := by
  obtain ⟨node, rest⟩ := r
  cases rest with
  | nil => simp [ended]
  | cons t after =>
    refine iff_of_false (fun h => ?_) (by simp)
    unfold ended at h
    dsimp only at h
    split at h <;> cases h

/-! ## Operands with operators between them -/

/-- Parts are read one after the other, as long as there are operators between them. What there is
so far goes to the left of an operator. -/
structure ReadsOn (operator? : Token.Kind → Option Operator) (whole part : Step Expr)
    (tail : Expr → Step Expr) : Prop where
  starts : whole = part.andThen tail
  progress : part.Progresses
  nil : ∀ left, tail left [] = .ok (left, [])
  cons : ∀ left t after, tail left (t :: after) =
    match operator? t.kind with
    | none => .ok (left, t :: after)
    | some op => part.andThen (fun right => tail (binaryNode op left right)) after

section

variable {stop : ℕ} {tokens rest : List Token} {e left : Expr}
  {operator? : Token.Kind → Option Operator} {whole part : Step Expr} {tail : Expr → Step Expr}

theorem readsOn_sums :
    ReadsOn sumOperator? (sumStep stop) (productStep stop) (sumTailStep stop) where
  starts := sumStep_eq
  progress := progresses_plain
  nil _ := sumTailStep_nil
  cons _ _ _ := sumTailStep_cons

theorem readsOn_products :
    ReadsOn productOperator? (productStep stop) (powerStep stop) (productTailStep stop) where
  starts := productStep_eq
  progress := progresses_plain
  nil _ := productTailStep_nil
  cons _ _ _ := productTailStep_cons

theorem ReadsOn.eq_ok (h : ReadsOn operator? whole part tail) : whole tokens = .ok (e, rest) ↔
    ∃ first mid, part tokens = .ok (first, mid) ∧ tail first mid = .ok (e, rest) := by
  rw [h.starts]
  exact Step.andThen_eq_ok

theorem ReadsOn.tail_eq_ok (h : ReadsOn operator? whole part tail) :
    tail left tokens = .ok (e, rest) ↔
      ((∀ t after, tokens = t :: after → operator? t.kind = none) ∧ e = left ∧ rest = tokens) ∨
        ∃ t after op right mid, tokens = t :: after ∧ operator? t.kind = some op ∧
          part after = .ok (right, mid) ∧ tail (binaryNode op left right) mid = .ok (e, rest) := by
  cases tokens with
  | nil =>
    rw [h.nil]
    constructor
    · rintro ⟨⟩
      exact Or.inl ⟨nofun, rfl, rfl⟩
    · rintro (⟨-, rfl, rfl⟩ | ⟨t, after, op, right, mid, ⟨⟩, -⟩)
      rfl
  | cons t after =>
    rw [h.cons]
    cases hop : operator? t.kind with
    | none =>
      constructor
      · rintro ⟨⟩
        refine Or.inl ⟨?_, rfl, rfl⟩
        rintro _ _ ⟨⟩
        exact hop
      · rintro (⟨-, rfl, rfl⟩ | ⟨_, _, op, right, mid, ⟨⟩, hsome, -⟩)
        · rfl
        · rw [hop] at hsome
          cases hsome
    | some op =>
      dsimp only
      rw [Step.andThen_eq_ok]
      constructor
      · rintro ⟨right, mid, hright, htail⟩
        exact Or.inr ⟨t, after, op, right, mid, rfl, hop, hright, htail⟩
      · rintro (⟨hnone, -⟩ | ⟨_, _, op', right, mid, ⟨⟩, hsome, hright, htail⟩)
        · rw [hnone t after rfl] at hop
          cases hop
        · rw [hop] at hsome
          cases hsome
          exact ⟨right, mid, hright, htail⟩

end

end EnergyGraph.Expr
