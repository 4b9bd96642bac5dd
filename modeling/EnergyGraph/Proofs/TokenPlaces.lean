-- Where the tokens of a text stand. Each token is a word of the text, and there are only blanks
-- between the words; a word stays a token wherever it stands. So what is cut out of the text from
-- the start of a token to the end of one makes the same tokens again, and what is refused on the
-- way is a stretch of the text.
import EnergyGraph.Proofs.Lexing

namespace EnergyGraph.Expr

/-! ## Stretches in order -/

/-- Stretches between two places, one after the other, none of them empty. -/
def InOrder : ℕ → List Span → ℕ → Prop
  | lo, [], hi => lo ≤ hi
  | lo, s :: rest, hi => lo ≤ s.start ∧ s.start < s.stop ∧ InOrder s.stop rest hi

section

variable {lo lo' hi hi' : ℕ} {xs ys : List Span}

theorem InOrder.le (h : InOrder lo xs hi) : lo ≤ hi := by
  induction xs generalizing lo with
  | nil => exact h
  | cons s rest ih =>
    obtain ⟨hlo, hlt, hrest⟩ := h
    have hle := ih hrest
    omega

theorem inOrder_append :
    InOrder lo (xs ++ ys) hi ↔ ∃ mid, InOrder lo xs mid ∧ InOrder mid ys hi := by
  induction xs generalizing lo with
  | nil =>
    constructor
    · exact fun h => ⟨lo, le_refl lo, h⟩
    · rintro ⟨mid, hle, h⟩
      cases ys with
      | nil => exact le_trans hle h
      | cons s rest => exact ⟨le_trans hle h.1, h.2⟩
  | cons s rest ih =>
    constructor
    · rintro ⟨hlo, hlt, h⟩
      obtain ⟨mid, hrest, h⟩ := ih.mp h
      exact ⟨mid, ⟨hlo, hlt, hrest⟩, h⟩
    · rintro ⟨mid, ⟨hlo, hlt, hrest⟩, h⟩
      exact ⟨hlo, hlt, ih.mpr ⟨mid, hrest, h⟩⟩

theorem InOrder.mono (h : InOrder lo xs hi) (hlo : lo' ≤ lo) (hhi : hi ≤ hi') :
    InOrder lo' xs hi' := by
  have hwide : InOrder lo' ([] ++ (xs ++ [])) hi' :=
    inOrder_append.mpr ⟨lo, hlo, inOrder_append.mpr ⟨hi, h, hhi⟩⟩
  simpa using hwide

theorem InOrder.of_mem (h : InOrder lo xs hi) {s : Span} (hs : s ∈ xs) : InOrder lo [s] hi := by
  obtain ⟨before, after, rfl⟩ := List.append_of_mem hs
  obtain ⟨mid, hbefore, hle, hlt, hafter⟩ := inOrder_append.mp h
  exact ⟨le_trans hbefore.le hle, hlt, hafter.le⟩

end

/-- The places of a token: those of its text. -/
def Token.place (t : Token) : Span := ⟨t.start, t.stop⟩

/-- Tokens that stand one after the other between two places. -/
def Placed (lo : ℕ) (ts : List Token) (hi : ℕ) : Prop := InOrder lo (ts.map Token.place) hi

section

variable {lo hi : ℕ} {ts us : List Token}

theorem placed_append :
    Placed lo (ts ++ us) hi ↔ ∃ mid, Placed lo ts mid ∧ Placed mid us hi := by
  unfold Placed
  rw [List.map_append, inOrder_append]

theorem Placed.of_isInfix (h : Placed lo ts hi) (hus : us <:+: ts) : Placed lo us hi := by
  obtain ⟨before, after, rfl⟩ := hus
  obtain ⟨mid, hmid, hafter⟩ := placed_append.mp h
  obtain ⟨mid', hbefore, hus⟩ := placed_append.mp hmid
  exact hus.mono hbefore.le hafter.le

end

/-! ## Parentheses -/

/-- A parenthesis: whether it opens. -/
def paren? : Char → Option Bool
  | '(' => some true
  | ')' => some false
  | _ => none

def Token.Kind.paren? : Token.Kind → Option Bool
  | .openParen => some true
  | .closeParen => some false
  | _ => none

/-- The parentheses among tokens. -/
def parens (ts : List Token) : List Bool := ts.filterMap (·.kind.paren?)

/-- Characters that no parenthesis is among. -/
theorem paren?_eq_none {p : Char → Bool} (hopen : p '(' = false) (hclose : p ')' = false) {c : Char}
    (hc : p c = true) : paren? c = none := by
  unfold paren?
  split
  · rw [hopen] at hc
    cases hc
  · rw [hclose] at hc
    cases hc
  · rfl

theorem filterMap_paren?_eq_nil {p : Char → Bool} (hopen : p '(' = false) (hclose : p ')' = false)
    {cs : List Char} (hcs : ∀ c ∈ cs, p c = true) : cs.filterMap paren? = [] :=
  List.filterMap_eq_nil_iff.mpr fun c hc => paren?_eq_none hopen hclose (hcs c hc)

/-! ## Words -/

section

variable {c before : Char} {cs rest back blanks : List Char} {start n : ℕ}

theorem lexes_blanks (h : ∀ c ∈ blanks, Text.isBlank c = true) : Lexes start blanks rest [] := by
  induction blanks generalizing start with
  | nil =>
    unfold Lexes
    rw [List.nil_append, List.length_nil, Nat.add_zero]
    cases tokensFrom start rest <;> rfl
  | cons c blanks ih =>
    obtain ⟨hc, hblanks⟩ := List.forall_mem_cons.mp h
    have hfirst : Lexes start [c] (blanks ++ rest) [] := lexes_of_isBlank hc
    exact hfirst.append (ih hblanks)

/-- A number in a text that was cut off is cut off as well. -/
theorem numberTail_take : numberTail before (cs.take n) = (numberTail before cs).take n := by
  induction cs generalizing before n with
  | nil => simp [numberTail]
  | cons c cs ih =>
    cases n with
    | zero => simp [numberTail]
    | succ n =>
      rw [List.take_succ_cons, numberTail, numberTail, ih]
      split
      · rw [List.take_succ_cons]
      · split
        · rw [List.take_succ_cons]
        · rw [List.take_nil]

theorem numberTail_append_drop :
    numberTail before cs ++ cs.drop (numberTail before cs).length = cs := by
  induction cs generalizing before with
  | nil => rfl
  | cons c cs ih =>
    rw [numberTail]
    split
    · rw [List.cons_append, List.length_cons, List.drop_succ_cons, ih]
    · split
      · rw [List.cons_append, List.length_cons, List.drop_succ_cons, ih]
      · rfl

/-- What a number goes on with is the same when less of the text follows it. -/
theorem numberTail_cut {tail : List Char} (htail : numberTail before cs = tail)
    (h : cs = tail ++ back) : numberTail before (tail ++ back.take n) = tail := by
  have htake : tail ++ back.take n = cs.take (tail.length + n) := by
    rw [h, List.take_length_add_append]
  rw [htake, numberTail_take, htail, List.take_of_length_le (Nat.le_add_right _ _)]

theorem paren?_of_mem_numberTail (h : c ∈ numberTail before cs) : paren? c = none := by
  induction cs generalizing before with
  | nil => cases h
  | cons d cs ih =>
    rw [numberTail] at h
    split at h
    · rename_i hd
      rcases List.mem_cons.mp h with rfl | h
      · exact paren?_eq_none (p := fun c => Text.isAlphanumeric c || c == '.' || c == '_')
          (by decide) (by decide) hd
      · exact ih h
    · split at h
      · rename_i hd
        rcases List.mem_cons.mp h with rfl | h
        · exact paren?_eq_none (p := fun c => c == '+' || c == '-') (by decide) (by decide)
            (Bool.and_eq_true_iff.mp hd).1
        · exact ih h
      · cases h

/-- A lone point is no number. -/
theorem numberValue_point {span : Span} {v : Number} : numberValue ['.'] span ≠ .ok v := by
  rintro ⟨⟩

theorem numberValue_congr {span span' : Span} {v : Number} (h : numberValue cs span = .ok v) :
    numberValue cs span' = .ok v := by
  unfold numberValue at h ⊢
  dsimp only at h ⊢
  split
  · rwa [if_pos ‹_›] at h
  · rw [if_neg ‹_›] at h
    cases hx : Decimal.readUnsigned? cs with
    | none =>
      rw [hx] at h
      cases h
    | some x =>
      rw [hx] at h
      dsimp only at h ⊢
      split
      · rwa [if_pos ‹_›] at h
      · rw [if_neg ‹_›] at h
        cases h

/-- A character starts a number, whatever comes after that number. -/
theorem startsNumber_cut {tail after : List Char} {span : Span} {v : Number}
    (h : startsNumber c (tail ++ back) = true) (hvalue : numberValue (c :: tail) span = .ok v) :
    startsNumber c (tail ++ after) = true := by
  cases tail with
  | cons d tail => exact h
  | nil =>
    unfold startsNumber at h ⊢
    rcases Bool.or_eq_true_iff.mp h with hdigit | hpoint
    · rw [hdigit, Bool.true_or]
    · have hc : c = '.' := eq_of_beq (Bool.and_eq_true_iff.mp hpoint).1
      rw [hc] at hvalue
      exact absurd hvalue numberValue_point

end

/-- The word of a token in front of the rest of a text. Wherever the word stands, it is that token,
and no matter how much of the rest follows it. -/
structure IsWord (t : Token) (word back : List Char) : Prop where
  nonempty : 0 < word.length
  stop : t.stop = t.start + word.length
  parens : word.filterMap paren? = t.kind.paren?.toList
  lexes : ∀ place n,
    Lexes place word (back.take n) [⟨t.kind, t.text, place, place + word.length⟩]

section

variable {c : Char} {cs rest : List Char} {start : ℕ} {t : Token} {ts : List Token}

theorem isWord_number {v : Number} (hblank : ¬ Text.isBlank c = true)
    (hnumber : startsNumber c rest = true)
    (hvalue : numberValue (c :: numberTail c rest)
      ⟨start, start + 1 + (numberTail c rest).length⟩ = .ok v) :
    IsWord ⟨.number v, String.ofList (c :: numberTail c rest), start,
        start + 1 + (numberTail c rest).length⟩
      (c :: numberTail c rest) (rest.drop (numberTail c rest).length) := by
  have hsplit : rest = numberTail c rest ++ rest.drop (numberTail c rest).length :=
    numberTail_append_drop.symm
  generalize htail : numberTail c rest = tail at *
  refine ⟨by simp, by rw [List.length_cons]; dsimp only; omega, ?_, fun place n => ?_⟩
  · have hc : paren? c = none :=
      paren?_eq_none (p := fun c => startsNumber c rest) rfl rfl hnumber
    rw [List.filterMap_cons, hc]
    exact List.filterMap_eq_nil_iff.mpr fun d hd => paren?_of_mem_numberTail (htail ▸ hd)
  · rw [hsplit] at hnumber
    unfold Lexes
    rw [List.cons_append, tokensFrom, if_neg hblank, if_pos (startsNumber_cut hnumber hvalue)]
    simp only [numberTail_cut htail hsplit, numberValue_congr hvalue, List.drop_left,
      List.length_cons, ← Nat.add_assoc, Nat.add_right_comm place 1]
    cases tokensFrom (place + tail.length + 1) ((rest.drop tail.length).take n) <;> rfl

theorem drop_takeWhile {p : Char → Bool} : rest.drop (rest.takeWhile p).length = rest.dropWhile p :=
  calc rest.drop (rest.takeWhile p).length
      = (rest.takeWhile p ++ rest.dropWhile p).drop (rest.takeWhile p).length := by
        rw [List.takeWhile_append_dropWhile]
    _ = rest.dropWhile p := List.drop_left

/-- A name ends where its characters do, also when less of the text follows it. -/
theorem nameEnds_cut {n : ℕ} : NameEnds ((rest.dropWhile isNameChar).take n) := by
  intro d after h
  cases hdrop : rest.dropWhile isNameChar with
  | nil =>
    rw [hdrop, List.take_nil] at h
    cases h
  | cons e tail =>
    have hne : rest.dropWhile isNameChar ≠ [] := by
      rw [hdrop]
      exact List.cons_ne_nil e tail
    have hhead := List.head_dropWhile_not isNameChar hne
    cases n with
    | zero => cases h
    | succ n =>
      rw [hdrop, List.take_succ_cons] at h
      cases h
      simpa only [hdrop, List.head_cons] using hhead

theorem isWord_name (hblank : ¬ Text.isBlank c = true) (hnumber : ¬ startsNumber c rest = true)
    (hname : isNameStart c = true) :
    IsWord ⟨.name, String.ofList (c :: rest.takeWhile isNameChar), start,
        start + 1 + (rest.takeWhile isNameChar).length⟩
      (c :: rest.takeWhile isNameChar) (rest.drop (rest.takeWhile isNameChar).length) := by
  have hisName := isName_scanned hblank hnumber hname
  refine ⟨by simp, by rw [List.length_cons]; dsimp only; omega, ?_, fun place n => ?_⟩
  · have hc : paren? c = none := paren?_eq_none (p := isNameStart) (by decide) (by decide) hname
    rw [List.filterMap_cons, hc]
    exact filterMap_paren?_eq_nil (p := isNameChar) (by decide) (by decide)
      fun d hd => List.mem_takeWhile_imp hd
  · rw [drop_takeWhile]
    have hends : NameEnds ((rest.dropWhile isNameChar).take n) := nameEnds_cut
    have hlexes : Lexes place (String.ofList (c :: rest.takeWhile isNameChar)).toList
        ((rest.dropWhile isNameChar).take n) _ := lexes_name hisName hends
    rwa [String.toList_ofList] at hlexes

theorem isWord_mark {kind : Token.Kind} (hmark : mark? c = some kind) :
    IsWord ⟨kind, String.singleton c, start, start + 1⟩ [c] rest := by
  refine ⟨by simp, rfl, ?_, fun place n => lexes_mark hmark⟩
  unfold mark? at hmark
  split at hmark <;> cases hmark <;> rfl

/-- The first token of a text has a word, and only blanks stand before it. -/
theorem exists_word (h : tokensFrom start cs = .ok (t :: ts)) : ∃ blanks word back,
    cs = blanks ++ (word ++ back) ∧ (∀ c ∈ blanks, Text.isBlank c = true) ∧
      t.start = start + blanks.length ∧ IsWord t word back ∧ tokensFrom t.stop back = .ok ts := by
  induction cs generalizing start with
  | nil =>
    rw [tokensFrom] at h
    cases h
  | cons c rest ih =>
    rw [tokensFrom] at h
    split at h
    · rename_i hblank
      obtain ⟨blanks, word, back, rfl, hblanks, hstart, hword, hback⟩ := ih h
      refine ⟨c :: blanks, word, back, rfl, List.forall_mem_cons.mpr ⟨hblank, hblanks⟩, ?_, hword,
        hback⟩
      rw [hstart, List.length_cons]
      omega
    · rename_i hblank
      split at h
      · rename_i hnumber
        obtain ⟨v, hvalue, h⟩ := bind_eq_ok.mp h
        obtain ⟨after, hafter, h⟩ := bind_eq_ok.mp h
        cases h
        refine ⟨[], _, _, ?_, List.forall_mem_nil _, rfl, isWord_number hblank hnumber hvalue,
          hafter⟩
        rw [List.nil_append, List.cons_append, numberTail_append_drop]
      · rename_i hnumber
        split at h
        · rename_i hname
          obtain ⟨after, hafter, h⟩ := bind_eq_ok.mp h
          cases h
          refine ⟨[], _, _, ?_, List.forall_mem_nil _, rfl, isWord_name hblank hnumber hname,
            hafter⟩
          rw [List.nil_append, List.cons_append, drop_takeWhile, List.takeWhile_append_dropWhile]
        · split at h
          · rename_i kind hmark
            obtain ⟨after, hafter, h⟩ := bind_eq_ok.mp h
            cases h
            exact ⟨[], [c], rest, rfl, List.forall_mem_nil _, rfl, isWord_mark hmark, hafter⟩
          · cases h

theorem isBlank_of_tokensFrom (h : tokensFrom start cs = .ok []) :
    ∀ c ∈ cs, Text.isBlank c = true := by
  induction cs generalizing start with
  | nil => nofun
  | cons c rest ih =>
    rw [tokensFrom] at h
    split at h
    · rename_i hblank
      exact List.forall_mem_cons.mpr ⟨hblank, ih h⟩
    · split at h
      · obtain ⟨v, -, h⟩ := bind_eq_ok.mp h
        obtain ⟨after, -, h⟩ := bind_eq_ok.mp h
        cases h
      · split at h
        · obtain ⟨after, -, h⟩ := bind_eq_ok.mp h
          cases h
        · split at h
          · obtain ⟨after, -, h⟩ := bind_eq_ok.mp h
            cases h
          · cases h

/-! ## What the tokens of a text have in common with it -/

/-- The tokens stand one after the other inside of the text. -/
theorem placed_tokensFrom (h : tokensFrom start cs = .ok ts) :
    Placed start ts (start + cs.length) := by
  induction ts generalizing start cs with
  | nil => exact Nat.le_add_right start cs.length
  | cons t ts ih =>
    obtain ⟨blanks, word, back, rfl, -, hstart, hword, hback⟩ := exists_word h
    have hnonempty := hword.nonempty
    have hstop := hword.stop
    refine ⟨by dsimp only [Token.place]; omega, by dsimp only [Token.place]; omega, ?_⟩
    refine (ih hback).mono (le_refl _) ?_
    simp only [List.length_append]
    omega

theorem placed_text {text : String} (h : tokensFrom 0 text.toList = .ok ts) :
    Placed 0 ts text.toList.length := by
  have hplaced := placed_tokensFrom h
  rwa [Nat.zero_add] at hplaced

theorem parens_tokensFrom (h : tokensFrom start cs = .ok ts) : parens ts = cs.filterMap paren? := by
  induction ts generalizing start cs with
  | nil =>
    exact (filterMap_paren?_eq_nil (by decide) (by decide) (isBlank_of_tokensFrom h)).symm
  | cons t ts ih =>
    obtain ⟨blanks, word, back, rfl, hblanks, -, hword, hback⟩ := exists_word h
    have hnone : blanks.filterMap paren? = [] :=
      filterMap_paren?_eq_nil (by decide) (by decide) hblanks
    rw [List.filterMap_append, List.filterMap_append, hnone, hword.parens, ← ih hback,
      List.nil_append]
    unfold parens
    rw [List.filterMap_cons]
    cases t.kind.paren? <;> rfl

/-! ## Tokens that are cut out of a text -/

/-- Two tokens with the same word, at any places. -/
def SameWord (t u : Token) : Prop := t.kind = u.kind ∧ t.text = u.text

/-- The stretch from the first of some tokens through the last. -/
structure Spans (ts : List Token) (s : Span) : Prop where
  start : ts.head?.map Token.start = some s.start
  stop : ts.getLast?.map Token.stop = some s.stop

theorem Placed.le_stop {lo hi stop : ℕ} (h : Placed lo ts hi)
    (hlast : ts.getLast?.map Token.stop = some stop) : lo ≤ stop := by
  obtain ⟨t, ht, rfl⟩ := Option.map_eq_some_iff.mp hlast
  obtain ⟨hle, hlt, -⟩ := h.of_mem (List.mem_map_of_mem (List.mem_of_getLast? ht))
  exact le_of_lt (lt_of_le_of_lt hle hlt)

/-- From the start of a token on, the text has the tokens that it has from there on. -/
theorem tokensFrom_drop {before : List Token}
    (h : tokensFrom start cs = .ok (before ++ t :: ts)) :
    tokensFrom t.start (cs.drop (t.start - start)) = .ok (t :: ts) := by
  induction before generalizing start cs with
  | nil =>
    obtain ⟨blanks, word, back, rfl, -, hstart, hword, hback⟩ := exists_word h
    have hdrop : (blanks ++ (word ++ back)).drop (t.start - start) = word ++ back := by
      rw [hstart, Nat.add_sub_cancel_left, List.drop_left]
    have hlexes := hword.lexes t.start back.length
    unfold Lexes at hlexes
    rw [List.take_length, ← hword.stop, hback] at hlexes
    rw [hdrop, hlexes]
    rfl
  | cons u before ih =>
    obtain ⟨blanks, word, back, rfl, -, hstart, hword, hback⟩ := exists_word h
    have hplaced : Placed u.stop (before ++ t :: ts) (u.stop + back.length) :=
      placed_tokensFrom hback
    obtain ⟨mid, hbefore, hle, -⟩ := placed_append.mp hplaced
    have hsplit : t.start - start = blanks.length + (word.length + (t.start - u.stop)) := by
      have hle' : mid ≤ t.start := hle
      have hbefore' := hbefore.le
      have hstop := hword.stop
      omega
    rw [hsplit, List.drop_length_add_append, List.drop_length_add_append]
    exact ih hback

/-- The text up to the end of a token has the tokens up to it, whatever place it is moved to. -/
theorem exists_tokensFrom_take {mid : List Token} {stop : ℕ} (place : ℕ)
    (h : tokensFrom start cs = .ok (mid ++ ts))
    (hlast : mid.getLast?.map Token.stop = some stop) :
    ∃ us, tokensFrom place (cs.take (stop - start)) = .ok us ∧ List.Forall₂ SameWord mid us := by
  induction mid generalizing start cs place with
  | nil => cases hlast
  | cons t mid ih =>
    obtain ⟨blanks, word, back, rfl, hblanks, hstart, hword, hback⟩ := exists_word h
    have hstop := hword.stop
    -- What follows the word lasts for the tokens in `mid`, of which there may be none.
    obtain ⟨hle, us, hus, hsame⟩ : t.stop ≤ stop ∧ ∃ us,
        tokensFrom (place + (blanks ++ word).length) (back.take (stop - t.stop)) = .ok us ∧
          List.Forall₂ SameWord mid us := by
      cases mid with
      | nil =>
        obtain rfl : t.stop = stop := Option.some.inj hlast
        refine ⟨le_refl _, [], ?_, .nil⟩
        rw [Nat.sub_self, List.take_zero, tokensFrom]
      | cons u mid =>
        rw [List.getLast?_cons_cons] at hlast
        obtain ⟨m, hmid, -⟩ := placed_append.mp (placed_tokensFrom hback)
        exact ⟨hmid.le_stop hlast, ih _ hback hlast⟩
    have hsplit : stop - start = blanks.length + (word.length + (stop - t.stop)) := by omega
    have hlexes := (lexes_blanks hblanks).append (hword.lexes (place + blanks.length)
      (stop - t.stop))
    refine ⟨⟨t.kind, t.text, place + blanks.length, place + blanks.length + word.length⟩ :: us, ?_,
      .cons ⟨rfl, rfl⟩ hsame⟩
    rw [hsplit, List.take_length_add_append, List.take_length_add_append, ← List.append_assoc,
      hlexes, hus]
    rfl

/-- What is cut out of a text from the start of a token to the end of one has the same tokens. -/
theorem exists_tokensFrom_cut {before mid after : List Token} {s : Span}
    (h : tokensFrom 0 cs = .ok (before ++ (mid ++ after))) (hs : Spans mid s) :
    ∃ us, tokensFrom 0 ((cs.drop s.start).take (s.stop - s.start)) = .ok us ∧
      List.Forall₂ SameWord mid us := by
  cases mid with
  | nil => cases hs.start
  | cons t mid =>
    have hstart : t.start = s.start := Option.some.inj hs.start
    have hdrop := tokensFrom_drop h
    rw [hstart, Nat.sub_zero] at hdrop
    exact exists_tokensFrom_take 0 hdrop hs.stop

/-! ## What is refused -/

/-- Digits alone that are too many to be an integer, somewhere in a text. -/
def HasLongNumeral (cs : List Char) : Prop :=
  ∃ before digits after, cs = before ++ (digits ++ after) ∧
    (Decimal.takeDigits digits).rest = [] ∧
      Decimal.longestInteger < (Decimal.takeDigits digits).count

/-- Why a text whose first character stands at `start` has no tokens: a stretch of it, or a number
in it that is too long. -/
def Refuses (start : ℕ) (cs : List Char) : Unreadable → Prop
  | .mistake m => InOrder start [m.span] (start + cs.length)
  | .longInteger => HasLongNumeral cs

/-- What is refused behind a word is refused. -/
theorem refuses_append {α : Type} {word back : List Char} {place : ℕ} {x : Except Unreadable α}
    (hcs : word ++ back = cs) (hplace : start + word.length = place)
    (h : FailsAs (Refuses place back) x) : FailsAs (Refuses start cs) x := by
  subst hcs hplace
  intro u hu
  cases u with
  | mistake m =>
    have hwide : InOrder (start + word.length) [m.span] (start + word.length + back.length) :=
      h _ hu
    refine hwide.mono (Nat.le_add_right _ _) ?_
    rw [List.length_append]
    omega
  | longInteger =>
    obtain ⟨before, digits, after, rfl, hdigits⟩ := h _ hu
    exact ⟨word ++ before, digits, after, by rw [List.append_assoc], hdigits⟩

theorem refuses_numberValue {word back : List Char} {stop : ℕ} (hcs : word ++ back = cs)
    (hword : 0 < word.length) (hstop : start + word.length = stop) :
    FailsAs (Refuses start cs) (numberValue word ⟨start, stop⟩) := by
  subst hcs hstop
  have hplace : InOrder start [⟨start, start + word.length⟩] (start + (word ++ back).length) := by
    refine ⟨le_refl _, by dsimp only; omega, ?_⟩
    rw [List.length_append]
    exact Nat.add_le_add_left (Nat.le_add_right _ _) _
  unfold numberValue
  dsimp only
  split
  · rename_i hdigits
    split
    · rename_i hcount
      exact failsAs_error ⟨[], word, back, rfl, hdigits.2, hcount⟩
    · exact failsAs_ok _
  · split
    · exact failsAs_error hplace
    · split
      · exact failsAs_ok _
      · exact failsAs_error hplace

/-- A text without tokens has a mistake in it, or a number that is too long. -/
theorem refuses_tokensFrom (start : ℕ) (cs : List Char) :
    FailsAs (Refuses start cs) (tokensFrom start cs) := by
  fun_induction tokensFrom start cs with
  | case1 => exact failsAs_ok []
  | case2 start c rest _ ih => exact refuses_append List.singleton_append rfl ih
  | case3 start c rest _ _ tail stop ih =>
    have hcs : (c :: tail) ++ rest.drop tail.length = c :: rest := by
      rw [List.cons_append, numberTail_append_drop]
    have hstop : start + (c :: tail).length = stop := by
      rw [List.length_cons]
      omega
    exact failsAs_bind (refuses_numberValue hcs (by simp) hstop) fun _ =>
      failsAs_bind (refuses_append hcs hstop ih) fun _ => failsAs_ok _
  | case4 start c rest _ _ _ tail stop ih =>
    have hcs : (c :: tail) ++ rest.drop tail.length = c :: rest := by
      rw [List.cons_append, drop_takeWhile, List.takeWhile_append_dropWhile]
    have hstop : start + (c :: tail).length = stop := by
      rw [List.length_cons]
      omega
    exact failsAs_bind (refuses_append hcs hstop ih) fun _ => failsAs_ok _
  | case5 start c rest _ _ _ kind _ ih =>
    exact failsAs_bind (refuses_append List.singleton_append rfl ih) fun _ => failsAs_ok _
  | case6 start c rest =>
    refine failsAs_error ⟨le_refl _, Nat.lt_succ_self _, ?_⟩
    rw [List.length_cons]
    exact Nat.add_le_add_left (Nat.le_add_left _ _) _

end

end EnergyGraph.Expr
