-- The tokens of a text are the text, up to its blanks. They stand in it one after the other, each
-- is the stretch between its places, and no other character than a blank is left over. Nor does it
-- matter which blanks these are: a blank is no character of a word, so that it ends the word before
-- it, and the words come out again whatever blanks stand between them.
import EnergyGraph.Proofs.NodeSpans
import EnergyGraph.Proofs.NumberGrammar

namespace EnergyGraph

/-! ## Blanks -/

namespace Text

/-- The code points inside, where every stretch comes to an end. -/
def Switches.inside : Switches → List ℕ
  | p :: q :: rest => List.range' p (q - p) ++ inside rest
  | _ => []

theorem Switches.mem_inside {points : Switches} {n : ℕ} (hclosed : points.length % 2 = 0)
    (h : points.holds n = true) : n ∈ points.inside := by
  unfold holds at h
  induction points using inside.induct with
  | case1 p q rest ih =>
    rw [holds.go, holds.go] at h
    rw [inside, List.mem_append, List.mem_range'_1]
    split at h
    · cases h
    · split at h
      · omega
      · exact Or.inr (ih (by simp only [List.length_cons] at hclosed; omega) h)
  | case2 points hshort =>
    rcases points with _ | ⟨p, _ | ⟨q, rest⟩⟩
    · cases h
    · cases hclosed
    · exact absurd rfl (hshort p q rest)

/-- No blank of any script is a character of a word or of a number. -/
theorem apart_inside : ∀ n ∈ blankSwitches.inside,
    isAlphanumeric (Char.ofNat n) = false ∧ Char.ofNat n ∉ ['.', '_', '+', '-'] := by
  decide +kernel

theorem apart_of_isBlank {c : Char} (h : isBlank c = true) :
    isAlphanumeric c = false ∧ c ∉ ['.', '_', '+', '-'] := by
  have happart := apart_inside c.toNat (Switches.mem_inside rfl h)
  rwa [Char.ofNat_toNat] at happart

end Text

namespace Expr

/-- A text that has come to its end, or goes on with a blank. -/
def Breaks (rest : List Char) : Prop := ∀ c after, rest = c :: after → Text.isBlank c = true

section

variable {c before : Char} {cs rest tail : List Char} {place : ℕ}

theorem breaks_nil : Breaks [] := nofun

theorem breaks_append {blanks : List Char} (hne : blanks ≠ [])
    (hblanks : ∀ c ∈ blanks, Text.isBlank c = true) (cs : List Char) : Breaks (blanks ++ cs) := by
  obtain ⟨b, blanks, rfl⟩ := List.exists_cons_of_ne_nil hne
  rintro _ _ ⟨⟩
  exact hblanks b List.mem_cons_self

/-- A blank ends a number. -/
theorem Breaks.ending (h : Breaks rest) : Ending rest := by
  intro before
  cases rest with
  | nil => rfl
  | cons c after =>
    obtain ⟨hletter, hmark⟩ := Text.apart_of_isBlank (h c after rfl)
    simp only [List.mem_cons, List.not_mem_nil, or_false, not_or] at hmark
    simp [numberTail, hletter, hmark]

/-- A blank ends a name. -/
theorem Breaks.nameEnds (h : Breaks rest) : NameEnds rest := by
  intro c after hrest
  obtain ⟨hletter, hmark⟩ := Text.apart_of_isBlank (h c after hrest)
  simp only [List.mem_cons, List.not_mem_nil, or_false, not_or] at hmark
  simp [isNameChar, hletter, hmark]

/-! ## Numbers -/

theorem isBlank_of_mem_numberTail (h : c ∈ numberTail before cs) : Text.isBlank c = false := by
  rw [Bool.eq_false_iff]
  intro hblank
  obtain ⟨hletter, hmark⟩ := Text.apart_of_isBlank hblank
  simp only [List.mem_cons, List.not_mem_nil, or_false, not_or] at hmark
  induction cs generalizing before with
  | nil => cases h
  | cons d cs ih =>
    rw [numberTail] at h
    split at h
    · rename_i hd
      rcases List.mem_cons.mp h with rfl | h
      · simp [hletter, hmark] at hd
      · exact ih h
    · split at h
      · rename_i hd
        rcases List.mem_cons.mp h with rfl | h
        · simp [hmark] at hd
        · exact ih h
      · cases h

theorem numberTail_append (h : numberTail before cs = cs) (hrest : Ending rest) :
    numberTail before (cs ++ rest) = cs := by
  induction cs generalizing before with
  | nil => exact hrest before
  | cons c cs ih =>
    rw [numberTail] at h
    rw [List.cons_append, numberTail]
    split at h
    · rename_i hc
      rw [if_pos hc, ih (List.cons.inj h).2]
    · rename_i hc
      split at h
      · rename_i hsign
        rw [if_neg hc, if_pos hsign, ih (List.cons.inj h).2]
      · cases h

/-- What a number goes on with goes on no further. -/
theorem numberTail_numberTail (before : Char) (cs : List Char) :
    numberTail before (numberTail before cs) = numberTail before cs := by
  have hsplit : cs = numberTail before cs ++ cs.drop (numberTail before cs).length :=
    numberTail_append_drop.symm
  have hcut := numberTail_cut (n := 0) rfl hsplit
  rwa [List.take_zero, List.append_nil] at hcut

theorem starts_of_startsNumber (h : startsNumber c cs = true) : Decimal.Starts c := by
  rcases Bool.or_eq_true_iff.mp h with hdigit | hpoint
  · exact Or.inl hdigit
  · exact Or.inr (eq_of_beq (Bool.and_eq_true_iff.mp hpoint).1)

theorem lexes_number {v : Number} {span : Span} (hblank : ¬ Text.isBlank c = true)
    (hnumber : startsNumber c rest = true)
    (hvalue : numberValue (c :: numberTail c rest) span = .ok v) {after : List Char}
    (hafter : Ending after) :
    Lexes place (c :: numberTail c rest) after
      [⟨.number v, String.ofList (c :: numberTail c rest), place,
        place + (c :: numberTail c rest).length⟩] := by
  have hsplit : rest = numberTail c rest ++ rest.drop (numberTail c rest).length :=
    numberTail_append_drop.symm
  have htail := numberTail_append (numberTail_numberTail c rest) hafter
  generalize numberTail c rest = tail at *
  rw [hsplit] at hnumber
  unfold Lexes
  rw [List.cons_append, tokensFrom, if_neg hblank, if_pos (startsNumber_cut hnumber hvalue)]
  simp only [htail, numberValue_congr hvalue, List.drop_left, List.length_cons, ← Nat.add_assoc,
    Nat.add_right_comm place 1]
  cases tokensFrom (place + tail.length + 1) after <;> rfl

end

/-! ## Words -/

/-- What is known of each token of a text. It is not the end, and stands for a number only with a
text of that number. Wherever its text stands again in front of a blank, it is the same token. -/
structure IsTokenOfText (t : Token) : Prop where
  not_finish : t.kind ≠ .finish
  number : ∀ v, t.kind = .number v → IsNumberText t.text v
  lexes : ∀ place rest, Breaks rest → Lexes place t.text.toList rest
    [⟨t.kind, t.text, place, place + t.text.toList.length⟩]

section

variable {c : Char} {start : ℕ} {cs rest : List Char} {ts : List Token}

theorem isTokenOfText_number {v : Number} {span : Span} (start stop : ℕ)
    (hblank : ¬ Text.isBlank c = true) (hnumber : startsNumber c rest = true)
    (hvalue : numberValue (c :: numberTail c rest) span = .ok v) :
    IsTokenOfText ⟨.number v, String.ofList (c :: numberTail c rest), start, stop⟩ where
  not_finish := nofun
  number := by
    rintro _ ⟨⟩
    refine isNumberText_of_value (starts_of_startsNumber hnumber) ?_ hvalue
    exact List.forall_mem_cons.mpr
      ⟨Bool.eq_false_iff.mpr hblank, fun d hd => isBlank_of_mem_numberTail hd⟩
  lexes place after hafter := by
    rw [String.toList_ofList]
    exact lexes_number hblank hnumber hvalue hafter.ending

theorem isTokenOfText_name {name : String} (start stop : ℕ) (h : IsName name) :
    IsTokenOfText ⟨.name, name, start, stop⟩ where
  not_finish := nofun
  number := nofun
  lexes _ _ hafter := lexes_name h hafter.nameEnds

theorem kind_of_mark? {kind : Token.Kind} (h : mark? c = some kind) :
    kind ≠ .finish ∧ ∀ v, kind ≠ .number v := by
  unfold mark? at h
  split at h <;> cases h <;> simp

theorem isTokenOfText_mark {kind : Token.Kind} (start stop : ℕ) (h : mark? c = some kind) :
    IsTokenOfText ⟨kind, String.singleton c, start, stop⟩ where
  not_finish := (kind_of_mark? h).1
  number v hv := absurd hv ((kind_of_mark? h).2 v)
  lexes _ _ _ := by
    rw [String.toList_singleton]
    exact lexes_mark h

/-- A text is made of words and blanks: each token has its word at its place. -/
inductive Tiled : ℕ → List Char → List Token → Prop
  | nil {start : ℕ} : Tiled start [] []
  | blank {start : ℕ} {c cs ts} (hc : Text.isBlank c = true) (h : Tiled (start + 1) cs ts) :
    Tiled start (c :: cs) ts
  | word {t cs ts} (ht : IsTokenOfText t) (hne : t.text.toList ≠ [])
    (hstop : t.stop = t.start + t.text.toList.length) (h : Tiled t.stop cs ts) :
    Tiled t.start (t.text.toList ++ cs) (t :: ts)

theorem tiled_word {t : Token} {word back : List Char} (ht : IsTokenOfText t)
    (htext : t.text = String.ofList word) (hne : word ≠ []) (hstop : t.stop = t.start + word.length)
    (h : Tiled t.stop back ts) : Tiled t.start (word ++ back) (t :: ts) := by
  have hword : t.text.toList = word := by rw [htext, String.toList_ofList]
  rw [← hword] at hne hstop ⊢
  exact .word ht hne hstop h

theorem tiled_tokensFrom (h : tokensFrom start cs = .ok ts) : Tiled start cs ts := by
  fun_induction tokensFrom start cs generalizing ts with
  | case1 =>
    cases h
    exact .nil
  | case2 _ _ _ hblank ih => exact .blank hblank (ih h)
  | case3 start c rest hblank hnumber tail stop =>
    rename_i ih
    obtain ⟨v, hvalue, h⟩ := bind_eq_ok.mp h
    obtain ⟨after, hafter, h⟩ := bind_eq_ok.mp h
    cases h
    have htoken := isTokenOfText_number start stop hblank hnumber hvalue
    have htiled := tiled_word htoken rfl (List.cons_ne_nil _ _)
      (by simp only [List.length_cons, stop, tail]; omega) (ih hafter)
    rwa [List.cons_append, numberTail_append_drop] at htiled
  | case4 start c rest hblank hnumber hname tail stop =>
    rename_i ih
    obtain ⟨after, hafter, h⟩ := bind_eq_ok.mp h
    cases h
    have htoken := isTokenOfText_name start stop
      (isName_scanned hblank hnumber hname)
    have htiled := tiled_word htoken rfl (List.cons_ne_nil _ _)
      (by simp only [List.length_cons, stop, tail]; omega) (ih hafter)
    rwa [List.cons_append, drop_takeWhile, List.takeWhile_append_dropWhile] at htiled
  | case5 start c rest _ _ _ kind hmark ih =>
    obtain ⟨after, hafter, h⟩ := bind_eq_ok.mp h
    cases h
    have htoken := isTokenOfText_mark start (start + 1) hmark
    exact tiled_word htoken String.singleton_eq_ofList (List.cons_ne_nil c []) rfl (ih hafter)
  | case6 => cases h

/-! ## What the tokens leave over -/

/-- Tokens that make up a text, up to its blanks. -/
structure Cover (text : String) (words : List Token) : Prop where
  ordered : words.Pairwise fun t u => t.stop ≤ u.start
  inside : ∀ t ∈ words, t.start < t.stop ∧ t.stop ≤ text.toList.length
  slices : ∀ t ∈ words, t.text = slice text t.place ∧ t.text ≠ ""
  blanks : ∀ k c, text.toList[k]? = some c →
    (∃ t ∈ words, t.start ≤ k ∧ k < t.stop) ∨ Text.isBlank c = true

theorem Tiled.isTokenOfText (h : Tiled start cs ts) : ∀ t ∈ ts, IsTokenOfText t := by
  induction h with
  | nil => nofun
  | blank _ _ ih => exact ih
  | word ht _ _ _ ih => exact List.forall_mem_cons.mpr ⟨ht, ih⟩

/-- A word is what stands between its places in the whole text. -/
theorem Tiled.text_eq {all : List Char} (h : Tiled start cs ts) (hall : all.drop start = cs) :
    ∀ t ∈ ts, t.text.toList ≠ [] ∧ t.text.toList = (all.drop t.start).take (t.stop - t.start) := by
  induction h with
  | nil => nofun
  | @blank start c cs ts _ _ ih =>
    refine ih ?_
    rw [← List.drop_drop, hall, List.drop_one, List.tail_cons]
  | @word t cs ts _ hne hstop _ ih =>
    refine List.forall_mem_cons.mpr ⟨⟨hne, ?_⟩, ih ?_⟩
    · rw [hall, hstop, Nat.add_sub_cancel_left, List.take_left]
    · rw [hstop, ← List.drop_drop, hall, List.drop_left]

/-- A character that stands in no word is a blank. -/
theorem Tiled.isBlank_of_no_word {all : List Char} (h : Tiled start cs ts)
    (hall : all.drop start = cs) {k : ℕ} {c : Char} (hk : all[k]? = some c) (hstart : start ≤ k) :
    (∃ t ∈ ts, t.start ≤ k ∧ k < t.stop) ∨ Text.isBlank c = true := by
  induction h with
  | @nil start =>
    have hlength := List.drop_eq_nil_iff.mp hall
    rw [List.getElem?_eq_none (by omega)] at hk
    cases hk
  | @blank start b cs ts hb _ ih =>
    rcases Nat.lt_or_eq_of_le hstart with hlt | rfl
    · refine ih ?_ hlt
      rw [← List.drop_drop, hall, List.drop_one, List.tail_cons]
    · have hhead : all[start]? = some b := by rw [← List.head?_drop, hall, List.head?_cons]
      rw [hhead, Option.some_inj] at hk
      exact Or.inr (hk ▸ hb)
  | @word t cs ts _ _ hstop _ ih =>
    rcases Nat.lt_or_ge k t.stop with hlt | hge
    · exact Or.inl ⟨t, List.mem_cons_self, hstart, hlt⟩
    · have hrest : all.drop t.stop = cs := by rw [hstop, ← List.drop_drop, hall, List.drop_left]
      refine (ih hrest hge).imp_left ?_
      rintro ⟨u, hu, hplace⟩
      exact ⟨u, List.mem_cons_of_mem t hu, hplace⟩

end

section

variable {lo hi : ℕ} {ts words : List Token} {text : String}

theorem Placed.inside (h : Placed lo ts hi) :
    ∀ t ∈ ts, lo ≤ t.start ∧ t.start < t.stop ∧ t.stop ≤ hi := fun _ ht =>
  InOrder.of_mem h (List.mem_map_of_mem ht)

theorem Placed.ordered (h : Placed lo ts hi) : ts.Pairwise fun t u => t.stop ≤ u.start := by
  induction ts generalizing lo with
  | nil => exact .nil
  | cons t ts ih =>
    obtain ⟨-, -, hrest⟩ := h
    exact List.pairwise_cons.mpr ⟨fun u hu => (Placed.inside hrest u hu).1, ih hrest⟩

theorem cover_tokensFrom (h : tokensFrom 0 text.toList = .ok words) : Cover text words := by
  have hplaced := placed_text h
  have htiled := tiled_tokensFrom h
  refine ⟨hplaced.ordered, fun t ht => (hplaced.inside t ht).2, fun t ht => ?_, fun k c hk => ?_⟩
  · obtain ⟨hne, htext⟩ := htiled.text_eq (List.drop_zero) t ht
    refine ⟨?_, fun hempty => hne (by rw [hempty, String.toList_empty])⟩
    rw [← String.toList_inj, toList_slice, htext]
    rfl
  · exact htiled.isBlank_of_no_word List.drop_zero hk (Nat.zero_le k)

end

/-! ## Other blanks -/

/-- The texts of tokens with blanks between them. -/
inductive Spread : List Token → List Char → Prop
  | none : Spread [] []
  | last (t : Token) : Spread [t] t.text.toList
  | more (t : Token) (blanks : List Char) {ts cs} (hne : blanks ≠ [])
    (hblanks : ∀ c ∈ blanks, Text.isBlank c = true) (h : Spread ts cs) :
    Spread (t :: ts) (t.text.toList ++ (blanks ++ cs))

section

variable {ts words : List Token} {cs : List Char} {text : String}

/-- The words come out again, whatever blanks stand between them. -/
theorem exists_tokensFrom_spread (h : Spread ts cs) (hts : ∀ t ∈ ts, IsTokenOfText t)
    (place : ℕ) : ∃ us, tokensFrom place cs = .ok us ∧ List.Forall₂ SameWord ts us := by
  induction h generalizing place with
  | none => exact ⟨[], by rw [tokensFrom], .nil⟩
  | last t =>
    have hlexes := (hts t (List.mem_singleton_self t)).lexes place [] breaks_nil
    unfold Lexes at hlexes
    rw [List.append_nil, tokensFrom.eq_def _ []] at hlexes
    exact ⟨_, hlexes, .cons ⟨rfl, rfl⟩ .nil⟩
  | @more t blanks ts cs hne hblanks h ih =>
    obtain ⟨ht, hts⟩ := List.forall_mem_cons.mp hts
    have hword := ht.lexes place _ (breaks_append hne hblanks cs)
    have hlexes := hword.append (lexes_blanks hblanks)
    obtain ⟨us, hus, hsame⟩ := ih hts (place + (t.text.toList ++ blanks).length)
    unfold Lexes at hlexes
    rw [List.append_assoc, hus] at hlexes
    exact ⟨_, hlexes, .cons ⟨rfl, rfl⟩ hsame⟩

theorem tokenize_eq_ok {tokens : List Token} : tokenize text = .ok tokens ↔ ∃ words,
    tokensFrom 0 text.toList = .ok words ∧
      tokens = words ++ [⟨.finish, "", text.toList.length, text.toList.length⟩] := by
  unfold tokenize
  dsimp only
  rw [bind_eq_ok]
  simp only [Except.ok.injEq, eq_comm]

/-- The tokens of a text are its words and the end after them. The words stand in it one after the
other with nothing but blanks between them; those of numbers follow the grammar, and have the
values that the texts are read as. Written down with any blanks in between, they are the same
tokens again. -/
theorem tokens_cover {tokens : List Token} (h : tokenize text = .ok tokens) : ∃ words,
    tokens = words ++ [⟨.finish, "", text.toList.length, text.toList.length⟩] ∧
    (∀ t ∈ words, t.kind ≠ .finish) ∧ Cover text words ∧
    (∀ t ∈ words, ∀ v, t.kind = .number v → IsNumberText t.text v) ∧
    ∀ cs, Spread words cs → ∃ tokens', tokenize (String.ofList cs) = .ok tokens' ∧
      List.Forall₂ SameWord tokens tokens' := by
  obtain ⟨words, hwords, rfl⟩ := tokenize_eq_ok.mp h
  have htokens := (tiled_tokensFrom hwords).isTokenOfText
  refine ⟨words, rfl, fun t ht => (htokens t ht).not_finish, cover_tokensFrom hwords,
    fun t ht => (htokens t ht).number, fun cs hcs => ?_⟩
  obtain ⟨us, hus, hsame⟩ := exists_tokensFrom_spread hcs htokens 0
  have hagain : tokensFrom 0 (String.ofList cs).toList = .ok us := by rwa [String.toList_ofList]
  refine ⟨_, tokenize_eq_ok.mpr ⟨us, hagain, rfl⟩, ?_⟩
  exact List.rel_append hsame (.cons ⟨rfl, rfl⟩ .nil)

/-- The words of `x+2_0`. -/
def sumWords : List Token :=
  [⟨.name, "x", 0, 1⟩, ⟨.operator .add, "+", 1, 2⟩, ⟨.number (.int 20), "2_0", 2, 5⟩]

theorem tokenize_sum : tokenize "x+2_0" = .ok (sumWords ++ [⟨.finish, "", 5, 5⟩]) := by
  with_unfolding_all rfl

/-- The words of a sum, the number among them, and the same words on two lines. -/
theorem tokens_cover_sum : Cover "x+2_0" sumWords ∧ IsNumberText "2_0" (.int 20) ∧
    ∃ tokens, tokenize "x +\n\t2_0" = .ok tokens ∧
      List.Forall₂ SameWord (sumWords ++ [⟨.finish, "", 5, 5⟩]) tokens := by
  obtain ⟨words, hwords, -, hcover, hnumbers, hagain⟩ := tokens_cover tokenize_sum
  obtain rfl : sumWords = words := (List.append_inj' hwords rfl).1
  refine ⟨hcover, hnumbers ⟨.number (.int 20), "2_0", 2, 5⟩ (by simp [sumWords]) _ rfl, ?_⟩
  have hspace : ∀ c ∈ [' '], Text.isBlank c = true := List.forall_mem_singleton.mpr (by decide)
  have hline : ∀ c ∈ ['\n', '\t'], Text.isBlank c = true :=
    List.forall_mem_cons.mpr ⟨by decide, List.forall_mem_singleton.mpr (by decide)⟩
  have hspread : Spread sumWords "x +\n\t2_0".toList :=
    .more _ [' '] (by simp) hspace (.more _ ['\n', '\t'] (by simp) hline (.last _))
  obtain ⟨tokens, htokens, hsame⟩ := hagain _ hspread
  rw [String.ofList_toList] at htokens
  exact ⟨tokens, htokens, hsame⟩

end

end Expr

end EnergyGraph
