-- Nested lists of integers as JSON texts: brackets, commas and numerals, with blanks wherever
-- they may stand. How such a text is spelled follows what the reader does with it, so that
-- the proof that it is read is one step for each way to spell a value.
import EnergyGraph.Data.Reader
import EnergyGraph.Proofs.IntegerArrays
import EnergyGraph.Proofs.Numerals
import EnergyGraph.Proofs.Steps

namespace EnergyGraph.Json

/-! ## Numbers -/

/-- What follows does not carry on a number. -/
def NumberEnds (rest : List Char) : Prop :=
  ∀ c after, rest = c :: after → c.isDigit = false ∧ c ≠ '.' ∧ c ≠ 'e' ∧ c ≠ 'E'

theorem takeAscii_append {ds rest : List Char} (hds : Decimal.AllDigits ds)
    (hrest : NumberEnds rest) (value count : ℕ) :
    takeAscii value count (ds ++ rest) =
      (Nat.ofDigitChars 10 ds value, count + ds.length, rest) := by
  induction ds generalizing value count with
  | nil =>
    cases rest with
    | nil => rfl
    | cons c after =>
      rw [List.nil_append, takeAscii, (hrest c after rfl).1, if_neg Bool.false_ne_true]
      rfl
  | cons c cs ih =>
    obtain ⟨hc, hcs⟩ := List.forall_mem_cons.mp hds
    rw [List.cons_append, takeAscii, if_pos hc, ih hcs, Nat.ofDigitChars_cons,
      Nat.mul_comm value 10, List.length_cons, Nat.add_assoc, Nat.add_comm 1]
    rfl

theorem takeExponent_ends {rest : List Char} (hrest : NumberEnds rest) :
    takeExponent rest = (none, rest) := by
  cases rest with
  | nil => rfl
  | cons c after =>
    obtain ⟨-, -, he, hE⟩ := hrest c after rfl
    unfold takeExponent
    exact if_neg (by simp [he, hE])

theorem takeFraction_ends {rest : List Char} (hrest : NumberEnds rest) :
    takeFraction rest = (0, 0, rest) := by
  refine takeFraction.eq_2 rest fun after hpoint => ?_
  exact (hrest '.' after hpoint).2.1 rfl

theorem takeWhole_toDigits {rest : List Char} (hrest : NumberEnds rest) (n : ℕ) :
    takeWhole (Nat.toDigits 10 n ++ rest) = (n, (Nat.toDigits 10 n).length, rest) := by
  have hds := Decimal.allDigits_toDigits n
  obtain ⟨c, tail, hcons, -⟩ := Decimal.exists_toDigits n
  by_cases hc : c = '0'
  · subst hc
    obtain ⟨rfl, rfl⟩ := Decimal.toDigits_zero_cons hcons
    rfl
  · have hstart : ∀ after, Nat.toDigits 10 n ++ rest ≠ '0' :: after := fun after heq => by
      rw [hcons, List.cons_append] at heq
      exact hc (List.cons.inj heq).1
    rw [takeWhole.eq_2 _ hstart, takeAscii_append hds hrest, Nat.ofDigitChars_ten_toDigits,
      Nat.zero_add]

theorem takeMinus_toString (k : ℤ) (rest : List Char) :
    takeMinus ((toString k).toList ++ rest) =
      (decide (k < 0), Nat.toDigits 10 k.natAbs ++ rest) := by
  rw [Decimal.toList_toString]
  rcases Int.lt_or_le k 0 with hneg | hpos
  · rw [if_pos hneg, decide_eq_true hneg]
    rfl
  · rw [if_neg (not_lt.mpr hpos), decide_eq_false (not_lt.mpr hpos), List.nil_append]
    refine takeMinus.eq_2 _ fun after heq => ?_
    obtain ⟨c, tail, hcons, hdigit⟩ := Decimal.exists_toDigits k.natAbs
    rw [hcons, List.cons_append] at heq
    rw [(List.cons.inj heq).1] at hdigit
    cases hdigit

theorem takeNumber_toString {k : ℤ} (hk : Payload.Fits k) {rest : List Char}
    (hrest : NumberEnds rest) : takeNumber ((toString k).toList ++ rest) = .ok (.int k, rest) := by
  have hcount : (Nat.toDigits 10 k.natAbs).length ≠ 0 :=
    List.length_eq_zero_iff.not.mpr Nat.toDigits_ne_nil
  unfold takeNumber
  rw [takeMinus_toString]
  dsimp only
  rw [takeWhole_toDigits hrest]
  dsimp only
  rw [if_neg hcount, takeFraction_ends hrest]
  dsimp only
  rw [takeExponent_ends hrest]
  dsimp only
  rw [if_pos ⟨rfl, rfl⟩, if_neg (not_lt.mpr (hk.length_toDigits.trans (by decide))),
    Decimal.signed_natAbs]

/-- A text that no word starts is left to the numbers. -/
theorem takeScalar_of_noWord {cs : List Char} (h : ∀ p ∈ words, p.1.toList.isPrefixOf cs = false) :
    takeScalar cs = takeNumber cs := by
  unfold takeScalar
  rw [List.findSome?_eq_none_iff.mpr fun p hp => ?_]
  unfold dropWord?
  dsimp only
  rw [if_neg (by rw [h p hp]; exact Bool.false_ne_true)]
  rfl

/-- Words have a letter where a number has a digit. -/
theorem takeScalar_digit {c : Char} (hc : c.isDigit = true) (tail : List Char) :
    takeScalar (c :: tail) = takeNumber (c :: tail) ∧
      takeScalar ('-' :: c :: tail) = takeNumber ('-' :: c :: tail) := by
  have hletter {w : Char} (hw : w.isDigit = false) : (w == c) = false := by
    rw [beq_eq_false_iff_ne]
    rintro rfl
    rw [hc] at hw
    cases hw
  constructor <;> refine takeScalar_of_noWord fun p hp => ?_ <;>
    simp only [words, List.mem_cons, List.not_mem_nil, or_false] at hp <;>
    rcases hp with rfl | rfl | rfl | rfl | rfl | rfl <;>
    simp [List.isPrefixOf, hletter]

theorem takeScalar_toString {k : ℤ} (hk : Payload.Fits k) {rest : List Char}
    (hrest : NumberEnds rest) : takeScalar ((toString k).toList ++ rest) = .ok (.int k, rest) := by
  obtain ⟨c, tail, hcons, hdigit⟩ := Decimal.exists_toDigits k.natAbs
  obtain ⟨hplain, hsigned⟩ := takeScalar_digit hdigit (tail ++ rest)
  rw [← takeNumber_toString hk hrest, Decimal.toList_toString, hcons]
  split
  · exact hsigned
  · exact hplain

/-! ## Spellings -/

mutual

/-- A text starts with a value, and this is what follows. -/
inductive Spells : List Char → Value → List Char → Prop
  | int {cs rest : List Char} (k : ℤ) (hskip : skipSpaces cs = (toString k).toList ++ rest)
    (hrest : NumberEnds rest) : Spells cs (.int k) rest
  | empty {cs after rest : List Char} (hopen : skipSpaces cs = '[' :: after)
    (hclose : skipSpaces after = ']' :: rest) : Spells cs (.list []) rest
  | list {cs after rest : List Char} {items : List Value} (hopen : skipSpaces cs = '[' :: after)
    (hitems : SpellsItems after items rest) : Spells cs (.list items) rest

/-- A text starts with items, one at least, and the bracket that closes them. -/
inductive SpellsItems : List Char → List Value → List Char → Prop
  | last {cs mid rest : List Char} {v : Value} (hv : Spells cs v mid)
    (hclose : skipSpaces mid = ']' :: rest) : SpellsItems cs [v] rest
  | cons {cs mid after rest : List Char} {v : Value} {items : List Value} (hv : Spells cs v mid)
    (hcomma : skipSpaces mid = ',' :: after) (hitems : SpellsItems after items rest) :
    SpellsItems cs (v :: items) rest

end

/-- A whole text that spells a value. -/
def IsText (v : Value) (text : String) : Prop :=
  ∃ rest, Spells (Text.unifyLineEnds text.toList) v rest ∧ skipSpaces rest = []

/-! ## The reader -/

/-- The reader takes this value and leaves this rest. -/
def Takes (cs : List Char) (v : Value) (rest : List Char) : Prop :=
  ∃ h, takeValue cs = .ok (v, ⟨rest, h⟩)

/-- The reader takes these items, behind those before, and leaves this rest. -/
def TakesItems (cs : List Char) (before items : List Value) (rest : List Char) : Prop :=
  ∃ h, takeItems cs before = .ok (before.reverse ++ items, ⟨rest, h⟩)

section

variable {cs mid after rest : List Char} {v : Value} {before items : List Value}

theorem takes_scalar {body : List Char} (hskip : skipSpaces cs = body)
    (hbody : ∀ c after, body = c :: after → c ≠ '[' ∧ c ≠ '\x7b' ∧ c ≠ '"')
    (htake : takeScalar body = .ok (v, rest)) (hlength : rest.length < body.length) :
    Takes cs v rest := by
  have hl : rest.length < cs.length := hlength.trans_le (hskip ▸ length_skipSpaces_le cs)
  refine ⟨hl, ?_⟩
  rw [takeValue]
  split
  · rename_i hopen
    exact absurd rfl (hbody _ _ (hskip.symm.trans hopen)).1
  · rename_i hopen
    exact absurd rfl (hbody _ _ (hskip.symm.trans hopen)).2.1
  · rename_i hopen
    exact absurd rfl (hbody _ _ (hskip.symm.trans hopen)).2.2
  · rw [hskip, htake]
    exact dif_pos hl

/-- What follows a first character after blanks is shorter than the text. -/
theorem length_lt_of_skipSpaces {c : Char} (h : skipSpaces cs = c :: rest) :
    rest.length < cs.length := by
  have hlength := length_skipSpaces_le cs
  rw [h, List.length_cons] at hlength
  exact hlength

/-- What stands between brackets: nothing, or items. -/
def TakesInside (after : List Char) (items : List Value) (rest : List Char) : Prop :=
  (skipSpaces after = ']' :: rest ∧ items = []) ∨
    ((∀ rest, skipSpaces after ≠ ']' :: rest) ∧ TakesItems after [] items rest)

theorem takes_list (hopen : skipSpaces cs = '[' :: after) (hinside : TakesInside after items rest) :
    Takes cs (.list items) rest := by
  have hl : rest.length < cs.length := by
    refine Nat.lt_trans ?_ (length_lt_of_skipSpaces hopen)
    rcases hinside with ⟨hclose, -⟩ | ⟨-, hl, -⟩
    · exact length_lt_of_skipSpaces hclose
    · exact hl
  refine ⟨hl, ?_⟩
  rw [takeValue]
  split
  · rename_i hopen'
    cases hopen.symm.trans hopen'
    rcases hinside with ⟨hclose, rfl⟩ | ⟨hitems, _, htake⟩
    · split
      · rename_i hclose'
        cases hclose.symm.trans hclose'
        rfl
      · rename_i hother
        exact absurd hclose (hother _)
    · split
      · rename_i hclose
        exact absurd hclose (hitems _)
      · rw [htake]
        rfl
  · rename_i hopen'
    cases hopen.symm.trans hopen'
  · rename_i hopen'
    cases hopen.symm.trans hopen'
  · rename_i hother _ _
    exact absurd hopen (hother _)

theorem takesItems_last (hv : Takes cs v mid) (hclose : skipSpaces mid = ']' :: rest) :
    TakesItems cs before [v] rest := by
  obtain ⟨hl, htake⟩ := hv
  refine ⟨(length_lt_of_skipSpaces hclose).trans hl, ?_⟩
  rw [takeItems, htake]
  dsimp only
  split
  · rename_i hcomma
    cases hclose.symm.trans hcomma
  · rename_i hclose'
    cases hclose.symm.trans hclose'
    rw [List.reverse_cons]
  · rename_i hother
    exact absurd hclose (hother _)

theorem takesItems_cons (hv : Takes cs v mid) (hcomma : skipSpaces mid = ',' :: after)
    (hitems : TakesItems after (v :: before) items rest) :
    TakesItems cs before (v :: items) rest := by
  obtain ⟨hl, htake⟩ := hv
  obtain ⟨hrest, htakeItems⟩ := hitems
  refine ⟨hrest.trans ((length_lt_of_skipSpaces hcomma).trans hl), ?_⟩
  rw [takeItems, htake]
  dsimp only
  split
  · rename_i hcomma'
    cases hcomma.symm.trans hcomma'
    rw [htakeItems, List.reverse_cons, List.append_assoc, List.singleton_append]
    rfl
  · rename_i hclose
    cases hcomma.symm.trans hclose
  · rename_i hother _
    exact absurd hcomma (hother _)

end

/-! ## Spelled values are read -/

section

variable {cs rest : List Char} {v : Value} {items : List Value}

theorem head_toString {k : ℤ} {c : Char} {after : List Char}
    (h : (toString k).toList ++ rest = c :: after) : c = '-' ∨ c.isDigit = true := by
  obtain ⟨d, tail, hcons⟩ := List.exists_cons_of_ne_nil (Decimal.toString_ne_nil k)
  rw [hcons, List.cons_append] at h
  rw [← (List.cons.inj h).1]
  exact Decimal.mem_toString (by rw [hcons]; exact List.mem_cons_self)

/-- Behind blanks a value starts with a bracket, a sign or a digit. -/
theorem Spells.start (h : Spells cs v rest) {c : Char} {after : List Char}
    (hstart : skipSpaces cs = c :: after) : c = '[' ∨ c = '-' ∨ c.isDigit = true := by
  cases h with
  | int k hskip _ => exact Or.inr (head_toString (hskip.symm.trans hstart))
  | empty hopen _ => exact Or.inl (List.cons.inj (hstart.symm.trans hopen)).1
  | list hopen _ => exact Or.inl (List.cons.inj (hstart.symm.trans hopen)).1

theorem SpellsItems.ne_close (h : SpellsItems cs items rest) (after : List Char) :
    skipSpaces cs ≠ ']' :: after := by
  intro hclose
  cases h with
  | last hv _ => exact absurd (hv.start hclose) (by decide)
  | cons hv _ _ => exact absurd (hv.start hclose) (by decide)

theorem Spells.ne_mark (h : Spells cs v rest) : cs.head? ≠ some '\uFEFF' := by
  intro hmark
  obtain ⟨after, rfl⟩ := List.head?_eq_some_iff.mp hmark
  exact absurd (h.start rfl) (by decide)

mutual

theorem Spells.takes {cs rest : List Char} {v : Value} (h : Spells cs v rest)
    (hv : Payload.HoldsIntegers v) : Takes cs v rest := by
  match h with
  | .int k hskip hrest =>
    have hfits : Payload.Fits k := Payload.holdsIntegers_int.mp hv
    refine takes_scalar hskip (fun c after hcons => ?_) (takeScalar_toString hfits hrest) ?_
    · rcases head_toString hcons with rfl | hdigit
      · decide
      · refine ⟨?_, ?_, ?_⟩ <;> (rintro rfl; cases hdigit)
    · rw [List.length_append]
      exact Nat.lt_add_of_pos_left (List.length_pos_of_ne_nil (Decimal.toString_ne_nil k))
  | .empty hopen hclose => exact takes_list hopen (Or.inl ⟨hclose, rfl⟩)
  | .list hopen hitems => exact takes_list hopen (Or.inr ⟨hitems.ne_close, hitems.takes hv []⟩)

theorem SpellsItems.takes {cs rest : List Char} {items : List Value}
    (h : SpellsItems cs items rest) (hitems : Payload.HoldsIntegers (.list items))
    (before : List Value) : TakesItems cs before items rest := by
  match h with
  | .last hv hclose =>
    exact takesItems_last (hv.takes (Payload.holdsIntegers_cons.mp hitems).1) hclose
  | .cons hv hcomma hrest =>
    obtain ⟨hfirst, hothers⟩ := Payload.holdsIntegers_cons.mp hitems
    exact takesItems_cons (hv.takes hfirst) hcomma (hrest.takes hothers _)

end

theorem read_spelled {text : String} (h : Spells text.toList v rest) (hend : skipSpaces rest = [])
    (hv : Payload.HoldsIntegers v) : Json.read text = .ok v := by
  obtain ⟨hl, htake⟩ := h.takes hv
  unfold Json.read
  rw [if_neg h.ne_mark, htake, ok_bind]
  exact if_pos hend

/-- A text that spells nested integers is read as these. -/
theorem valueOf_text {text : String} (h : IsText v text) (hv : Payload.HoldsIntegers v) :
    Reader.valueOf text = .ok v := by
  obtain ⟨rest, hspells, hend⟩ := h
  rw [← String.toList_ofList (l := Text.unifyLineEnds text.toList)] at hspells
  unfold Reader.valueOf
  dsimp only
  rw [read_spelled hspells hend hv]

end

end EnergyGraph.Json
