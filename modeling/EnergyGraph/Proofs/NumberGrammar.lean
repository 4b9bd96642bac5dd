-- The grammar of the numbers in a text, and what they come to. The grammar is that of a pattern:
--   digits   := digit+ ('_' digit+)*
--   mantissa := digits ('.' digits?)? | '.' digits
--   exponent := ('e' | 'E') ('+' | '-')? digits
--   unsigned := mantissa exponent?
-- A run of digits goes on for as long as it can, so that one step of it is one step of the pattern.
-- Underscores only separate: without them a number reads as the same number.
import EnergyGraph.Proofs.Lexing
import Mathlib.Computability.Language
import Mathlib.Data.Nat.Digits.Defs

namespace EnergyGraph.Decimal

open Text
open scoped Computability

/-! ## The grammar -/

/-- A decimal digit of any script. -/
def digit : Language Char := {cs | ∃ c, cs = [c] ∧ isDecimal c = true}

/-- Groups of digits with single underscores between them. -/
def digits : Language Char := digit * digit∗ * ({['_']} * (digit * digit∗))∗

/-- Digits with a point among them, before them or after them, or without any. -/
def mantissa : Language Char := digits * (1 + {['.']} * (1 + digits)) + {['.']} * digits

def exponent : Language Char := ({['e']} + {['E']}) * (1 + ({['+']} + {['-']})) * digits

def unsigned : Language Char := mantissa * (1 + exponent)

/-! ## Languages -/

section

variable {α : Type} {l : Language α} {x y : List α}

theorem append_mem_kstar (hx : x ∈ l) (hy : y ∈ l∗) : x ++ y ∈ l∗ := by
  rw [← Language.one_add_self_mul_kstar_eq_kstar]
  exact Or.inr (Language.append_mem_mul hx hy)

theorem nil_mem_optional : [] ∈ 1 + l := (Language.mem_add _ _ _).mpr (Or.inl rfl)

theorem mem_optional (hx : x ∈ l) : x ∈ 1 + l := (Language.mem_add _ _ _).mpr (Or.inr hx)

end

/-- What may follow the first digit of a run. -/
def moreDigits : Language Char := digit∗ * ({['_']} * (digit * digit∗))∗

theorem digits_eq : digits = digit * moreDigits := mul_assoc _ _ _

theorem nil_mem_moreDigits : [] ∈ moreDigits :=
  Language.append_mem_mul (a := []) (Language.nil_mem_kstar _) (Language.nil_mem_kstar _)

/-- One more digit belongs to the first group of digits. -/
theorem digit_append_mem {x y : List Char} (hx : x ∈ digit) (hy : y ∈ moreDigits) :
    x ++ y ∈ moreDigits := by
  obtain ⟨group, hgroup, groups, hgroups, rfl⟩ := Language.mem_mul.mp hy
  have hlonger : x ++ group ∈ digit∗ := append_mem_kstar hx hgroup
  rw [← List.append_assoc]
  exact Language.append_mem_mul hlonger hgroups

/-- An underscore and one more digit make the first group one of the later groups. -/
theorem underscore_cons_mem {x y : List Char} (hx : x ∈ digit) (hy : y ∈ moreDigits) :
    '_' :: (x ++ y) ∈ moreDigits := by
  obtain ⟨group, hgroup, groups, hgroups, rfl⟩ := Language.mem_mul.mp hy
  have hlater : ['_'] ++ (x ++ group) ∈ ({['_']} * (digit * digit∗) : Language Char) :=
    Language.append_mem_mul rfl (Language.append_mem_mul hx hgroup)
  have hall : [] ++ (['_'] ++ (x ++ group) ++ groups) ∈ moreDigits :=
    Language.append_mem_mul (Language.nil_mem_kstar digit) (append_mem_kstar hlater hgroups)
  simpa only [List.nil_append, List.cons_append, List.append_assoc] using hall

/-! ## Runs of digits -/

/-- The characters of a number without the underscores in it. -/
def bare (cs : List Char) : List Char := cs.filter (· != '_')

theorem bare_append (xs ys : List Char) : bare (xs ++ ys) = bare xs ++ bare ys :=
  List.filter_append xs ys

theorem bare_cons {c : Char} (h : c ≠ '_') (cs : List Char) : bare (c :: cs) = c :: bare cs :=
  List.filter_cons_of_pos (bne_iff_ne.mpr h)

section

variable {c : Char} {cs word rest : List Char} {d value count : ℕ} {ds : List ℕ} {run : Digits}

theorem ne_underscore_of_value (h : decimalValue? c = some d) : c ≠ '_' := by
  rintro rfl
  cases h

theorem mem_digit (h : decimalValue? c = some d) : [c] ∈ digit := by
  refine ⟨c, rfl, ?_⟩
  unfold isDecimal
  rw [h]
  rfl

/-- Digits in base ten, the first one of most weight. -/
def addDigits (value : ℕ) (ds : List ℕ) : ℕ := ds.foldl (fun n d => n * 10 + d) value

theorem addDigits_zero (ds : List ℕ) : addDigits 0 ds = Nat.ofDigits 10 ds.reverse := by
  rw [Nat.ofDigits_eq_foldr, List.foldr_reverse, addDigits]
  congr 1
  funext n d
  rw [Nat.add_comm, Nat.mul_comm]
  rfl

/-- Digits without underscores are read one by one. -/
theorem go_decimals (hvalues : cs.map decimalValue? = ds.map some) (hrest : Stops rest) :
    takeDigits.go value count (cs ++ rest) =
      ⟨addDigits value ds, count + ds.length, rest⟩ := by
  induction cs generalizing value count ds with
  | nil =>
    obtain rfl : ds = [] := by simpa using hvalues.symm
    exact go_stops hrest value count
  | cons c cs ih =>
    cases ds with
    | nil => cases hvalues
    | cons d ds =>
      rw [List.map_cons, List.map_cons, List.cons.injEq] at hvalues
      obtain ⟨hc, hcs⟩ := hvalues
      have hne := ne_underscore_of_value hc
      rw [List.cons_append, takeDigits.go.eq_3 _ _ _ _ fun _ _ hc _ => hne hc, hc]
      dsimp only
      rw [ih hcs, List.length_cons, Nat.add_assoc, Nat.add_comm 1]
      rfl

/-- The characters of a run, which follow `count` digits of the number `value`, and their values. -/
structure HasRun (value count : ℕ) (cs : List Char) (run : Digits) (word : List Char)
    (ds : List ℕ) : Prop where
  split : cs = word ++ run.rest
  values : (bare word).map decimalValue? = ds.map some
  sum : run.value = addDigits value ds
  length : run.count = count + ds.length
  more : count ≠ 0 → word ∈ moreDigits
  first : count = 0 → ds ≠ [] → word ∈ digits
  none : ds = [] → word = []

theorem hasRun_nil (value count : ℕ) (cs : List Char) :
    HasRun value count cs ⟨value, count, cs⟩ [] [] :=
  ⟨rfl, rfl, rfl, rfl, fun _ => nil_mem_moreDigits, fun _ h => absurd rfl h, fun _ => rfl⟩

theorem HasRun.cons (h : HasRun (value * 10 + d) (count + 1) cs run word ds)
    (hc : decimalValue? c = some d) : HasRun value count (c :: cs) run (c :: word) (d :: ds) where
  split := by rw [h.split, List.cons_append]
  values := by
    rw [bare_cons (ne_underscore_of_value hc), List.map_cons, List.map_cons, hc, h.values]
  sum := h.sum
  length := by
    rw [h.length, List.length_cons]
    omega
  more _ := digit_append_mem (mem_digit hc) (h.more (Nat.succ_ne_zero _))
  first _ _ := by
    rw [digits_eq]
    exact Language.append_mem_mul (mem_digit hc) (h.more (Nat.succ_ne_zero _))
  none := nofun

/-- An underscore stands only between digits. -/
theorem HasRun.underscore (h : HasRun (value * 10 + d) (count + 1) cs run word ds)
    (hc : decimalValue? c = some d) (hcount : count ≠ 0) :
    HasRun value count ('_' :: c :: cs) run ('_' :: c :: word) (d :: ds) where
  split := by rw [h.split, List.cons_append, List.cons_append]
  values := (h.cons hc).values
  sum := h.sum
  length := (h.cons hc).length
  more _ := underscore_cons_mem (mem_digit hc) (h.more (Nat.succ_ne_zero _))
  first hnone := absurd hnone hcount
  none := nofun

theorem exists_hasRun (value count : ℕ) (cs : List Char) :
    ∃ word ds, HasRun value count cs (takeDigits.go value count cs) word ds := by
  fun_induction takeDigits.go value count cs with
  | case1 => exact ⟨[], [], hasRun_nil _ _ _⟩
  | case2 => exact ⟨[], [], hasRun_nil _ _ _⟩
  | case3 value count c rest d hd hcount ih =>
    obtain ⟨word, ds, h⟩ := ih
    exact ⟨_, _, h.underscore hd hcount⟩
  | case4 => exact ⟨[], [], hasRun_nil _ _ _⟩
  | case5 value count c rest _ d hd ih =>
    obtain ⟨word, ds, h⟩ := ih
    exact ⟨_, _, h.cons hd⟩
  | case6 => exact ⟨[], [], hasRun_nil _ _ _⟩

theorem exists_run (cs : List Char) : ∃ word ds, HasRun 0 0 cs (takeDigits cs) word ds :=
  exists_hasRun 0 0 cs

theorem HasRun.mem_optional (h : HasRun 0 0 cs run word ds) : word ∈ 1 + digits := by
  by_cases hds : ds = []
  · rw [h.none hds]
    exact nil_mem_optional
  · exact Decimal.mem_optional (h.first rfl hds)

theorem HasRun.mem_digits (h : HasRun 0 0 cs run word ds) (hcount : run.count ≠ 0) :
    word ∈ digits := by
  refine h.first rfl ?_
  rintro rfl
  exact hcount h.length

/-- Without its underscores a run is read as the same number. -/
theorem HasRun.takeDigits_bare (h : HasRun 0 0 cs run word ds) (hrest : Stops rest) :
    takeDigits (bare word ++ rest) = ⟨run.value, run.count, rest⟩ := by
  rw [h.sum, h.length]
  exact go_decimals h.values hrest

/-- A character of a run is an underscore or a digit. -/
theorem HasRun.of_mem (h : HasRun 0 0 cs run word ds) (hc : c ∈ word) :
    c = '_' ∨ ∃ d, decimalValue? c = some d := by
  by_cases hne : c = '_'
  · exact Or.inl hne
  · have hmem : decimalValue? c ∈ ds.map some := by
      rw [← h.values]
      exact List.mem_map_of_mem (List.mem_filter.mpr ⟨hc, bne_iff_ne.mpr hne⟩)
    obtain ⟨d, -, hd⟩ := List.mem_map.mp hmem
    exact Or.inr ⟨d, hd.symm⟩

end

/-! ## Exponents -/

section

variable {cs tail : List Char} {ds : List ℕ} {e : ℤ}

theorem takeSign_decimals (h : cs.map decimalValue? = ds.map some) :
    takeSign cs = (false, cs) := by
  cases cs with
  | nil => rfl
  | cons c cs =>
    cases ds with
    | nil => cases h
    | cons d ds =>
      have hc : decimalValue? c = some d := (List.cons.inj h).1
      refine takeSign.eq_3 _ ?_ ?_ <;>
      · rintro _ ⟨⟩
        cases hc

theorem exists_sign (cs : List Char) :
    ∃ sign ∈ (1 + ({['+']} + {['-']}) : Language Char), cs = sign ++ (takeSign cs).2 ∧
      bare sign = sign ∧ ∀ other ds, other.map decimalValue? = List.map some ds →
        takeSign (sign ++ other) = ((takeSign cs).1, other) := by
  unfold takeSign
  split
  · exact ⟨['-'], mem_optional (Or.inr rfl), rfl, rfl, fun _ _ _ => rfl⟩
  · exact ⟨['+'], mem_optional (Or.inl rfl), rfl, rfl, fun _ _ _ => rfl⟩
  · exact ⟨[], nil_mem_optional, rfl, rfl, fun _ _ h => takeSign_decimals h⟩

/-- The end of a number: nothing, or an exponent. -/
structure IsEnd (tail : List Char) (e : ℤ) : Prop where
  grammar : tail ∈ 1 + exponent
  again : readExponent? (bare tail) = some e
  head : tail = [] ∨ ∃ c after, tail = c :: after ∧ (c = 'e' ∨ c = 'E')

theorem readExponent?_mark {c : Char} (hmark : c = 'e' ∨ c = 'E') {after body : List Char}
    {negative : Bool} (hsign : takeSign after = (negative, body)) :
    readExponent? (c :: after) =
      let run := takeDigits body
      if run.count = 0 ∨ run.rest ≠ [] then none
      else some (if negative then -(run.value : ℤ) else run.value) := by
  rw [readExponent?, if_pos hmark, hsign]

/-- An exponent that is read has a mark, and then nothing but digits after its sign. -/
theorem readExponent?_cons {c : Char} {after : List Char}
    (h : readExponent? (c :: after) = some e) : (c = 'e' ∨ c = 'E') ∧
      (takeDigits (takeSign after).2).count ≠ 0 ∧ (takeDigits (takeSign after).2).rest = [] := by
  by_cases hmark : c = 'e' ∨ c = 'E'
  · rw [readExponent?_mark hmark (Prod.eta _).symm] at h
    dsimp only at h
    split at h
    · cases h
    · rename_i hrun
      rw [not_or, not_not] at hrun
      exact ⟨hmark, hrun⟩
  · rw [readExponent?, if_neg hmark] at h
    cases h

theorem mem_mark {c : Char} (hmark : c = 'e' ∨ c = 'E') :
    [c] ∈ ({['e']} + {['E']} : Language Char) := by
  rcases hmark with rfl | rfl
  · exact Or.inl rfl
  · exact Or.inr rfl

theorem isEnd_of_read (h : readExponent? tail = some e) : IsEnd tail e := by
  cases tail with
  | nil => exact ⟨nil_mem_optional, h, Or.inl rfl⟩
  | cons c after =>
    obtain ⟨hmark, hcount, hrest⟩ := readExponent?_cons h
    obtain ⟨sign, hsign, hsplit, hbare, hagain⟩ := exists_sign after
    obtain ⟨word, ds, hword⟩ := exists_run (takeSign after).2
    have hwhole : (takeSign after).2 = word := by
      have hrun := hword.split
      rwa [hrest, List.append_nil] at hrun
    refine ⟨mem_optional ?_, ?_, Or.inr ⟨c, after, rfl, hmark⟩⟩
    · rw [hsplit, hwhole, ← List.singleton_append, ← List.append_assoc]
      exact Language.append_mem_mul (Language.append_mem_mul (mem_mark hmark) hsign)
        (hword.mem_digits hcount)
    · have hne : c ≠ '_' := by rcases hmark with rfl | rfl <;> decide
      have hread := hword.takeDigits_bare stops_nil
      rw [List.append_nil, ← hrest] at hread
      have hsame : bare (c :: after) = c :: (sign ++ bare word) := by
        rw [bare_cons hne, hsplit, bare_append, hbare, hwhole]
      rw [hsame, readExponent?_mark hmark (hagain _ _ hword.values), hread]
      rw [readExponent?_mark hmark (Prod.eta _).symm] at h
      exact h

theorem IsEnd.stops (h : IsEnd tail e) : Stops (bare tail) := by
  rcases h.head with rfl | ⟨c, after, rfl, rfl | rfl⟩
  · exact stops_nil
  · exact stops_cons rfl nofun
  · exact stops_cons rfl nofun

theorem IsEnd.ne_point (h : IsEnd tail e) (after : List Char) : bare tail ≠ '.' :: after := by
  rcases h.head with rfl | ⟨c, rest, rfl, rfl | rfl⟩ <;> nofun

end

/-! ## Decimals -/

/-- A character that makes a number a decimal. -/
def IsMark (c : Char) : Prop := c = '.' ∨ c = 'e' ∨ c = 'E'

/-- A text of a decimal: without underscores it is the same decimal, and it has a mark unless it is
a mere run of digits. -/
structure IsDecimalText (cs : List Char) (x : Float) : Prop where
  grammar : cs ∈ unsigned
  again : readUnsigned? (bare cs) = some x
  mark : (takeDigits cs).count ≠ 0 ∧ (takeDigits cs).rest = [] ∨ ∃ c ∈ cs, IsMark c

section

variable {cs word after : List Char} {ds : List ℕ} {x : Float}

theorem IsEnd.mark {tail : List Char} {e : ℤ} (h : IsEnd tail e) :
    tail = [] ∨ ∃ c ∈ tail, IsMark c := by
  refine h.head.imp_right ?_
  rintro ⟨c, after, rfl, hc⟩
  exact ⟨c, List.mem_cons_self, Or.inr hc⟩

/-- A decimal without a point. -/
theorem isDecimalText_noPoint (hword : HasRun 0 0 cs (takeDigits cs) word ds)
    (hcount : (takeDigits cs).count ≠ 0) (hpoint : ∀ after, (takeDigits cs).rest ≠ '.' :: after)
    (h : readUnsigned? cs = some x) : IsDecimalText cs x := by
  rw [readUnsigned?_noPoint rfl hpoint hcount] at h
  obtain ⟨e, he, hx⟩ := Option.map_eq_some_iff.mp h
  have hend := isEnd_of_read he
  have hsplit := hword.split
  refine ⟨?_, ?_, ?_⟩
  · rw [hsplit]
    refine Language.append_mem_mul (Or.inl ?_) hend.grammar
    rw [← List.append_nil word]
    exact Language.append_mem_mul (hword.mem_digits hcount) nil_mem_optional
  · rw [hsplit, bare_append, readUnsigned?_noPoint (hword.takeDigits_bare hend.stops)
      hend.ne_point hcount]
    dsimp only
    rw [hend.again, ← hx, Option.map_some]
  · rcases hend.mark with hnone | ⟨c, hc, hmark⟩
    · exact Or.inl ⟨hcount, hnone⟩
    · refine Or.inr ⟨c, ?_, hmark⟩
      rw [hsplit]
      exact List.mem_append_right word hc

/-- A decimal with a point, and digits on one side of the point at least. -/
theorem isDecimalText_point (hword : HasRun 0 0 cs (takeDigits cs) word ds)
    (hpoint : (takeDigits cs).rest = '.' :: after)
    (hcount : (takeDigits cs).count + (takeDigits after).count ≠ 0)
    (h : readUnsigned? cs = some x) : IsDecimalText cs x := by
  rw [readUnsigned?_point rfl hpoint rfl hcount] at h
  obtain ⟨e, he, hx⟩ := Option.map_eq_some_iff.mp h
  have hend := isEnd_of_read he
  obtain ⟨fraction, fs, hfraction⟩ := exists_run after
  have hsplit : cs = word ++ '.' :: (fraction ++ (takeDigits after).rest) := by
    rw [← hfraction.split, ← hpoint]
    exact hword.split
  have hbare : bare cs = bare word ++ '.' :: (bare fraction ++ bare (takeDigits after).rest) := by
    rw [congrArg bare hsplit, bare_append, bare_cons (by decide), bare_append]
  have hstops : Stops ('.' :: (bare fraction ++ bare (takeDigits after).rest)) :=
    stops_cons rfl (by decide)
  refine ⟨?_, ?_, Or.inr ⟨'.', ?_, Or.inl rfl⟩⟩
  · have hmantissa : word ++ '.' :: fraction ∈ mantissa := by
      by_cases hwhole : (takeDigits cs).count = 0
      · rw [hwhole, Nat.zero_add] at hcount
        obtain rfl : word = [] := hword.none (List.length_eq_zero_iff.mp (by
          rw [← hwhole, hword.length, Nat.zero_add]))
        exact Or.inr (Language.append_mem_mul (a := ['.']) rfl (hfraction.mem_digits hcount))
      · refine Or.inl (Language.append_mem_mul (hword.mem_digits hwhole) (mem_optional ?_))
        exact Language.append_mem_mul (a := ['.']) rfl hfraction.mem_optional
    rw [hsplit, ← List.cons_append, ← List.append_assoc]
    exact Language.append_mem_mul hmantissa hend.grammar
  · rw [hbare, readUnsigned?_point (hword.takeDigits_bare hstops) rfl
      (hfraction.takeDigits_bare hend.stops) hcount]
    dsimp only
    rw [hend.again, ← hx, Option.map_some]
  · rw [hsplit]
    exact List.mem_append_right word List.mem_cons_self

theorem isDecimalText_of_read (h : readUnsigned? cs = some x) : IsDecimalText cs x := by
  obtain ⟨word, ds, hword⟩ := exists_run cs
  have hread := h
  unfold readUnsigned? at h
  dsimp only at h
  split at h
  · rename_i after hpoint
    split at h
    · cases h
    · rename_i hcount
      exact isDecimalText_point hword hpoint hcount hread
  · rename_i hpoint
    split at h
    · cases h
    · rename_i hcount
      exact isDecimalText_noPoint hword hcount hpoint hread

end

/-! ## Texts read as numbers -/

section

variable {c : Char} {cs : List Char}

/-- A character that a number may start with. -/
def Starts (c : Char) : Prop := isDigit c = true ∨ c = '.'

theorem isDigit_ascii (h : isDigit c = true) (hascii : c.toNat < 128) :
    48 ≤ c.toNat ∧ c.toNat < 58 := by
  by_contra hno
  have hother : otherDigitSwitches.holds c.toNat = false := by
    unfold otherDigitSwitches Switches.holds
    rw [Switches.holds.go, if_pos (by omega)]
  unfold isDigit isDecimal decimalValue? at h
  dsimp only at h
  rw [if_neg hno, if_pos hascii, hother] at h
  cases h

theorem Starts.ne_underscore (h : Starts c) : c ≠ '_' := by
  rintro rfl
  rcases h with h | h <;> revert h <;> decide

theorem Starts.toLower (h : Starts c) : c.toLower = c := by
  have hbounds : ¬ (65 ≤ c.toNat ∧ c.toNat ≤ 90) := by
    rcases h with h | rfl
    · intro hupper
      have hdigit := isDigit_ascii h (by omega)
      omega
    · decide
  exact dif_neg fun hupper => hbounds ⟨hupper.1, hupper.2⟩

theorem Starts.takeSign (h : Starts c) (cs : List Char) :
    takeSign (c :: cs) = (false, c :: cs) := by
  refine takeSign.eq_3 _ ?_ ?_ <;>
  · rintro _ ⟨⟩
    rcases h with h | h <;> revert h <;> decide

/-- A text that starts like a number is none of the words for infinities and the like. -/
theorem Starts.ne_word (h : Starts c) (cs : List Char) {d : Char} {word : List Char}
    (hd : ¬ Starts d) : (String.ofList ((c :: cs).map Char.toLower) == String.ofList (d :: word)) =
      false := by
  rw [beq_eq_false_iff_ne]
  intro heq
  have hhead := (List.cons.inj (String.ofList_inj.mp heq)).1
  rw [h.toLower] at hhead
  exact hd (hhead ▸ h)

theorem readFloat?_starts (h : Starts c) (hblank : ∀ d ∈ c :: cs, isBlank d = false) :
    readFloat? (String.ofList (c :: cs)) = readUnsigned? (c :: cs) := by
  have hnan : (String.ofList ((c :: cs).map Char.toLower) == "nan") = false :=
    h.ne_word cs (by unfold Starts; decide)
  have hinf : (String.ofList ((c :: cs).map Char.toLower) == "inf") = false :=
    h.ne_word cs (by unfold Starts; decide)
  have hinfinity : (String.ofList ((c :: cs).map Char.toLower) == "infinity") = false :=
    h.ne_word cs (by unfold Starts; decide)
  unfold readFloat?
  rw [String.toList_ofList, trimmed_eq_self hblank, h.takeSign]
  dsimp only
  rw [hinf, hinfinity, hnan]
  cases readUnsigned? (c :: cs) <;> rfl

theorem readInt?_starts (h : Starts c) (hblank : ∀ d ∈ c :: cs, isBlank d = false)
    (hcount : (takeDigits (c :: cs)).count ≠ 0) (hrest : (takeDigits (c :: cs)).rest = [])
    (hlength : (takeDigits (c :: cs)).count ≤ longestInteger) :
    readInt? (String.ofList (c :: cs)) = some ((takeDigits (c :: cs)).value : ℤ) := by
  unfold readInt?
  rw [String.toList_ofList, trimmed_eq_self hblank, h.takeSign]
  dsimp only
  rw [if_neg (by simp [hcount, hrest, hlength])]
  rfl

end

end EnergyGraph.Decimal

namespace EnergyGraph.Expr

open Decimal Text

/-- The text of a number without the underscores in it. -/
def bareText (text : String) : String := String.ofList (bare text.toList)

/-- What the text of a number comes to. Without a point and an exponent that is the integer of its
digits, and else the finite double that is read from it. Underscores do not count. -/
def HasValue (text : String) : Number → Prop
  | .int n => (∀ c ∈ text.toList, ¬ IsMark c) ∧ readInt? (bareText text) = some n ∧
    ∃ ds : List ℕ, (bare text.toList).map decimalValue? = ds.map some ∧
      n = (Nat.ofDigits 10 ds.reverse : ℕ)
  | .float x => (∃ c ∈ text.toList, IsMark c) ∧ readFloat? (bareText text) = some x ∧
    x.isFinite = true

structure IsNumberText (text : String) (v : Number) : Prop where
  grammar : text.toList ∈ unsigned
  value : HasValue text v

section

variable {c : Char} {tail : List Char} {span : Span} {v : Number}

theorem isMark_ne {c : Char} (h : IsMark c) : c ≠ '_' ∧ ∀ d, decimalValue? c ≠ some d := by
  rcases h with rfl | rfl | rfl <;> exact ⟨by decide, nofun⟩

/-- A run of digits alone. -/
theorem isNumberText_int (hc : Starts c) (hblank : ∀ d ∈ c :: tail, isBlank d = false)
    (hcount : (takeDigits (c :: tail)).count ≠ 0) (hrest : (takeDigits (c :: tail)).rest = [])
    (hlength : (takeDigits (c :: tail)).count ≤ longestInteger) :
    IsNumberText (String.ofList (c :: tail)) (.int (takeDigits (c :: tail)).value) := by
  obtain ⟨word, ds, hword⟩ := exists_run (c :: tail)
  have hwhole : c :: tail = word := by
    have hsplit := hword.split
    rwa [hrest, List.append_nil] at hsplit
  have hbare := hword.takeDigits_bare stops_nil
  rw [List.append_nil, ← hwhole, bare_cons hc.ne_underscore] at hbare
  have hblank' : ∀ d ∈ c :: bare tail, isBlank d = false := by
    intro d hd
    rw [← bare_cons hc.ne_underscore] at hd
    exact hblank d (List.mem_of_mem_filter hd)
  refine ⟨?_, ?_, ?_, ds, ?_, ?_⟩
  · rw [String.toList_ofList, hwhole, ← List.append_nil word, ← List.append_nil word]
    refine Language.append_mem_mul (Or.inl ?_) nil_mem_optional
    exact Language.append_mem_mul (hword.mem_digits hcount) nil_mem_optional
  · rw [String.toList_ofList, hwhole]
    intro d hd hmark
    obtain ⟨hne, hvalue⟩ := isMark_ne hmark
    rcases hword.of_mem hd with hunderscore | ⟨n, hn⟩
    · exact hne hunderscore
    · exact hvalue n hn
  · have hread := readInt?_starts hc hblank'
    rw [hbare] at hread
    rw [bareText, String.toList_ofList, bare_cons hc.ne_underscore]
    exact hread hcount rfl hlength
  · rw [String.toList_ofList, hwhole]
    exact hword.values
  · rw [← addDigits_zero, ← hword.sum]

theorem isNumberText_float (hc : Starts c) (hblank : ∀ d ∈ c :: tail, isBlank d = false)
    {x : Float} (hx : readUnsigned? (c :: tail) = some x) (hfinite : x.isFinite = true)
    (hrun : ¬ ((takeDigits (c :: tail)).count ≠ 0 ∧ (takeDigits (c :: tail)).rest = [])) :
    IsNumberText (String.ofList (c :: tail)) (.float x) := by
  have htext := isDecimalText_of_read hx
  refine ⟨?_, ?_, ?_, hfinite⟩
  · rw [String.toList_ofList]
    exact htext.grammar
  · rw [String.toList_ofList]
    exact htext.mark.resolve_left hrun
  · have hagain := htext.again
    rw [bareText, String.toList_ofList]
    rw [bare_cons hc.ne_underscore] at hagain ⊢
    refine (readFloat?_starts hc fun d hd => ?_).trans hagain
    rw [← bare_cons hc.ne_underscore] at hd
    exact hblank d (List.mem_of_mem_filter hd)

/-- A chunk that has a value is a number of the grammar, and reads as that value. -/
theorem isNumberText_of_value (hc : Starts c) (hblank : ∀ d ∈ c :: tail, isBlank d = false)
    (h : numberValue (c :: tail) span = .ok v) :
    IsNumberText (String.ofList (c :: tail)) v := by
  unfold numberValue at h
  dsimp only at h
  split at h
  · rename_i hrun
    split at h
    · cases h
    · rename_i hlength
      cases h
      exact isNumberText_int hc hblank hrun.1 hrun.2 (not_lt.mp hlength)
  · rename_i hrun
    split at h
    · cases h
    · rename_i x hx
      split at h
      · rename_i hfinite
        cases h
        exact isNumberText_float hc hblank hx hfinite hrun
      · cases h

end

end EnergyGraph.Expr
