-- Numerals: how the numbers that are written by the library are read again. A double is
-- written as digits, perhaps a point and more digits, and perhaps an exponent; all of it is
-- one token, and the decimal that it spells rounds to the double.
import EnergyGraph.Expr.Token
import EnergyGraph.Proofs.Shortest

namespace EnergyGraph.Decimal

open Text

/-! ## Digits -/

/-- Decimal digits of ASCII only. -/
def AllDigits (cs : List Char) : Prop := ∀ c ∈ cs, c.isDigit = true

theorem allDigits_append {cs ds : List Char} : AllDigits (cs ++ ds) ↔ AllDigits cs ∧ AllDigits ds :=
  List.forall_mem_append

theorem allDigits_toDigits (n : ℕ) : AllDigits (Nat.toDigits 10 n) := fun _ hc =>
  Nat.isDigit_of_mem_toDigits (by decide) (by decide) hc

theorem allDigits_zeros (n : ℕ) : AllDigits (List.replicate n '0') := fun _ hc =>
  List.eq_of_mem_replicate hc ▸ rfl

theorem toNat_bounds {c : Char} (h : c.isDigit = true) : 48 ≤ c.toNat ∧ c.toNat < 58 := by
  simp only [Char.isDigit, Bool.and_eq_true, decide_eq_true_eq, ge_iff_le, UInt32.le_iff_toNat_le]
    at h
  exact ⟨h.1, Nat.lt_succ_of_le h.2⟩

theorem decimalValue?_digit {c : Char} (h : c.isDigit = true) :
    decimalValue? c = some (c.toNat - 48) := by
  unfold decimalValue?
  dsimp only
  rw [if_pos (toNat_bounds h)]

theorem isBlank_digit {c : Char} (h : c.isDigit = true) : Text.isBlank c = false := by
  have hall : ∀ n < 58, 48 ≤ n → Text.blankSwitches.holds n = false := by decide
  exact hall c.toNat (toNat_bounds h).2 (toNat_bounds h).1

theorem dropWhile_isBlank {cs : List Char} (h : ∀ c ∈ cs, isBlank c = false) :
    cs.dropWhile isBlank = cs := by
  cases cs with
  | nil => rfl
  | cons c cs => rw [List.dropWhile_cons, h c List.mem_cons_self, if_neg Bool.false_ne_true]

/-- What has no blanks at all has none at its ends. -/
theorem trimmed_eq_self {cs : List Char} (h : ∀ c ∈ cs, isBlank c = false) : trimmed cs = cs := by
  have hreverse : ∀ c ∈ cs.reverse, isBlank c = false := fun c hc => h c (List.mem_reverse.mp hc)
  rw [trimmed, dropWhile_isBlank h, dropWhile_isBlank hreverse, List.reverse_reverse]

theorem exists_toDigits (n : ℕ) : ∃ c tail, Nat.toDigits 10 n = c :: tail ∧ c.isDigit = true := by
  obtain ⟨c, tail, hcons⟩ := List.exists_cons_of_ne_nil (Nat.toDigits_ne_nil (n := n) (b := 10))
  exact ⟨c, tail, hcons, allDigits_toDigits n c (by rw [hcons]; exact List.mem_cons_self)⟩

/-- An integer is written as a minus sign, if it is negative, and the digits of its magnitude. -/
theorem toList_toString (k : ℤ) :
    (toString k).toList = (if k < 0 then ['-'] else []) ++ Nat.toDigits 10 k.natAbs := by
  cases k with
  | ofNat n =>
    have hnegative : ¬ Int.ofNat n < 0 := not_lt.mpr (Int.natCast_nonneg n)
    rw [if_neg hnegative]
    exact Nat.toList_repr
  | negSucc n =>
    change ("-" ++ (n + 1).repr).toList = _
    rw [String.toList_append, Nat.toList_repr, if_pos (Int.negSucc_lt_zero n)]
    rfl

/-- An integer is its magnitude with its sign. -/
theorem signed_natAbs (k : ℤ) :
    (if decide (k < 0) = true then -(k.natAbs : ℤ) else k.natAbs) = k := by
  rcases Int.lt_or_le k 0 with hneg | hpos
  · rw [if_pos (decide_eq_true hneg)]
    exact (Int.eq_neg_comm.mp (Int.ofNat_natAbs_of_nonpos hneg.le)).symm
  · rw [if_neg (by simpa using hpos)]
    exact Int.natAbs_of_nonneg hpos

theorem mem_toString {k : ℤ} {c : Char} (h : c ∈ (toString k).toList) :
    c = '-' ∨ c.isDigit = true := by
  rw [toList_toString] at h
  rcases List.mem_append.mp h with hsign | hdigit
  · split at hsign
    · exact Or.inl (List.mem_singleton.mp hsign)
    · cases hsign
  · exact Or.inr (allDigits_toDigits _ c hdigit)

theorem toString_ne_nil (k : ℤ) : (toString k).toList ≠ [] := by
  rw [toList_toString]
  exact List.append_ne_nil_of_right_ne_nil _ Nat.toDigits_ne_nil

/-- A run of digits ends here. -/
def Stops (rest : List Char) : Prop :=
  ∀ c after, rest = c :: after → decimalValue? c = none ∧ c ≠ '_'

theorem stops_nil : Stops [] := nofun

theorem stops_cons {c : Char} {after : List Char} (h : decimalValue? c = none) (hc : c ≠ '_') :
    Stops (c :: after) := by
  rintro _ _ ⟨⟩
  exact ⟨h, hc⟩

theorem ne_underscore {c : Char} (h : c.isDigit = true) : c ≠ '_' := by
  rintro rfl
  cases h

theorem go_digit {c : Char} (h : c.isDigit = true) (value count : ℕ) (cs : List Char) :
    takeDigits.go value count (c :: cs) =
      takeDigits.go (value * 10 + (c.toNat - 48)) (count + 1) cs := by
  rw [takeDigits.go.eq_3 _ _ _ _ fun _ _ hc _ => ne_underscore h hc, decimalValue?_digit h]

theorem go_stops {rest : List Char} (h : Stops rest) (value count : ℕ) :
    takeDigits.go value count rest = ⟨value, count, rest⟩ := by
  cases rest with
  | nil => rfl
  | cons c after =>
    obtain ⟨hvalue, hc⟩ := h c after rfl
    rw [takeDigits.go.eq_3 _ _ _ _ fun _ _ hunderscore _ => hc hunderscore, hvalue]

theorem go_digits {ds rest : List Char} (hds : AllDigits ds) (hrest : Stops rest)
    (value count : ℕ) :
    takeDigits.go value count (ds ++ rest) =
      ⟨Nat.ofDigitChars 10 ds value, count + ds.length, rest⟩ := by
  induction ds generalizing value count with
  | nil => exact go_stops hrest value count
  | cons c cs ih =>
    obtain ⟨hc, hcs⟩ := List.forall_mem_cons.mp hds
    rw [List.cons_append, go_digit hc, ih hcs, Nat.ofDigitChars_cons, Nat.mul_comm value 10,
      List.length_cons, Nat.add_assoc, Nat.add_comm 1]
    rfl

theorem takeDigits_append {ds rest : List Char} (hds : AllDigits ds) (hrest : Stops rest) :
    takeDigits (ds ++ rest) = ⟨Nat.ofDigitChars 10 ds 0, ds.length, rest⟩ := by
  unfold takeDigits
  rw [go_digits hds hrest, Nat.zero_add]

theorem decimalValue?_lt {c : Char} {d : ℕ} (h : decimalValue? c = some d) : d < 10 := by
  unfold decimalValue? at h
  dsimp only at h
  split at h
  · cases h
    omega
  · split at h
    · cases h
    · obtain ⟨z, -, hz⟩ := List.exists_of_findSome?_eq_some h
      split at hz
      · cases hz
        omega
      · cases hz

/-- A run of digits is a number of that many digits. -/
theorem go_value_lt {value count : ℕ} (cs : List Char) (h : value < 10 ^ count) :
    (takeDigits.go value count cs).value < 10 ^ (takeDigits.go value count cs).count := by
  have hstep {d : ℕ} {c : Char} {value count : ℕ} (h : value < 10 ^ count)
      (hd : decimalValue? c = some d) : value * 10 + d < 10 ^ (count + 1) := by
    have hlt := decimalValue?_lt hd
    rw [pow_succ]
    omega
  fun_induction takeDigits.go value count cs with
  | case1 => exact h
  | case2 => exact h
  | case3 _ _ _ _ _ hd _ ih => exact ih (hstep h hd)
  | case4 => exact h
  | case5 _ _ _ _ _ _ hd ih => exact ih (hstep h hd)
  | case6 => exact h

/-- Zero alone has digits that start with a zero. -/
theorem toDigits_zero_cons {n : ℕ} {tail : List Char} (h : Nat.toDigits 10 n = '0' :: tail) :
    n = 0 ∧ tail = [] := by
  have hdigits : AllDigits ('0' :: tail) := h ▸ allDigits_toDigits n
  have htail : AllDigits tail := (List.forall_mem_cons.mp hdigits).2
  have hvalue : Nat.ofDigitChars 10 tail 0 = n := by
    rw [← Nat.ofDigitChars_ten_toDigits (n := n), h, Nat.ofDigitChars_cons]
    rfl
  have hlt := go_value_lt tail (show 0 < 10 ^ 0 from Nat.one_pos)
  have hrun := go_digits htail stops_nil 0 0
  rw [List.append_nil] at hrun
  rw [hrun, hvalue, Nat.zero_add] at hlt
  have htailNil : tail = [] := by
    by_contra hne
    have hlength := (Nat.length_toDigits_le_iff (by decide) (List.length_pos_of_ne_nil hne)).mpr hlt
    rw [h, List.length_cons] at hlength
    exact absurd hlength (Nat.not_succ_le_self _)
  refine ⟨?_, htailNil⟩
  rw [htailNil, List.length_nil, pow_zero] at hlt
  exact Nat.lt_one_iff.mp hlt

/-! ## Decimals as they are spelled -/

/-- A decimal in parts: the digits before the point, the digits after it if there is one, and
the exponent if there is one. -/
structure Spelling where
  whole : List Char
  fraction : Option (List Char)
  exponent : Option ℤ

namespace Spelling

def point : Option (List Char) → List Char
  | none => []
  | some fs => '.' :: fs

def power : Option ℤ → List Char
  | none => []
  | some e => (resultLayout.exponent e).toList

def text (s : Spelling) : List Char := s.whole ++ (point s.fraction ++ power s.exponent)

/-- The decimal that is spelled. -/
def dec (s : Spelling) : Dec where
  digits := Nat.ofDigitChars 10 (s.whole ++ s.fraction.getD []) 0
  exp := s.exponent.getD 0 - (s.fraction.getD []).length

/-- There is a digit before the point, and a point or an exponent. -/
structure Valid (s : Spelling) : Prop where
  nonempty : s.whole ≠ []
  whole : AllDigits s.whole
  fraction : AllDigits (s.fraction.getD [])
  decimal : s.fraction ≠ none ∨ s.exponent ≠ none

end Spelling

/-! ### Exponents -/

/-- An exponent is a mark, a sign and digits. -/
theorem exponent_toList (e : ℤ) : ∃ ds, AllDigits ds ∧ ds ≠ [] ∧
    Nat.ofDigitChars 10 ds 0 = e.natAbs ∧
    (resultLayout.exponent e).toList = 'e' :: (if e < 0 then '-' else '+') :: ds := by
  have hdigits : (toString e.natAbs).toList = Nat.toDigits 10 e.natAbs := Nat.toList_repr
  refine ⟨List.replicate (resultLayout.exponentWidth - (toString e.natAbs).length) '0' ++
    Nat.toDigits 10 e.natAbs, allDigits_append.mpr ⟨allDigits_zeros _, allDigits_toDigits _⟩,
    by simp, ?_, ?_⟩
  · rw [Nat.ofDigitChars_append, Nat.ofDigitChars_replicate_zero, Nat.mul_zero,
      Nat.ofDigitChars_ten_toDigits]
  · unfold Layout.exponent
    simp only [String.toList_append, String.toList_ofList, hdigits]
    split <;> rfl

theorem readExponent?_exponent (e : ℤ) :
    readExponent? (resultLayout.exponent e).toList = some e := by
  obtain ⟨ds, hds, hne, hvalue, htext⟩ := exponent_toList e
  have hrun : takeDigits ds = ⟨e.natAbs, ds.length, []⟩ := by
    have happend := takeDigits_append hds stops_nil
    rwa [List.append_nil, hvalue] at happend
  have hcount : ds.length ≠ 0 := by simpa using hne
  rw [htext]
  unfold readExponent?
  rcases Int.lt_or_le e 0 with hneg | hpos
  · simp only [hneg, if_true, takeSign, hrun, true_or]
    rw [if_neg (by simp [hcount])]
    exact congrArg some (by omega)
  · simp only [not_lt.mpr hpos, if_false, takeSign, hrun, true_or, if_true]
    rw [if_neg (by simp [hcount]), if_neg (by simp)]
    exact congrArg some (by omega)

theorem power_stops (e? : Option ℤ) : Stops (Spelling.power e?) := by
  cases e? with
  | none => exact stops_nil
  | some e =>
    obtain ⟨ds, -, -, -, htext⟩ := exponent_toList e
    unfold Spelling.power
    dsimp only
    rw [htext]
    exact stops_cons (by decide) (by decide)

theorem readExponent?_power (e? : Option ℤ) :
    readExponent? (Spelling.power e?) = some (e?.getD 0) := by
  cases e? with
  | none => rfl
  | some e => exact readExponent?_exponent e

section

variable {cs : List Char} {whole : Digits}

theorem readUnsigned?_noPoint (hwhole : takeDigits cs = whole)
    (hrest : ∀ after, whole.rest ≠ '.' :: after) (hcount : whole.count ≠ 0) :
    readUnsigned? cs = (readExponent? whole.rest).map fun e => nearest whole.value e := by
  unfold readUnsigned?
  dsimp only
  rw [hwhole]
  split
  · rename_i after hpoint
    exact absurd hpoint (hrest after)
  · simp [hcount, Nat.pow_eq]

theorem readUnsigned?_point {after : List Char} {fraction : Digits}
    (hwhole : takeDigits cs = whole) (hrest : whole.rest = '.' :: after)
    (hfraction : takeDigits after = fraction) (hcount : whole.count + fraction.count ≠ 0) :
    readUnsigned? cs = (readExponent? fraction.rest).map fun e =>
      nearest (whole.value * 10 ^ fraction.count + fraction.value) (e - fraction.count) := by
  unfold readUnsigned?
  dsimp only
  rw [hwhole, hrest]
  subst hfraction
  exact if_neg hcount

end

theorem power_ne_point (e? : Option ℤ) (rest : List Char) : Spelling.power e? ≠ '.' :: rest := by
  cases e? with
  | none => nofun
  | some e =>
    obtain ⟨ds, -, -, -, htext⟩ := exponent_toList e
    unfold Spelling.power
    dsimp only
    rw [htext]
    intro h
    cases h

namespace Spelling

variable {s : Spelling}

theorem rest_stops (fraction : Option (List Char)) (e? : Option ℤ) :
    Stops (point fraction ++ power e?) := by
  cases fraction with
  | none => exact power_stops e?
  | some fs => exact stops_cons (by decide) (by decide)

/-- What is read is the double nearest to what is spelled. -/
theorem readUnsigned?_text (h : s.Valid) :
    readUnsigned? s.text = some (nearest s.dec.digits s.dec.exp) := by
  obtain ⟨whole, fraction, e?⟩ := s
  obtain ⟨hne, hwhole, hfraction, -⟩ := h
  have hcount : whole.length ≠ 0 := by simpa using hne
  have hrun := takeDigits_append hwhole (rest_stops fraction e?)
  unfold text dec
  dsimp only at *
  cases fraction with
  | none =>
    have hpoint (after : List Char) : point none ++ power e? ≠ '.' :: after :=
      power_ne_point e? after
    rw [readUnsigned?_noPoint hrun hpoint hcount]
    change (readExponent? (power e?)).map _ = _
    rw [readExponent?_power, Option.map_some]
    simp
  | some fs =>
    have hdigits := takeDigits_append hfraction (power_stops e?)
    have hvalue : Nat.ofDigitChars 10 (whole ++ fs) 0 =
        Nat.ofDigitChars 10 whole 0 * 10 ^ fs.length + Nat.ofDigitChars 10 fs 0 := by
      rw [Nat.ofDigitChars_append, Nat.ofDigitChars_eq_ofDigitChars_zero, Nat.mul_comm]
    rw [readUnsigned?_point hrun rfl hdigits (Nat.ne_of_gt (Nat.add_pos_left
      (Nat.pos_of_ne_zero hcount) _))]
    change (readExponent? (power e?)).map _ = _
    rw [readExponent?_power, Option.map_some]
    change some (nearest _ _) = some (nearest (Nat.ofDigitChars 10 (whole ++ fs) 0) _)
    rw [hvalue]
    rfl

/-- The digits at the front are not all. -/
theorem takeDigits_text (h : s.Valid) : (takeDigits s.text).rest ≠ [] := by
  unfold text
  rw [takeDigits_append h.whole (rest_stops s.fraction s.exponent)]
  obtain ⟨whole, fraction, e?⟩ := s
  cases fraction with
  | some fs => exact List.cons_ne_nil _ _
  | none =>
    cases e? with
    | none => exact absurd h.decimal (by simp)
    | some e =>
      obtain ⟨ds, -, -, -, htext⟩ := exponent_toList e
      change (resultLayout.exponent e).toList ≠ []
      rw [htext]
      exact List.cons_ne_nil _ _

end Spelling

/-! ## The layout of decimals -/

/-- What a text spells out, a decimal of the same value as the one that is written. -/
structure Spells (cs : List Char) (d : Dec) (s : Spelling) : Prop where
  valid : s.Valid
  text : cs = s.text
  value : s.dec.value = d.value
  digits : s.dec.digits ≤ d.digits * 10 ^ 16

section

variable {d : Dec} {ds : List Char} (hds : AllDigits ds) (hne : ds ≠ [])
  (hvalue : Nat.ofDigitChars 10 ds 0 = d.digits)

include hds hvalue

/-- Decimals below one start with zeros. -/
theorem spells_below {k : ℕ} (hk : (k : ℤ) + ds.length = -d.exp) :
    Spells ('0' :: '.' :: (List.replicate k '0' ++ ds)) d
      ⟨['0'], some (List.replicate k '0' ++ ds), none⟩ := by
  have hdigits : Nat.ofDigitChars 10 (['0'] ++ (List.replicate k '0' ++ ds)) 0 = d.digits := by
    rw [Nat.ofDigitChars_append, Nat.ofDigitChars_append, Nat.ofDigitChars_replicate_zero]
    exact hvalue
  have hdec : Spelling.dec ⟨['0'], some (List.replicate k '0' ++ ds), none⟩ = d := by
    unfold Spelling.dec
    simp only [Option.getD_some, Option.getD_none, hdigits, List.length_append,
      List.length_replicate]
    obtain ⟨digits, exp⟩ := d
    congr 1
    dsimp only at hk
    push_cast
    omega
  refine ⟨⟨by simp, ?_, ?_, Or.inl (by simp)⟩, by simp [Spelling.text, Spelling.point,
    Spelling.power], by rw [hdec], ?_⟩
  · exact allDigits_zeros 1
  · exact allDigits_append.mpr ⟨allDigits_zeros k, hds⟩
  · rw [hdec]
    exact Nat.le_mul_of_pos_right _ (by positivity)

/-- The point stands between the digits. -/
theorem spells_between {k : ℕ} (hpos : 0 < k) (hk : k < ds.length)
    (hexp : (k : ℤ) - ds.length = d.exp) :
    Spells (ds.take k ++ '.' :: ds.drop k) d ⟨ds.take k, some (ds.drop k), none⟩ := by
  have hdec : Spelling.dec ⟨ds.take k, some (ds.drop k), none⟩ = d := by
    unfold Spelling.dec
    simp only [Option.getD_some, Option.getD_none, List.take_append_drop, hvalue, List.length_drop]
    obtain ⟨digits, exp⟩ := d
    congr 1
    dsimp only at hexp
    omega
  obtain ⟨htake, hdrop⟩ := allDigits_append.mp ((List.take_append_drop k ds).symm ▸ hds)
  refine ⟨⟨?_, htake, hdrop, Or.inl (by simp)⟩, by simp [Spelling.text, Spelling.point,
    Spelling.power], by rw [hdec], ?_⟩
  · intro hnil
    have hlength := congrArg List.length hnil
    rw [List.length_take, List.length_nil] at hlength
    omega
  · rw [hdec]
    exact Nat.le_mul_of_pos_right _ (by positivity)

include hne

/-- Integers are filled up with zeros, and a zero stands after the point. -/
theorem spells_above {k : ℕ} (hexp : d.exp = k) (hk : k < 16) :
    Spells (ds ++ List.replicate k '0' ++ ['.', '0']) d
      ⟨ds ++ List.replicate k '0', some ['0'], none⟩ := by
  have hdigits : Nat.ofDigitChars 10 (ds ++ List.replicate k '0' ++ ['0']) 0 =
      d.digits * 10 ^ (k + 1) := by
    rw [Nat.ofDigitChars_append, Nat.ofDigitChars_append, Nat.ofDigitChars_replicate_zero, hvalue]
    change 10 * (10 ^ k * d.digits) + 0 = _
    rw [pow_succ]
    ring
  refine ⟨⟨by simp [hne], allDigits_append.mpr ⟨hds, allDigits_zeros k⟩, allDigits_zeros 1,
    Or.inl (by simp)⟩, by simp [Spelling.text, Spelling.point, Spelling.power], ?_, ?_⟩
  · unfold Spelling.dec Dec.value
    simp only [Option.getD_some, Option.getD_none, hdigits]
    rw [hexp, show (0 : ℤ) - ((['0'] : List Char).length : ℕ) = -1 from rfl, zpow_neg_one]
    push_cast
    rw [zpow_natCast, pow_succ]
    ring
  · change Nat.ofDigitChars 10 (ds ++ List.replicate k '0' ++ ['0']) 0 ≤ _
    rw [hdigits]
    exact Nat.mul_le_mul_left _ (Nat.pow_le_pow_right (by norm_num) hk)

/-- Decimals with an exponent have one digit before the point, and a point if there are more. -/
theorem spells_scientific {e : ℤ} (he : e = d.exp + ds.length - 1) :
    ∃ s, Spells (match ds with
      | [] => []
      | [c] => c :: (resultLayout.exponent e).toList
      | c :: rest => c :: '.' :: (rest ++ (resultLayout.exponent e).toList)) d s := by
  obtain ⟨c, rest, rfl⟩ := List.exists_cons_of_ne_nil hne
  obtain ⟨hc, hrest⟩ := List.forall_mem_cons.mp hds
  cases rest with
  | nil =>
    have hdec : Spelling.dec ⟨[c], none, some e⟩ = d := by
      unfold Spelling.dec
      simp only [Option.getD_none, Option.getD_some, List.append_nil, hvalue, List.length_nil]
      obtain ⟨digits, exp⟩ := d
      congr 1
      simpa using he
    refine ⟨⟨[c], none, some e⟩, ⟨by simp, by simpa [AllDigits] using hc, by simp [AllDigits],
      Or.inr (by simp)⟩, by simp [Spelling.text, Spelling.point, Spelling.power], by rw [hdec], ?_⟩
    rw [hdec]
    exact Nat.le_mul_of_pos_right _ (by positivity)
  | cons c' rest =>
    have hdec : Spelling.dec ⟨[c], some (c' :: rest), some e⟩ = d := by
      unfold Spelling.dec
      simp only [Option.getD_some, List.singleton_append, hvalue]
      obtain ⟨digits, exp⟩ := d
      congr 1
      simp only [List.length_cons] at he ⊢
      push_cast at he ⊢
      omega
    refine ⟨⟨[c], some (c' :: rest), some e⟩, ⟨by simp, by simpa [AllDigits] using hc, hrest,
      Or.inl (by simp)⟩, by simp [Spelling.text, Spelling.point, Spelling.power], by rw [hdec], ?_⟩
    rw [hdec]
    exact Nat.le_mul_of_pos_right _ (by positivity)

end

/-- The layout of a decimal spells it. -/
theorem spells_render (d : Dec) : ∃ s, Spells (resultLayout.render d).toList d s := by
  have hds := allDigits_toDigits d.digits
  have hne : Nat.toDigits 10 d.digits ≠ [] := Nat.toDigits_ne_nil
  have hvalue : Nat.ofDigitChars 10 (Nat.toDigits 10 d.digits) 0 = d.digits :=
    Nat.ofDigitChars_ten_toDigits
  have htext : (toString d.digits).toList = Nat.toDigits 10 d.digits := Nat.toList_repr
  have hlength : (toString d.digits).length = (Nat.toDigits 10 d.digits).length := by
    rw [← String.length_toList, htext]
  have hpos : 0 < (Nat.toDigits 10 d.digits).length := Nat.length_toDigits_pos
  unfold Layout.render
  simp only [hlength, htext]
  generalize Nat.toDigits 10 d.digits = ds at *
  change ∃ s, Spells (if -4 ≤ d.exp + ds.length - 1 ∧ d.exp + ds.length - 1 < 16 then _ else _ :
    String).toList d s
  split
  · split
    · obtain ⟨k, hk⟩ : ∃ k : ℕ, (-(d.exp + ds.length - 1) - 1).toNat = k := ⟨_, rfl⟩
      refine ⟨⟨['0'], some (List.replicate k '0' ++ ds), none⟩, ?_⟩
      have hspells := spells_below hds hvalue (k := k) (by omega)
      simp only [String.toList_append, String.toList_ofList, hk, htext]
      exact hspells
    · split
      · obtain ⟨k, hk⟩ : ∃ k : ℕ, (d.exp + ds.length - 1 + 1).toNat = k := ⟨_, rfl⟩
        refine ⟨⟨ds.take k, some (ds.drop k), none⟩, ?_⟩
        have hspells := spells_between hds hvalue (k := k) (by omega) (by omega) (by omega)
        simp only [String.toList_append, String.toList_ofList, hk, List.append_assoc]
        exact hspells
      · obtain ⟨k, hk⟩ : ∃ k : ℕ, (d.exp + ds.length - 1 + 1 - ds.length).toNat = k := ⟨_, rfl⟩
        refine ⟨⟨ds ++ List.replicate k '0', some ['0'], none⟩, ?_⟩
        have hspells := spells_above hds hne hvalue (k := k) (by omega) (by omega)
        simp only [String.toList_append, String.toList_ofList, hk, htext]
        exact hspells
  · obtain ⟨s, hspells⟩ := spells_scientific hds hne hvalue (e := d.exp + ds.length - 1) rfl
    refine ⟨s, ?_⟩
    split at hspells <;> simp_all [String.toList_append]

/-! ## The texts of doubles -/

/-- The digits of a text stay within the bound up to which decimals are read exactly. -/
theorem log2_lt_of_le {n a : ℕ} (hn : n ≠ 0) (ha : a < 2 ^ (53 + 7 * 358)) (hle : n ≤ a * 10 ^ 16) :
    Nat.log2 n < 4000 := by
  have hlt : n < 2 ^ (53 + 7 * 358 + 54) :=
    calc n ≤ a * 10 ^ 16 := hle
      _ ≤ a * 2 ^ 54 := Nat.mul_le_mul_left a (by norm_num)
      _ < 2 ^ (53 + 7 * 358) * 2 ^ 54 := by gcongr
      _ = 2 ^ (53 + 7 * 358 + 54) := (pow_add 2 _ 54).symm
  have hlog := (Nat.log2_lt hn).mpr hlt
  omega

/-- A double without digits is zero, with one sign or the other. -/
theorem abs_eq_zero {x : Float} (hx : x.isFinite = true) (hm : (Binary.ofBits x.toBits).m = 0) :
    x.abs = 0.0 := by
  have hbits : (unsignedBits x.toBits).toNat = 0 := by
    rw [← bitsOf_ofBits, bitsOf_eq, hm]
    rfl
  refine toBits_inj ?_
  rw [toBits_abs hx, ← UInt64.toNat_inj, hbits]
  decide

/-- A finite double is written as a sign, if it has one, and a spelling of a decimal that is read
as its absolute value. -/
theorem numberText_spelling {x : Float} (hx : x.isFinite = true) : ∃ s : Spelling, s.Valid ∧
    (numberText x).toList = (if isNegativeBits x.toBits then ['-'] else []) ++ s.text ∧
    nearest s.dec.digits s.dec.exp = x.abs := by
  have hsign : (if isNegativeBits x.toBits then "-" else "").toList =
      if isNegativeBits x.toBits then ['-'] else [] := by
    split <;> rfl
  unfold numberText
  rw [if_neg (Bool.eq_false_iff.mp (isNaN_of_isFinite hx)),
    if_neg (Bool.eq_false_iff.mp (isInf_of_isFinite hx))]
  dsimp only
  by_cases hm : (Binary.ofBits x.toBits).m = 0
  · refine ⟨⟨['0'], some ['0'], none⟩, ⟨by simp, allDigits_zeros 1, allDigits_zeros 1,
      Or.inl (by simp)⟩, ?_, ?_⟩
    · rw [if_pos hm, String.toList_append, hsign]
      rfl
    · rw [abs_eq_zero hx hm]
      rfl
  · have hformed := wellFormed_ofBits hx
    have hrounds := Binary.rounds_shortest hm
    obtain ⟨s, hspells⟩ := spells_render (Binary.ofBits x.toBits).shortest
    rw [← hspells.value] at hrounds
    have hdigits := digits_ne_zero hformed hm hrounds
    refine ⟨s, hspells.valid, ?_, ?_⟩
    · rw [if_neg hm, String.toList_append, hsign, hspells.text]
    · have hlog := log2_lt_of_le hdigits (Binary.shortest_lt hformed) hspells.digits
      exact nearest_eq hx hm hlog hrounds

/-! ## The signs of what is read -/

theorem isNegativeBits_nearestRatio (n d : ℕ) :
    isNegativeBits (nearestRatio n d).toBits = false := by
  unfold nearestRatio
  split
  · decide
  · dsimp only
    generalize bitsOf _ _ = b
    rcases Nat.lt_or_ge b infinityBits with hlt | hge
    · have hbits : b.toUInt64.toNat = b := by
        have hinfinity : infinityBits < 2 ^ 64 := by decide
        exact UInt64.toNat_ofNat_of_lt' (hlt.trans hinfinity)
      rw [Nat.min_eq_left hlt.le, toBits_ofBits (by rw [hbits]; exact hlt), Bool.eq_false_iff,
        ne_eq, isNegativeBits_iff, hbits]
      have hinfinity : infinityBits < 2 ^ 63 := by decide
      omega
    · rw [Nat.min_eq_right hge]
      decide

theorem isNegativeBits_nearest (digits : ℕ) (exp : ℤ) :
    isNegativeBits (nearest digits exp).toBits = false := by
  unfold nearest
  split
  · decide
  · dsimp only
    split
    · decide
    · split
      · decide
      · exact isNegativeBits_nearestRatio _ _

theorem isNegativeBits_readUnsigned? {cs : List Char} {x : Float} (h : readUnsigned? cs = some x) :
    isNegativeBits x.toBits = false := by
  unfold readUnsigned? at h
  dsimp only at h
  split at h
  all_goals
    split at h
    · cases h
    · obtain ⟨e, -, rfl⟩ := Option.map_eq_some_iff.mp h
      exact isNegativeBits_nearest _ _

end EnergyGraph.Decimal
