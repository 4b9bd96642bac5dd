-- The tokens of texts put together from parts. A part is lexed on its own as long as what
-- follows it does not carry on its last token. Names and numbers that came from a text can be
-- lexed again, and so can all numbers that are written.
import EnergyGraph.Proofs.CleanRuns
import EnergyGraph.Proofs.Numerals
import Mathlib.Data.List.TakeWhile

namespace EnergyGraph

/-! ## Numbers without their sign -/

namespace Number

/-- A number whose text has a minus sign. -/
def isNegative : Number → Bool
  | .int n => decide (n < 0)
  | .float x => Decimal.isNegativeBits x.toBits

def magnitude : Number → Number
  | .int n => .int n.natAbs
  | .float x => .float x.abs

/-- A finite double, or an integer with no more digits than can be read. -/
def Printable : Number → Prop
  | .int n => n.natAbs < 10 ^ Decimal.longestInteger
  | .float x => x.isFinite = true

theorem magnitude_eq {v : Number} (h : v.Printable) (hsign : v.isNegative = false) :
    v.magnitude = v := by
  cases v with
  | int n =>
    have hpos : ¬ n < 0 := of_decide_eq_false hsign
    exact congrArg Number.int (by omega)
  | float x => exact congrArg Number.float (Decimal.abs_eq_self h hsign)

end Number

namespace Expr

open Decimal

/-! ## Numerals -/

/-- A number ends here. -/
def Ending (rest : List Char) : Prop := ∀ before, numberTail before rest = []

/-- A text of a number that is lexed as one token. -/
structure Numeral (cs : List Char) (value : Number) : Prop where
  head : ∃ c tail, cs = c :: tail ∧ c.isDigit = true
  chunk : ∀ rest before, Ending rest → numberTail before (cs ++ rest) = cs
  value : ∀ span, numberValue cs span = .ok value

theorem isAlphanumeric_digit {c : Char} (h : c.isDigit = true) : Text.isAlphanumeric c = true := by
  have hbounds := toNat_bounds h
  unfold Text.isAlphanumeric
  rw [if_pos (by omega)]
  unfold Char.isAlphanum
  rw [h, Bool.or_true]

theorem numberTail_digit {c : Char} (h : c.isDigit = true) (before : Char) (cs : List Char) :
    numberTail before (c :: cs) = c :: numberTail c cs := by
  rw [numberTail, isAlphanumeric_digit h]
  rfl

theorem numberTail_digits {ds cs tail : List Char} (hds : AllDigits ds)
    (h : ∀ before, numberTail before cs = tail) (before : Char) :
    numberTail before (ds ++ cs) = ds ++ tail := by
  induction ds generalizing before with
  | nil => exact h before
  | cons c ds ih =>
    obtain ⟨hc, hds⟩ := List.forall_mem_cons.mp hds
    rw [List.cons_append, numberTail_digit hc, ih hds, List.cons_append]

theorem numberTail_power {rest : List Char} (hrest : Ending rest) (e? : Option ℤ) (before : Char) :
    numberTail before (Spelling.power e? ++ rest) = Spelling.power e? := by
  cases e? with
  | none => exact hrest before
  | some e =>
    obtain ⟨ds, hds, -, -, htext⟩ := exponent_toList e
    have htail := numberTail_digits hds hrest (if e < 0 then '-' else '+')
    rw [List.append_nil] at htail
    change numberTail before ((resultLayout.exponent e).toList ++ rest) = _
    unfold Spelling.power
    dsimp only
    rw [htext, List.cons_append, List.cons_append, numberTail, if_pos (by decide), numberTail,
      htail]
    split <;> rfl

theorem numberTail_point {cs tail : List Char} {fraction : Option (List Char)}
    (hfraction : AllDigits (fraction.getD [])) (h : ∀ before, numberTail before cs = tail)
    (before : Char) :
    numberTail before (Spelling.point fraction ++ cs) = Spelling.point fraction ++ tail := by
  cases fraction with
  | none => exact h before
  | some fs =>
    change numberTail before ('.' :: (fs ++ cs)) = '.' :: (fs ++ tail)
    have hdigits : AllDigits fs := hfraction
    rw [numberTail, if_pos (by decide), numberTail_digits hdigits h]

/-- What a decimal is spelled with is a numeral of the double that it is read as. -/
theorem numeral_spelling {s : Spelling} (h : s.Valid) {x : Float}
    (hx : nearest s.dec.digits s.dec.exp = x) (hfinite : x.isFinite = true) :
    Numeral s.text (.float x) := by
  refine ⟨?_, ?_, ?_⟩
  · obtain ⟨c, tail, hwhole⟩ := List.exists_cons_of_ne_nil h.nonempty
    refine ⟨c, tail ++ (Spelling.point s.fraction ++ Spelling.power s.exponent), ?_, ?_⟩
    · unfold Spelling.text
      rw [hwhole, List.cons_append]
    · exact h.whole c (by rw [hwhole]; exact List.mem_cons_self)
  · intro rest before hrest
    have hpoint := numberTail_point h.fraction (numberTail_power hrest s.exponent)
    unfold Spelling.text
    rw [List.append_assoc, List.append_assoc]
    exact numberTail_digits h.whole hpoint before
  · intro span
    unfold numberValue
    dsimp only
    rw [if_neg fun hrun => Spelling.takeDigits_text h hrun.2, Spelling.readUnsigned?_text h, hx]
    exact if_pos hfinite

theorem numeral_toDigits {n : ℕ} (h : n < 10 ^ longestInteger) :
    Numeral (Nat.toDigits 10 n) (.int n) := by
  have hds := allDigits_toDigits n
  have hne : Nat.toDigits 10 n ≠ [] := Nat.toDigits_ne_nil
  refine ⟨?_, ?_, ?_⟩
  · obtain ⟨c, tail, hcons⟩ := List.exists_cons_of_ne_nil hne
    exact ⟨c, tail, hcons, hds c (by rw [hcons]; exact List.mem_cons_self)⟩
  · intro rest before hrest
    rw [numberTail_digits hds hrest, List.append_nil]
  · intro span
    have hrun := takeDigits_append hds stops_nil
    rw [List.append_nil, Nat.ofDigitChars_ten_toDigits] at hrun
    have hlength : (Nat.toDigits 10 n).length ≤ longestInteger :=
      (Nat.length_toDigits_le_iff (by decide) (by decide)).mpr h
    unfold numberValue
    dsimp only
    rw [hrun, if_pos ⟨by simp, rfl⟩]
    exact if_neg (not_lt.mpr hlength)

/-- A number is written as a minus sign, if it is negative, and a numeral of its magnitude. -/
theorem numeral_text {v : Number} (h : v.Printable) : ∃ cs,
    v.text.toList = (if v.isNegative then ['-'] else []) ++ cs ∧ Numeral cs v.magnitude := by
  cases v with
  | int n =>
    refine ⟨Nat.toDigits 10 n.natAbs, ?_, numeral_toDigits h⟩
    unfold Number.text Number.isNegative
    simp only [toList_toString, decide_eq_true_eq]
  | float x =>
    obtain ⟨s, hvalid, htext, hnearest⟩ := numberText_spelling h
    exact ⟨s.text, htext, numeral_spelling hvalid hnearest (isFinite_abs h)⟩

/-! ## Names -/

/-- A text that is lexed as a name. -/
structure IsName (name : String) : Prop where
  head : ∃ c tail, name.toList = c :: tail ∧ Text.isBlank c = false ∧ Text.isDigit c = false ∧
    isNameStart c = true
  tail : ∀ c ∈ name.toList.tail, isNameChar c = true

/-- A name ends here. -/
def NameEnds (rest : List Char) : Prop := ∀ c after, rest = c :: after → isNameChar c = false

theorem takeWhile_name {cs rest : List Char} (hcs : ∀ c ∈ cs, isNameChar c = true)
    (hrest : NameEnds rest) : (cs ++ rest).takeWhile isNameChar = cs := by
  rw [List.takeWhile_append_of_pos hcs]
  cases rest with
  | nil => simp
  | cons c after => simp [hrest c after rfl]

/-! ## Lexing the front of a text -/

/-- The front of a text is lexed on its own. -/
def Lexes (start : ℕ) (cs rest : List Char) (ts : List Token) : Prop :=
  tokensFrom start (cs ++ rest) = (tokensFrom (start + cs.length) rest).map (ts ++ ·)

section

variable {start : ℕ} {cs ds rest : List Char} {ts us : List Token}

theorem Lexes.append (h : Lexes start cs (ds ++ rest) ts)
    (h' : Lexes (start + cs.length) ds rest us) : Lexes start (cs ++ ds) rest (ts ++ us) := by
  unfold Lexes at *
  rw [List.append_assoc, h, h', List.length_append, ← Nat.add_assoc]
  cases tokensFrom (start + cs.length + ds.length) rest with
  | error u => rfl
  | ok tail => exact congrArg Except.ok (List.append_assoc ts us tail).symm

theorem lexes_of_isBlank {c : Char} (h : Text.isBlank c = true) : Lexes start [c] rest [] := by
  unfold Lexes
  rw [List.singleton_append, tokensFrom, if_pos h]
  change _ = (tokensFrom (start + 1) rest).map _
  cases tokensFrom (start + 1) rest <;> rfl

theorem lexes_blank : Lexes start [' '] rest [] := lexes_of_isBlank (by decide)

theorem lexes_mark {c : Char} {kind : Token.Kind} (h : mark? c = some kind) :
    Lexes start [c] rest [⟨kind, String.singleton c, start, start + 1⟩] := by
  have hblank : Text.isBlank c = false ∧ Text.isDigit c = false ∧ (c == '.') = false ∧
      isNameStart c = false := by
    unfold mark? at h
    split at h <;> first | decide | cases h
  obtain ⟨hblank, hdigit, hpoint, hname⟩ := hblank
  have hnumber : startsNumber c rest = false := by
    unfold startsNumber
    rw [hdigit, hpoint]
    rfl
  unfold Lexes
  rw [List.singleton_append, tokensFrom, if_neg (by simp [hblank]), if_neg (by simp [hnumber]),
    if_neg (by simp [hname])]
  simp only [h]
  change _ = (tokensFrom (start + 1) rest).map _
  cases tokensFrom (start + 1) rest <;> rfl

theorem lexes_numeral {value : Number} (h : Numeral cs value) (hrest : Ending rest) :
    Lexes start cs rest [⟨.number value, String.ofList cs, start, start + cs.length⟩] := by
  obtain ⟨c, tail, rfl, hc⟩ := h.head
  have htail : numberTail c (tail ++ rest) = tail := by
    have hchunk := h.chunk rest c hrest
    rw [List.cons_append, numberTail_digit hc] at hchunk
    exact (List.cons.inj hchunk).2
  have hnumber : startsNumber c (tail ++ rest) = true := by
    unfold startsNumber Text.isDigit
    rw [Text.isDecimal_of_isDigit c hc]
    rfl
  unfold Lexes
  rw [List.cons_append, tokensFrom, if_neg (by simp [isBlank_digit hc]), if_pos hnumber]
  simp only [htail, h.value, List.drop_left, List.length_cons, ← Nat.add_assoc,
    Nat.add_right_comm start 1]
  cases tokensFrom (start + tail.length + 1) rest <;> rfl

theorem lexes_name {name : String} (h : IsName name) (hrest : NameEnds rest) :
    Lexes start name.toList rest [⟨.name, name, start, start + name.toList.length⟩] := by
  obtain ⟨⟨c, tail, hname, hblank, hdigit, hstart⟩, htail⟩ := h
  rw [hname] at htail
  have htake : (tail ++ rest).takeWhile isNameChar = tail := takeWhile_name htail hrest
  have hpoint : (c == '.') = false := by
    rw [beq_eq_false_iff_ne]
    rintro rfl
    revert hstart
    decide
  have hnumber : startsNumber c (tail ++ rest) = false := by
    unfold startsNumber
    rw [hdigit, hpoint]
    rfl
  unfold Lexes
  rw [hname, List.cons_append, tokensFrom, if_neg (by simp [hblank]), if_neg (by simp [hnumber]),
    if_pos hstart]
  have htext : String.ofList (c :: tail) = name := by rw [← hname, String.ofList_toList]
  simp only [htake, List.drop_left, List.length_cons, htext, ← Nat.add_assoc,
    Nat.add_right_comm start 1]
  cases tokensFrom (start + tail.length + 1) rest <;> rfl

end

/-! ## The tokens of a text -/

/-- A token that can be lexed again. -/
def Token.Legible (t : Token) : Prop :=
  match t.kind with
  | .name => IsName t.text
  | .number v => v.Printable ∧ v.isNegative = false
  | _ => True

theorem numberValue_legible {cs : List Char} {span : Span} {v : Number}
    (h : numberValue cs span = .ok v) : v.Printable ∧ v.isNegative = false := by
  unfold numberValue at h
  dsimp only at h
  split at h
  · split at h
    · cases h
    · rename_i hcount
      cases h
      have hlt : (takeDigits cs).value < 10 ^ (takeDigits cs).count :=
        go_value_lt cs (by norm_num)
      have hpos : ¬ ((takeDigits cs).value : ℤ) < 0 := by omega
      refine ⟨lt_of_lt_of_le hlt ?_, decide_eq_false hpos⟩
      exact Nat.pow_le_pow_right (by norm_num) (not_lt.mp hcount)
  · split at h
    · cases h
    · rename_i x hx
      split at h
      · rename_i hfinite
        cases h
        exact ⟨hfinite, isNegativeBits_readUnsigned? hx⟩
      · cases h

theorem isName_scanned {c : Char} {rest : List Char} (hblank : ¬ Text.isBlank c = true)
    (hnumber : ¬ startsNumber c rest = true) (hstart : isNameStart c = true) :
    IsName (String.ofList (c :: rest.takeWhile isNameChar)) := by
  have hdigit : Text.isDigit c = false := by
    unfold startsNumber at hnumber
    rw [Bool.or_eq_true, not_or] at hnumber
    exact Bool.eq_false_iff.mpr hnumber.1
  refine ⟨⟨c, _, String.toList_ofList, Bool.eq_false_iff.mpr hblank, hdigit, hstart⟩, ?_⟩
  rw [String.toList_ofList]
  intro d hd
  exact (List.mem_takeWhile_imp hd)

theorem legible_mark {c : Char} {kind : Token.Kind} (h : mark? c = some kind) {text : String}
    {start stop : ℕ} : Token.Legible ⟨kind, text, start, stop⟩ := by
  unfold mark? at h
  split at h <;> cases h <;> trivial

/-- The tokens of a text can be lexed again. -/
theorem legible_tokensFrom {start : ℕ} {cs : List Char} {ts : List Token}
    (h : tokensFrom start cs = .ok ts) : ∀ t ∈ ts, t.Legible := by
  fun_induction tokensFrom start cs generalizing ts with
  | case1 =>
    cases h
    simp
  | case2 _ _ _ _ ih => exact ih h
  | case3 start c rest _ _ tail stop =>
    rename_i ih
    obtain ⟨v, hvalue, h⟩ := bind_eq_ok.mp h
    obtain ⟨after, hafter, h⟩ := bind_eq_ok.mp h
    cases h
    exact List.forall_mem_cons.mpr ⟨numberValue_legible hvalue, ih hafter⟩
  | case4 start c rest hblank hnumber hname tail stop =>
    rename_i ih
    obtain ⟨after, hafter, h⟩ := bind_eq_ok.mp h
    cases h
    exact List.forall_mem_cons.mpr ⟨isName_scanned hblank hnumber hname, ih hafter⟩
  | case5 start c rest _ _ _ kind hmark ih =>
    obtain ⟨after, hafter, h⟩ := bind_eq_ok.mp h
    cases h
    exact List.forall_mem_cons.mpr ⟨legible_mark hmark, ih hafter⟩
  | case6 => cases h
end Expr

end EnergyGraph
