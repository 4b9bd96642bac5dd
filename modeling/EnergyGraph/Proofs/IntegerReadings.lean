-- Integers written in different ways. A number stands for itself. A text, be it a numeral or the
-- name of a parameter, is evaluated as an expression, so that the integer goes through its double
-- and comes back only if it is that double. A name is first looked up among the words for the
-- infinities, and the line end that may follow it is no part of it where it is read.
import EnergyGraph.Parameters
import EnergyGraph.Proofs.ConstantRefusals
import EnergyGraph.Proofs.IntegerDoubles
import EnergyGraph.Proofs.IntegerTables
import EnergyGraph.Proofs.RoundTrip

namespace EnergyGraph

/-! ## Identifiers -/

namespace Text

theorem forall_ascii {P : Char → Prop} (h : ∀ n : Fin 128, P (Char.ofNat n)) {c : Char}
    (hc : c.toNat < 128) : P c := by
  have hP := h ⟨c.toNat, hc⟩
  rwa [Char.ofNat_toNat] at hP

theorem toNat_le_of_le {c d : Char} (h : c ≤ d) : c.toNat ≤ d.toNat := UInt32.le_iff_toNat_le.mp h

/-- There are no capitals before the letters. -/
theorem smallLetter_eq {c : Char} (h : c.toNat < 65) : smallLetter c = c := by
  have hlt : c.toNat < 128 := h.trans (by decide)
  revert h
  apply forall_ascii (P := fun c => c.toNat < 65 → smallLetter c = c) ?_ hlt
  decide

theorem toNat_lt_of_identifier {c : Char}
    (h : (isLetterAscii c || isDigitAscii c || c == '_') = true) : c.toNat < 128 := by
  simp only [isLetterAscii, isSmallAscii, isCapitalAscii, isDigitAscii, Bool.or_eq_true,
    Bool.and_eq_true, decide_eq_true_eq, beq_iff_eq] at h
  rcases h with ((⟨-, h⟩ | ⟨-, h⟩) | ⟨-, h⟩) | rfl
  · exact (toNat_le_of_le h).trans_lt (by decide)
  · exact (toNat_le_of_le h).trans_lt (by decide)
  · exact (toNat_le_of_le h).trans_lt (by decide)
  · decide

/-- The characters of an identifier are those of a name, and none of them ends a line. -/
theorem isNameChar_of_identifier {c : Char}
    (h : (isLetterAscii c || isDigitAscii c || c == '_') = true) :
    Expr.isNameChar c = true ∧ c ≠ '\n' := by
  have hlt := toNat_lt_of_identifier h
  revert h
  apply forall_ascii (P := fun c => (isLetterAscii c || isDigitAscii c || c == '_') = true →
    Expr.isNameChar c = true ∧ c ≠ '\n') ?_ hlt
  decide

/-- The first of them begins a name, and is neither a blank nor a digit. -/
theorem isNameStart_of_identifier {c : Char} (h : (isLetterAscii c || c == '_') = true) :
    isBlank c = false ∧ isDigit c = false ∧ Expr.isNameStart c = true ∧ c ≠ '\n' := by
  have hlt : c.toNat < 128 := by
    apply toNat_lt_of_identifier
    rw [Bool.or_right_comm, h, Bool.true_or]
  revert h
  apply forall_ascii (P := fun c => (isLetterAscii c || c == '_') = true →
    isBlank c = false ∧ isDigit c = false ∧ Expr.isNameStart c = true ∧ c ≠ '\n') ?_ hlt
  decide

theorem isEnd_iff {cs : List Char} : isEnd cs = true ↔ cs = [] ∨ cs = ['\n'] := by
  unfold isEnd
  rw [Bool.or_eq_true, beq_iff_eq, beq_iff_eq]

/-- A name without the line end that may follow it. -/
def bareName (p : String) : String := String.ofList (p.toList.takeWhile (· != '\n'))

theorem toList_bareName (p : String) : (bareName p).toList = p.toList.takeWhile (· != '\n') :=
  String.toList_ofList

/-- An identifier is a name as expressions have them, and perhaps a line end. -/
theorem exists_of_isIdentifier {p : String} (h : isIdentifier p = true) :
    Expr.IsName (bareName p) ∧
      ∃ after, p.toList = (bareName p).toList ++ after ∧ (after = [] ∨ after = ['\n']) := by
  unfold isIdentifier hasForm at h
  split at h
  · cases h
  rename_i c rest hp
  obtain ⟨hfirst, hend⟩ := Bool.and_eq_true_iff.mp h
  obtain ⟨hblank, hdigit, hstart, hne⟩ := isNameStart_of_identifier hfirst
  obtain ⟨word, after, rfl, hword, hafter⟩ : ∃ word after, rest = word ++ after ∧
      (∀ d ∈ word, Expr.isNameChar d = true ∧ d ≠ '\n') ∧ (after = [] ∨ after = ['\n']) := by
    refine ⟨_, _, List.takeWhile_append_dropWhile.symm, ?_, isEnd_iff.mp hend⟩
    intro d hd
    have hkind := List.mem_takeWhile_imp hd
    exact isNameChar_of_identifier hkind
  have hbare : (bareName p).toList = c :: word := by
    have hline : after.takeWhile (· != '\n') = [] := by
      rcases hafter with rfl | rfl <;> rfl
    have hrest : (word ++ after).takeWhile (· != '\n') = word := by
      rw [List.takeWhile_append_of_pos fun d hd => by simpa using (hword d hd).2, hline,
        List.append_nil]
    rw [toList_bareName, hp, List.takeWhile_cons_of_pos (by simpa using hne), hrest]
  refine ⟨⟨⟨c, word, hbare, hblank, hdigit, hstart⟩, ?_⟩, after, by rw [hbare, hp]; rfl, hafter⟩
  intro d hd
  rw [hbare] at hd
  exact (hword d hd).1

end Text

namespace Expr

/-- A line end after a name is a blank: the token is that of the name alone. -/
theorem lexes_name_line (start : ℕ) {rest after : List Char} {name : String}
    (h : IsName name) (hafter : after = [] ∨ after = ['\n']) (hrest : NameEnds rest) :
    ∃ t, t.kind = .name ∧ t.text = name ∧ Lexes start (name.toList ++ after) rest [t] := by
  refine ⟨⟨.name, name, start, start + name.toList.length⟩, rfl, rfl, ?_⟩
  rcases hafter with rfl | rfl
  · rw [List.append_nil]
    exact lexes_name h hrest
  · have hline : Text.isBlank '\n' = true := by decide
    have hends : NameEnds ('\n' :: rest) := nameEnds_cons (by decide)
    exact (lexes_name h hends).append (lexes_of_isBlank hline)

/-- An identifier is read as its name. -/
theorem parse_identifier {p : String} (h : Text.isIdentifier p = true) :
    ∃ span, parse p = .ok (.ref (Text.bareName p) [] span) := by
  obtain ⟨hname, after, hp, hafter⟩ := Text.exists_of_isIdentifier h
  have hends : NameEnds [] := nofun
  obtain ⟨t, hkind, htext, hlexes⟩ := lexes_name_line 0 hname hafter hends
  rw [← hp] at hlexes
  have hderives : Derives .sum [t] (.ref t.text [] ⟨t.start, t.stop⟩) :=
    Derives.sum_of_signed (.operand (.name hkind))
  refine ⟨⟨t.start, t.stop⟩, ?_⟩
  rw [parse_of_lexes hlexes, ofTokens_eq_ok.mpr hderives, htext]
  rfl

/-! ## Numerals -/

theorem text_integer (n : ℤ) (span : Span) : (literal (.int n) span).text = toString n := rfl

theorem eq_literal_of_bare {e : Expr} {value : Number}
    (h : e.bare = .literal value ⟨0, 0⟩) : ∃ span, e = .literal value span := by
  cases e with
  | literal v span =>
    cases h
    exact ⟨span, rfl⟩
  | _ => simp at h

theorem eq_negate_of_bare {e : Expr} {value : Number}
    (h : e.bare = .negate (.literal value ⟨0, 0⟩) ⟨0, 0⟩) :
    ∃ span outer, e = .negate (.literal value span) outer := by
  cases e with
  | negate operand outer =>
    rw [bare, negate.injEq] at h
    obtain ⟨span, rfl⟩ := eq_literal_of_bare h.1
    exact ⟨span, outer, rfl⟩
  | _ => simp at h

/-- An integer is read as a literal of its magnitude, and as a negation of that below zero. -/
theorem parse_integer {n : ℤ} (h : n.natAbs < 10 ^ Decimal.longestInteger) :
    (0 ≤ n ∧ ∃ span, parse (toString n) = .ok (.literal (.int n) span)) ∨
      (n < 0 ∧ ∃ span outer, parse (toString n) =
        .ok (.negate (.literal (.int n.natAbs) span) outer)) := by
  have hrereads : Rereads (.literal (.int n) ⟨0, 0⟩) := rereads_literal h
  obtain ⟨e, hparse, hbare⟩ := hrereads.parse
  rw [text_integer] at hparse
  rw [explicit] at hbare
  rcases Int.lt_or_le n 0 with hneg | hpos
  · have hsign : (Number.int n).isNegative = true := decide_eq_true hneg
    rw [if_pos hsign] at hbare
    obtain ⟨span, outer, rfl⟩ := eq_negate_of_bare hbare
    exact Or.inr ⟨hneg, span, outer, hparse⟩
  · have hsign : ¬ (Number.int n).isNegative = true := by simp [Number.isNegative, hpos]
    rw [if_neg hsign] at hbare
    obtain ⟨span, rfl⟩ := eq_literal_of_bare hbare
    exact Or.inl ⟨hpos, span, hparse⟩

/-- Digits that are too many for a number are no token. -/
theorem tokensFrom_long {n : ℕ} (h : 10 ^ Decimal.longestInteger ≤ n) (start : ℕ) :
    tokensFrom start (Nat.toDigits 10 n) = .error .longInteger := by
  have hds := Decimal.allDigits_toDigits n
  have hrun := Decimal.takeDigits_append hds Decimal.stops_nil
  have hlong : Decimal.longestInteger < (Nat.toDigits 10 n).length := by
    rw [← not_le, Nat.length_toDigits_le_iff (by decide) (by decide), not_lt]
    exact h
  have hvalue (span : Span) : numberValue (Nat.toDigits 10 n) span = .error .longInteger := by
    rw [List.append_nil] at hrun
    unfold numberValue
    dsimp only
    rw [hrun, if_pos ⟨by simp, rfl⟩]
    exact if_pos hlong
  have htail : ∀ before, numberTail before (Nat.toDigits 10 n) = Nat.toDigits 10 n := by
    intro before
    have hchunk : numberTail before (Nat.toDigits 10 n ++ []) = Nat.toDigits 10 n ++ [] :=
      numberTail_digits hds (fun _ => rfl) before
    rwa [List.append_nil] at hchunk
  obtain ⟨c, tail, hcons, hc⟩ := Decimal.exists_toDigits n
  rw [hcons] at hvalue htail ⊢
  have hrest : numberTail c tail = tail := by
    have hchunk := htail c
    rw [numberTail_digit hc] at hchunk
    exact (List.cons.inj hchunk).2
  have hnumber : startsNumber c tail = true := by
    unfold startsNumber Text.isDigit
    rw [Text.isDecimal_of_isDigit c hc]
    rfl
  rw [tokensFrom, if_neg (by simp [Decimal.isBlank_digit hc]), if_pos hnumber]
  simp only [hrest, hvalue]
  rfl

theorem hasLongInteger_integer {n : ℤ} (h : 10 ^ Decimal.longestInteger ≤ n.natAbs) :
    (Value.text (toString n)).HasLongInteger := by
  refine ⟨_, rfl, ?_⟩
  rw [Decimal.toList_toString]
  split
  · have hmark : Lexes 0 ['-'] (Nat.toDigits 10 n.natAbs) _ := lexes_mark rfl
    unfold Lexes at hmark
    rw [hmark, tokensFrom_long h]
    rfl
  · exact tokensFrom_long h 0

end Expr

/-! ## Texts that stand for an integer -/

namespace Constant

open Decimal (ofInt? limit Short longestInteger)

/-- What an expression makes of an integer: the integer goes through its double. -/
def throughDouble (n : ℤ) : Except Failure ℤ :=
  match ofInt? n with
  | some x => .ok (truncated x)
  | none => Failure.refuse .tooLarge

/-- An integer that is a double. -/
def IsDouble (n : ℤ) : Prop := n.natAbs < limit ∧ Short n.natAbs

theorem throughDouble_eq_ok {n : ℤ} : throughDouble n = .ok n ↔ IsDouble n := by
  unfold IsDouble
  rw [← not_le, ← Decimal.ofInt?_eq_none_iff]
  unfold throughDouble
  cases hdouble : ofInt? n with
  | none => simp [Failure.refuse]
  | some x => simp [Decimal.truncated_of_ofInt? hdouble]

/-! ### Words for the infinities -/

theorem lowerFrom_eq {before cs : List Char} (h : ∀ c ∈ cs, c.toNat < 65) :
    Text.lowerFrom before cs = cs := by
  induction cs generalizing before with
  | nil => rfl
  | cons c rest ih =>
    obtain ⟨hc, hrest⟩ := List.forall_mem_cons.mp h
    have hsmall : Text.smallLetter c = c := Text.smallLetter_eq hc
    unfold Text.lowerFrom
    rw [if_neg (by simp; omega), if_neg (by simp; omega), hsmall, ih hrest]
    rfl

/-- All words for the infinities have this letter. -/
theorem infinity?_eq_none {source : String} (h : 'f' ∉ (Text.lower (Text.trim source)).toList) :
    infinity? source = none := by
  unfold infinity?
  rw [lookup_eq_none_iff]
  intro hmem
  apply h
  revert hmem
  generalize Text.lower (Text.trim source) = word
  simp only [List.map_cons, List.map_nil, List.mem_cons, List.not_mem_nil, or_false]
  rintro (rfl | rfl | rfl | rfl | rfl) <;> decide

theorem infinity?_integer (n : ℤ) : infinity? (toString n) = none := by
  have hchars : ∀ c ∈ (toString n).toList, c.toNat < 65 := by
    intro c hc
    rcases Decimal.mem_toString hc with rfl | hdigit
    · decide
    · have := (Decimal.toNat_bounds hdigit).2
      omega
  apply infinity?_eq_none
  rw [Csv.trim_toString, Text.lower, lowerFrom_eq hchars, String.toList_ofList]
  intro hmem
  exact absurd (hchars _ hmem) (by decide)

theorem not_isFinite_of_infinity? {source : String} {x : Float} (h : infinity? source = some x) :
    x.isFinite = false := by
  have hmem := mem_of_lookup h
  simp only [List.mem_cons, List.not_mem_nil, or_false, Prod.mk.injEq] at hmem
  rcases hmem with ⟨-, rfl⟩ | ⟨-, rfl⟩ | ⟨-, rfl⟩ | ⟨-, rfl⟩ | ⟨-, rfl⟩ <;> decide

/-! ### Evaluation -/

variable {parameters : Numbers} {path : List String} {what : String}

theorem integer_of_ofInt? {n : ℤ} {x : Float} (h : ofInt? n = some x) :
    integer (.float x) parameters path what = .ok (truncated x) := by
  unfold integer number
  rw [ok_bind]
  dsimp only
  rw [Decimal.isFinite_of_ofInt? h, Decimal.isIntegral_of_ofInt? h]
  rfl

/-- A word for an infinity is no integer. -/
theorem integer_of_infinity? {source : String} {x : Float} (h : infinity? source = some x) :
    integer (.text source) parameters path what = fail (.notFinite what x) path := by
  unfold integer number
  dsimp only
  rw [h, ok_bind]
  dsimp only
  rw [not_isFinite_of_infinity? h]
  rfl

/-- A text is evaluated, and its value is taken as a double. -/
theorem integer_text {source : String} (h : infinity? source = none) :
    integer (.text source) parameters path what = ofText source parameters path what >>= fun x =>
      integer (.float x) parameters path what := by
  unfold integer number
  dsimp only
  rw [h]
  cases ofText source parameters path what <;> rfl

section

variable {source : String} {e : Expr} (hword : infinity? source = none)
  (hparse : Expr.parse source = .ok e) (hsymbols : Formula.symbolsOf e = [])

include hparse hsymbols

theorem ofValue_eq_formula :
    Formula.ofValue (.text source) (.count 0) = .ok ⟨source, e, .count 0⟩ := by
  unfold Formula.ofValue Formula.ofText
  dsimp only
  rw [if_neg (by decide), hparse, ok_bind]
  simp [hsymbols, Except.mapError]

include hword

/-- A text whose names are all replaced stands for the value of what it becomes. -/
theorem integer_of_value {x? : Option Float}
    (hconstant : (e.replace parameters e.reductionSymbols).isConstant = true)
    (hvalue : (e.replace parameters e.reductionSymbols).evaluateScalar ([] : Arrays Float) 0 =
      x?.elim (.error (.refusal .tooLarge)) .ok) :
    integer (.text source) parameters path what =
      x?.elim (Failure.refuse .tooLarge) fun x => integer (.float x) parameters path what := by
  have hbody : ((⟨source, e, .count 0⟩ : Formula).substitute parameters []).body =
      e.replace parameters e.reductionSymbols := rfl
  rw [integer_text hword, ofText, ofValue_eq_formula hparse hsymbols]
  dsimp only [Except.mapError]
  rw [ok_bind, hbody, hconstant, hvalue]
  cases x? <;> rfl

/-- A text that names something else than numbers is refused. -/
theorem integer_of_names (hconstant : (e.replace parameters e.reductionSymbols).isConstant = false) :
    integer (.text source) parameters path what =
      fail (.unknownNames what source ((e.replace parameters e.reductionSymbols).names.filter
        fun name => !(parameters.lookup name).isSome)) path := by
  have hbody : ((⟨source, e, .count 0⟩ : Formula).substitute parameters []).body =
      e.replace parameters e.reductionSymbols := rfl
  rw [integer_text hword, ofText, ofValue_eq_formula hparse hsymbols]
  dsimp only [Except.mapError]
  rw [ok_bind, hbody, hconstant]
  rfl

end

/-! ### Numerals and names -/

theorem symbolsOf_literal (value : Number) (span : Span) :
    Formula.symbolsOf (.literal value span) = [] := by
  simp [Formula.symbolsOf, Expr.indexSymbols, Expr.reductionSymbols, Expr.walk_literal, Expr.firsts]

theorem symbolsOf_negate (operand : Expr) (span : Span) :
    Formula.symbolsOf (.negate operand span) = Formula.symbolsOf operand := by
  simp [Formula.symbolsOf, Expr.indexSymbols, Expr.reductionSymbols, Expr.walk_negate]

theorem symbolsOf_name (name : String) (span : Span) :
    Formula.symbolsOf (.ref name [] span) = [] := by
  simp [Formula.symbolsOf, Expr.indexSymbols, Expr.reductionSymbols, Expr.walk_ref, Expr.firsts]

theorem replace_name (values : Numbers) (name : String) (span : Span) :
    (Expr.ref name [] span).replace values (Expr.ref name [] span).reductionSymbols =
      ((values.lookup name).map fun value => Expr.literal value span).getD (.ref name [] span) := by
  have hkept : (Expr.ref name [] span).reductionSymbols = [] := by
    simp [Expr.reductionSymbols, Expr.walk_ref, Expr.firsts]
  rw [hkept, Expr.replace, Expr.replacement?, if_neg List.not_mem_nil]
  cases values.lookup name <;> rfl

theorem evaluateScalar_literal (value : Number) (span : Span) :
    (Expr.literal value span).evaluateScalar ([] : Arrays Float) 0 =
      (Scalar.ofNumber? value).elim (.error (.refusal .tooLarge)) .ok := by
  change (Expr.literal value span).valueAt surroundings [] = _
  rw [Expr.valueAt_literal]
  cases (Scalar.ofNumber? value : Option Float) <;> rfl

theorem evaluateScalar_negated {n : ℤ} (h : n < 0) (span outer : Span) :
    (Expr.negate (.literal (.int n.natAbs) span) outer).evaluateScalar ([] : Arrays Float) 0 =
      (ofInt? n).elim (.error (.refusal .tooLarge)) .ok := by
  have hliteral := evaluateScalar_literal (.int n.natAbs) span
  change (Expr.literal _ span).valueAt surroundings [] = (ofInt? n.natAbs).elim _ _ at hliteral
  change (Expr.negate _ outer).valueAt surroundings [] = _
  rw [Expr.valueAt_negate, hliteral, Decimal.ofInt?_of_neg h]
  cases ofInt? n.natAbs <;> rfl

theorem elim_ofInt? (n : ℤ) : (ofInt? n).elim (Failure.refuse .tooLarge) (fun x =>
    integer (.float x) parameters path what) = throughDouble n := by
  unfold throughDouble
  cases hdouble : ofInt? n with
  | none => rfl
  | some x => exact integer_of_ofInt? hdouble

/-- The decimal text of an integer is read through its double, unless it has too many digits. -/
theorem integer_toString (n : ℤ) : integer (.text (toString n)) parameters path what =
    if n.natAbs < 10 ^ longestInteger then throughDouble n else Failure.refuse .badValue := by
  have hword := infinity?_integer n
  split
  · rename_i hdigits
    have hread : (ofInt? n).elim _ (fun x => integer (.float x) parameters path what) = _ :=
      elim_ofInt? n
    rw [← hread]
    rcases Expr.parse_integer hdigits with ⟨-, span, hparse⟩ | ⟨hneg, span, outer, hparse⟩
    · apply integer_of_value hword hparse (symbolsOf_literal _ _)
      · rw [Expr.replace, Expr.isConstant, Expr.walk_literal]
        rfl
      · rw [Expr.replace]
        exact evaluateScalar_literal _ _
    · apply integer_of_value hword hparse (by rw [symbolsOf_negate, symbolsOf_literal])
      · rw [Expr.replace, Expr.replace, Expr.isConstant, Expr.walk_negate, Expr.walk_literal]
        rfl
      · rw [Expr.replace, Expr.replace]
        exact evaluateScalar_negated hneg span outer
  · rename_i hdigits
    have harity : (Arity.count 0).IsNatural := by
      rintro _ ⟨⟩
      exact le_rfl
    have hrefused := (Formula.ofValue_eq_refused harity).mpr
      ⟨Expr.hasLongInteger_integer (not_lt.mp hdigits), rfl⟩
    rw [integer_text hword, ofText, hrefused]
    rfl

/-- The name of a parameter is read as the number of that parameter would be. -/
theorem integer_identifier {p : String} (hname : Text.isIdentifier p = true)
    (hword : infinity? p = none) : integer (.text p) parameters path what =
      match parameters.lookup (Text.bareName p) with
      | some (.int n) => throughDouble n
      | some (.float x) => integer (.float x) parameters path what
      | none => fail (.unknownNames what p [Text.bareName p]) path := by
  obtain ⟨span, hparse⟩ := Expr.parse_identifier hname
  have hsymbols := symbolsOf_name (Text.bareName p) span
  have hreplaced := replace_name parameters (Text.bareName p) span
  rcases hlookup : parameters.lookup (Text.bareName p) with _ | value
  · have hkept : (Expr.ref (Text.bareName p) [] span).replace parameters
        (Expr.ref (Text.bareName p) [] span).reductionSymbols = .ref (Text.bareName p) [] span := by
      rw [hreplaced, hlookup]
      rfl
    have hnames : (Expr.ref (Text.bareName p) [] span).names = [Text.bareName p] := by
      simp [Expr.names, Expr.walk_ref, Expr.firsts, Expr.insertLast]
    rw [integer_of_names hword hparse hsymbols, hkept, hnames]
    · simp [hlookup]
    · rw [hkept, Expr.isConstant, Expr.walk_ref]
      rfl
  · have hnumber : (Expr.ref (Text.bareName p) [] span).replace parameters
        (Expr.ref (Text.bareName p) [] span).reductionSymbols = .literal value span := by
      rw [hreplaced, hlookup]
      rfl
    have hconstant : ((Expr.ref (Text.bareName p) [] span).replace parameters
        (Expr.ref (Text.bareName p) [] span).reductionSymbols).isConstant = true := by
      rw [hnumber, Expr.isConstant, Expr.walk_literal]
      rfl
    have hvalue := evaluateScalar_literal value span
    rw [← hnumber] at hvalue
    rw [integer_of_value hword hparse hsymbols hconstant hvalue]
    cases value with
    | int n => exact elim_ofInt? n
    | float x => rfl

theorem lookup_numbersOf {values : Object} {name : String} {v : Value} {number : Number}
    (h : values.lookup name = some v) (hv : v.number? = some number) :
    (ResolvedParameters.numbersOf values).lookup name = some number := by
  unfold ResolvedParameters.numbersOf
  induction values with
  | nil => cases h
  | cons entry rest ih =>
    obtain ⟨key, w⟩ := entry
    rw [List.lookup_cons] at h
    by_cases hkey : name = key
    · subst hkey
      rw [beq_self_eq_true] at h
      cases h
      simp [hv]
    · rw [beq_false_of_ne hkey] at h
      rw [List.filterMap_cons]
      split
      · exact ih h
      · rename_i entry hentry
        obtain ⟨m, -, rfl⟩ := Option.map_eq_some_iff.mp hentry
        rw [lookup_cons_of_ne hkey]
        exact ih h

theorem limit_lt_long : limit < 10 ^ longestInteger := by
  have hexponent : 1024 < longestInteger := by decide
  calc limit ≤ 2 ^ 1024 := by simp only [limit, tsub_le_iff_right, Nat.le_add_right]
    _ < 2 ^ longestInteger := (Nat.pow_lt_pow_iff_right (by decide)).mpr hexponent
    _ ≤ 10 ^ longestInteger := Nat.pow_le_pow_left (by decide) _

/-- What an integer is read as, given as a number, as its decimal text and by the name of a
parameter that has it as its value. The number is read as itself. The text is read through the
double of the integer, and refused beyond the doubles, or if it has too many digits. So is the
name, unless it is a word for an infinity, or ends with a line: an infinity is not finite, and
without its line end the name is that of another parameter, if there is one. The text is read as
the integer exactly if the integer is a double. -/
theorem integer_spellings {values : Object} {p : String} {n : ℤ}
    (hname : Text.isIdentifier p = true) (hp : values.lookup p = some (.int n))
    (path : List String) (what : String) :
    let parameters := ResolvedParameters.numbersOf values
    integer (.int n) parameters path what = .ok n ∧
    integer (.text (toString n)) parameters path what =
      (if n.natAbs < 10 ^ longestInteger then throughDouble n else Failure.refuse .badValue) ∧
    integer (.text p) parameters path what =
      (match infinity? p with
      | some x => fail (.notFinite what x) path
      | none =>
        if Text.bareName p = p then throughDouble n
        else
          match parameters.lookup (Text.bareName p) with
          | some (.int m) => throughDouble m
          | some (.float x) => integer (.float x) parameters path what
          | none => fail (.unknownNames what p [Text.bareName p]) path) ∧
    (throughDouble n = .ok n ↔ IsDouble n) ∧
    (integer (.text (toString n)) parameters path what = .ok n ↔ IsDouble n) := by
  intro parameters
  have hread : integer (.text (toString n)) parameters path what = _ := integer_toString n
  refine ⟨rfl, hread, ?_, throughDouble_eq_ok, ?_⟩
  · cases hword : infinity? p with
    | some x => exact integer_of_infinity? hword
    | none =>
      rw [integer_identifier hname hword]
      by_cases hbare : Text.bareName p = p
      · have hlookup : parameters.lookup p = some (.int n) := lookup_numbersOf hp rfl
        rw [if_pos hbare, hbare, hlookup]
      · rw [if_neg hbare]
  · rw [hread]
    split
    · exact throughDouble_eq_ok
    · rename_i hlong
      refine iff_of_false nofun ?_
      rintro ⟨hlimit, -⟩
      exact hlong (hlimit.trans limit_lt_long)

/-- The least integer that is no double: as a text, and by name, it is read as the one below. -/
theorem integer_spellings_odd :
    let values : Object := [("n", .int 9007199254740993)]
    let parameters := ResolvedParameters.numbersOf values
    (Text.isIdentifier "n" = true ∧ values.lookup "n" = some (.int 9007199254740993)) ∧
      integer (.int 9007199254740993) parameters [] "value" = .ok 9007199254740993 ∧
      integer (.text "9007199254740993") parameters [] "value" = .ok 9007199254740992 ∧
      integer (.text "n") parameters [] "value" = .ok 9007199254740992 := by
  intro values parameters
  have hname : Text.isIdentifier "n" = true := by decide
  have hp : values.lookup "n" = some (.int 9007199254740993) := rfl
  obtain ⟨hnumber, htext, hparameter, -⟩ := integer_spellings hname hp [] "value"
  have hrounded : throughDouble 9007199254740993 = .ok 9007199254740992 := rfl
  refine ⟨⟨hname, hp⟩, hnumber, ?_, ?_⟩
  · have hdigits : (9007199254740993 : ℤ).natAbs < 10 ^ longestInteger :=
      calc (9007199254740993 : ℤ).natAbs < 10 ^ 16 := by decide
        _ ≤ 10 ^ longestInteger := Nat.pow_le_pow_right (by decide) (by decide)
    rw [if_pos hdigits, hrounded] at htext
    exact htext
  · have hword : infinity? "n" = none := by decide
    rw [hword, if_pos (by decide), hrounded] at hparameter
    exact hparameter

end Constant

end EnergyGraph
