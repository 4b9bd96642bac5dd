-- Which declared names expressions can speak of. A document that is read declares identifiers
-- only. As a text, each of them is read as itself, but for the line end that may follow it; no
-- expression has a name with a line end. A symbol can stand in an index list, whatever it starts
-- with. What a reduction runs over has to start with a letter.
import EnergyGraph.Proofs.DeclaredNames
import EnergyGraph.Proofs.IntegerReadings

namespace EnergyGraph

/-! ## Names that expressions have -/

namespace Text

theorem bareName_eq_iff {p : String} : bareName p = p ↔ '\n' ∉ p.toList := by
  rw [← String.toList_inj, toList_bareName, List.takeWhile_eq_self_iff]
  constructor
  · intro h hmem
    simpa using h '\n' hmem
  · intro h c hc
    rw [bne_iff_ne]
    rintro rfl
    exact h hc

theorem head_of_isReductionSymbol {s : String} (h : Expr.isReductionSymbol s = true) :
    s.toList.head? ≠ some '_' := by
  unfold Expr.isReductionSymbol at h
  intro hhead
  obtain ⟨tail, hs⟩ := List.head?_eq_some_iff.mp hhead
  rw [hs] at h
  change isLetter '_' = true at h
  revert h
  decide

/-- An identifier is something to reduce over, unless it starts with an underscore. -/
theorem isReductionSymbol_bareName {p : String} (h : isIdentifier p = true) :
    Expr.isReductionSymbol (bareName p) = true ↔ p.toList.head? ≠ some '_' := by
  obtain ⟨⟨⟨c, tail, hbare, -⟩, -⟩, after, hp, -⟩ := exists_of_isIdentifier h
  have hheads : p.toList.head? = (bareName p).toList.head? := by
    rw [hp, hbare, List.cons_append, List.head?_cons, List.head?_cons]
  rw [hheads]
  refine ⟨head_of_isReductionSymbol, fun hne => ?_⟩
  unfold isIdentifier hasForm at h
  rw [hp, hbare, List.cons_append] at h
  obtain ⟨hfirst, -⟩ := Bool.and_eq_true_iff.mp h
  have hletter : isLetterAscii c = true := by
    rw [hbare, List.head?_cons, ne_eq, Option.some_inj] at hne
    simpa [hne] using hfirst
  have hlt : c.toNat < 128 := by
    apply toNat_lt_of_identifier
    rw [hletter, Bool.true_or, Bool.true_or]
  unfold Expr.isReductionSymbol
  rw [hbare]
  revert hletter
  apply forall_ascii (P := fun c => isLetterAscii c = true → isLetter c = true) ?_ hlt
  decide

end Text

namespace Expr

/-- No name goes on after the end of a line. -/
theorem IsName.lineEnd_notMem {name : String} (h : IsName name) : '\n' ∉ name.toList := by
  obtain ⟨⟨c, tail, hname, hblank, -⟩, htail⟩ := h
  rw [hname] at htail ⊢
  intro hmem
  rcases List.mem_cons.mp hmem with rfl | hmem
  · revert hblank
    decide
  · have hchar : isNameChar '\n' = true := htail _ hmem
    revert hchar
    decide

section

variable {source s : String} {e : Expr}

theorem lineEnd_notMem_of_mem_names (h : parse source = .ok e) (hs : s ∈ e.names) :
    '\n' ∉ s.toList := by
  obtain ⟨indices, span, hmem⟩ := mem_names.mp hs
  cases (legible_of_parse h).of_mem_walk hmem with
  | ref hname _ => exact hname.lineEnd_notMem

theorem lineEnd_notMem_of_mem_indexSymbols (h : parse source = .ok e) (hs : s ∈ e.indexSymbols) :
    '\n' ∉ s.toList := by
  obtain ⟨name, indices, span, place, hmem, hi⟩ := mem_indexSymbols.mp hs
  cases (legible_of_parse h).of_mem_walk hmem with
  | ref _ hindices =>
    have hname : IsName s := hindices _ hi
    exact hname.lineEnd_notMem

theorem spelled_of_mem_reductionSymbols (h : parse source = .ok e)
    (hs : s ∈ e.reductionSymbols) : s.toList.head? ≠ some '_' ∧ '\n' ∉ s.toList := by
  obtain ⟨fold, body, span, hmem⟩ := mem_reductionSymbols.mp hs
  cases (legible_of_parse h).of_mem_walk hmem with
  | reduction hname hsymbol _ =>
    refine ⟨Text.head_of_isReductionSymbol hsymbol, fun hline => hname.lineEnd_notMem ?_⟩
    rw [toList_foldName_append]
    exact List.mem_append_right _ (List.mem_cons_of_mem _ hline)

end

/-! ## Texts with a declared name -/

theorem isAlphanumeric_of_isLetter {c : Char} (h : Text.isLetter c = true) :
    Text.isAlphanumeric c = true := by
  unfold Text.isAlphanumeric
  split
  · rename_i hascii
    rw [Text.isLetter, if_pos hascii] at h
    rw [Char.isAlphanum, h, Bool.true_or]
  · rw [h, Bool.true_or, Bool.true_or]

theorem isNameChar_of_isNameStart {c : Char} (h : isNameStart c = true) : isNameChar c = true := by
  unfold isNameChar
  rcases Bool.or_eq_true_iff.mp h with hletter | hunderscore
  · rw [isAlphanumeric_of_isLetter hletter, Bool.true_or]
  · rw [hunderscore, Bool.or_true]

theorem IsName.reduction {name : String} (h : IsName name) (fold : Fold) :
    IsName (fold.name ++ "_" ++ name) := by
  have hchars : ∀ c ∈ name.toList, isNameChar c = true := by
    obtain ⟨⟨c, tail, hname, -, -, hstart⟩, htail⟩ := h
    rw [hname] at htail ⊢
    exact List.forall_mem_cons.mpr ⟨isNameChar_of_isNameStart hstart, htail⟩
  obtain ⟨c, tail, hfold, hhead, htail⟩ : ∃ c tail, fold.name.toList = c :: tail ∧
      (Text.isBlank c = false ∧ Text.isDigit c = false ∧ isNameStart c = true) ∧
      tail.all isNameChar = true := by
    cases fold with
    | sum => exact ⟨'s', ['u', 'm'], rfl, by decide, by decide⟩
    | prod => exact ⟨'p', ['r', 'o', 'd'], rfl, by decide, by decide⟩
  refine ⟨⟨c, tail ++ '_' :: name.toList, ?_, hhead⟩, ?_⟩
  · rw [toList_foldName_append, hfold, List.cons_append]
  · rw [toList_foldName_append, hfold, List.cons_append]
    have hrest : ∀ d ∈ '_' :: name.toList, isNameChar d = true :=
      List.forall_mem_cons.mpr ⟨by decide, hchars⟩
    exact List.forall_mem_append.mpr ⟨List.all_eq_true.mp htail, hrest⟩

/-! ### Calls that are none -/

theorem callNode_badReduction {name : Token} {span : Span} {args : List Expr} {fold : Fold}
    {symbol : String} (htext : name.text = fold.name ++ "_" ++ symbol)
    (hsymbol : ¬ isReductionSymbol symbol = true) : callNode name span args =
      .error ⟨.badReductionTarget name.text, ⟨name.start, name.stop⟩⟩ := by
  unfold callNode
  simp only [reductionName?_eq_some.mpr htext, if_neg hsymbol]

section

variable {stop : ℕ} {after ts : List Token} {t name opening closing : Token} {m : Mistake}

/-- A mistake at a name is one of the whole text. -/
theorem ofTokens_of_operand_error (hname : t.kind = .name)
    (h : operandStep stop (t :: after) = .error m) : ofTokens stop (t :: after) = .error m := by
  have hsigned : signedStep stop (t :: after) = .error m := by
    rw [signedStep_cons, hname]
    exact h
  rw [ofTokens_cons, sumStep_eq_error hsigned]
  rfl

/-- A call whose arguments are read, but make no call, is a mistake. -/
theorem ofTokens_call_error (hname : name.kind = .name) (hopening : opening.kind = .openParen)
    (hclosing : closing.kind = .closeParen) {body : Expr} (hbody : Derives .sum ts body)
    (hnode : callNode name ⟨name.start, closing.stop⟩ [body] = .error m) :
    ofTokens stop (name :: opening :: (ts ++ [closing])) = .error m := by
  have hlisted : Listed (·.1) [(ts, body)] ts := Listed.last
  have hcall : operandStep stop (name :: opening :: (ts ++ [closing]) ++ []) =
      (callNode name ⟨name.start, closing.stop⟩ [body]).map fun node => (node, []) :=
    operandStep_call hname hopening hclosing hlisted (by simpa using hbody)
      (by simpa using hbody.complete stop)
  rw [List.append_nil, hnode] at hcall
  exact ofTokens_of_operand_error hname hcall

end

/-! ### What is read -/

section

variable {s : String} (h : Text.isIdentifier s = true)

include h

/-- The tokens of a reduction of a number: the line end after a symbol is none of them. -/
theorem parse_reductionText : ∃ name opening zero closing : Token,
    name.kind = .name ∧ name.text = Fold.sum.name ++ "_" ++ Text.bareName s ∧
    opening.kind = .openParen ∧ zero.kind = .number (.int 0) ∧ closing.kind = .closeParen ∧
    parse ("sum_" ++ s ++ "(0)") =
      (ofTokens ("sum_" ++ s ++ "(0)").toList.length
        (name :: opening :: ([zero] ++ [closing]))).mapError .mistake := by
  obtain ⟨hname, after, hs, hafter⟩ := Text.exists_of_isIdentifier h
  have hword := hname.reduction .sum
  set word := Fold.sum.name ++ "_" ++ Text.bareName s
  have htext : ("sum_" ++ s ++ "(0)").toList =
      (word.toList ++ after) ++ ('(' :: (['0'] ++ [')'])) := by
    rw [toList_foldName_append, String.toList_append, String.toList_append, hs]
    simp [Fold.name]
  have hzero : Numeral ['0'] (.int 0) := numeral_toDigits (Nat.pow_pos (by decide))
  have hends : NameEnds ('(' :: (['0'] ++ [')']) ++ []) := nameEnds_cons (by decide)
  obtain ⟨name, hkind, hnamed, hword⟩ := lexes_name_line 0 hword hafter hends
  have hcloses : Closes [')'] := closes_cons (by decide)
  have hinner : Lexes (0 + (word.toList ++ after).length + 1) ['0'] [')'] _ :=
    lexes_numeral hzero hcloses.ending
  obtain ⟨opening, closing, hopening, hclosing, hparens⟩ := lexes_parens hinner
  have hlexes := hword.append hparens
  rw [← htext] at hlexes
  exact ⟨name, opening, _, closing, hkind, hnamed, hopening, rfl, hclosing, parse_of_lexes hlexes⟩

theorem parse_reduction (hletter : s.toList.head? ≠ some '_') : ∃ place span,
    parse ("sum_" ++ s ++ "(0)") =
      .ok (.reduction .sum (Text.bareName s) (.literal (.int 0) place) span) := by
  obtain ⟨name, opening, zero, closing, hname, htext, hopening, hzero, hclosing, hparse⟩ :=
    parse_reductionText h
  have hbody : Derives .sum [zero] _ := Derives.sum_of_signed (.operand (.number hzero))
  have hsymbol := (Text.isReductionSymbol_bareName h).mpr hletter
  have hderives := Derives.sum_of_signed
    (.operand (.reduction hname hopening hclosing htext hsymbol hbody))
  refine ⟨⟨zero.start, zero.stop⟩, ⟨name.start, closing.stop⟩, ?_⟩
  rw [hparse, ofTokens_eq_ok.mpr hderives]
  rfl

theorem parse_badReduction (hunderscore : s.toList.head? = some '_') : ∃ span,
    parse ("sum_" ++ s ++ "(0)") =
      .error (.mistake ⟨.badReductionTarget ("sum_" ++ Text.bareName s), span⟩) := by
  obtain ⟨name, opening, zero, closing, hname, htext, hopening, hzero, hclosing, hparse⟩ :=
    parse_reductionText h
  have hbody : Derives .sum [zero] _ := Derives.sum_of_signed (.operand (.number hzero))
  have hsymbol : ¬ isReductionSymbol (Text.bareName s) = true := by
    rw [Text.isReductionSymbol_bareName h, not_not]
    exact hunderscore
  have hrefused (stop : ℕ) : ofTokens stop (name :: opening :: ([zero] ++ [closing])) = .error _ :=
    ofTokens_call_error hname hopening hclosing hbody (callNode_badReduction htext hsymbol)
  refine ⟨⟨name.start, name.stop⟩, ?_⟩
  rw [hparse, hrefused, htext]
  rfl

theorem parse_indexed : ∃ place span, parse ("x[" ++ s ++ "]") =
    .ok (.ref "x" [.symbol (Text.bareName s) place] span) := by
  obtain ⟨hname, after, hs, hafter⟩ := Text.exists_of_isIdentifier h
  have harray : IsName "x" := ⟨⟨'x', [], rfl, by decide, by decide, by decide⟩, nofun⟩
  have htext : ("x[" ++ s ++ "]").toList =
      "x".toList ++ ('[' :: (((Text.bareName s).toList ++ after) ++ [']'])) := by
    rw [String.toList_append, String.toList_append, hs]
    simp
  have hends : NameEnds [']'] := nameEnds_cons (by decide)
  obtain ⟨symbol, hsymbol, hnamed, hinner⟩ :=
    lexes_name_line (0 + "x".toList.length + 1) hname hafter hends
  obtain ⟨opening, closing, hopening, hclosing, hbrackets⟩ := lexes_brackets hinner
  have hopens : NameEnds (('[' :: (((Text.bareName s).toList ++ after) ++ [']'])) ++ []) :=
    nameEnds_cons (by decide)
  have hlexes := (lexes_name harray hopens).append hbrackets
  rw [← htext] at hlexes
  have hname : (⟨.name, "x", 0, 0 + "x".toList.length⟩ : Token).kind = .name := rfl
  have hlisted : Listed (fun p => [p.1])
      [(symbol, Index.symbol symbol.text ⟨symbol.start, symbol.stop⟩)] [symbol] := Listed.last
  have hindex := List.forall_mem_singleton.mpr (IsIndex.symbol hsymbol)
  have hderives := Derives.sum_of_signed
    (.operand (.indexed hname hopening hclosing hlisted (by simpa using hindex)))
  refine ⟨⟨symbol.start, symbol.stop⟩, ⟨0, closing.stop⟩, ?_⟩
  rw [parse_of_lexes hlexes, ← hnamed]
  exact congrArg (Except.mapError _) (ofTokens_eq_ok.mpr hderives)

end

end Expr

/-! ## Names of a document -/

namespace Document

/-- How far expressions can speak of what a document declares. A name is read as itself, but for
the line end that may follow it, and with that it is no name in any expression. A symbol in an
index list is read in the same way. So is one to reduce over that starts with a letter; one that
starts with an underscore is refused, and no expression reduces over it. -/
theorem declared_names_read {v : Value} {collect : Bool} {d : Document}
    (h : parse v collect = .ok d) :
    (∀ n ∈ d.declaredNames,
      (∃ span, Formula.ofText n .unspecified =
        .ok ⟨n, .ref (Text.bareName n) [] span, .unspecified⟩) ∧
      (Text.bareName n = n ↔ '\n' ∉ n.toList) ∧
      ∀ text e, Expr.parse text = .ok e → n ∈ e.names → '\n' ∉ n.toList) ∧
    ∀ s ∈ d.boundSymbols,
      (s.toList.head? ≠ some '_' → ∃ place span,
        Formula.ofText ("sum_" ++ s ++ "(0)") .unspecified = .ok ⟨"sum_" ++ s ++ "(0)",
          .reduction .sum (Text.bareName s) (.literal (.int 0) place) span, .unspecified⟩) ∧
      (s.toList.head? = some '_' → ∃ span,
        Formula.ofText ("sum_" ++ s ++ "(0)") .unspecified =
          .error (.mistake ⟨.badReductionTarget ("sum_" ++ Text.bareName s), span⟩)) ∧
      (∃ place span, Formula.ofText ("x[" ++ s ++ "]") .unspecified =
        .ok ⟨"x[" ++ s ++ "]", .ref "x" [.symbol (Text.bareName s) place] span, .unspecified⟩) ∧
      (Text.bareName s = s ↔ '\n' ∉ s.toList) ∧
      ∀ text e, Expr.parse text = .ok e →
        (s ∈ e.reductionSymbols → s.toList.head? ≠ some '_' ∧ '\n' ∉ s.toList) ∧
        (s ∈ e.indexSymbols → '\n' ∉ s.toList) := by
  have hdeclares := declaresIdentifiers_of_parse h
  refine ⟨fun n hn => ⟨?_, Text.bareName_eq_iff, fun text e => Expr.lineEnd_notMem_of_mem_names⟩,
    fun s hs => ⟨?_, ?_, ?_, Text.bareName_eq_iff, fun text e hparse =>
      ⟨Expr.spelled_of_mem_reductionSymbols hparse,
        Expr.lineEnd_notMem_of_mem_indexSymbols hparse⟩⟩⟩
  · obtain ⟨span, hread⟩ := Expr.parse_identifier (hdeclares.names n hn)
    exact ⟨span, Formula.ofText_unspecified hread⟩
  · intro hletter
    obtain ⟨place, span, hread⟩ := Expr.parse_reduction (hdeclares.symbols s hs) hletter
    exact ⟨place, span, Formula.ofText_unspecified hread⟩
  · intro hunderscore
    obtain ⟨span, hrefused⟩ := Expr.parse_badReduction (hdeclares.symbols s hs) hunderscore
    refine ⟨span, ?_⟩
    unfold Formula.ofText
    rw [hrefused]
    rfl
  · obtain ⟨place, span, hread⟩ := Expr.parse_indexed (hdeclares.symbols s hs)
    exact ⟨place, span, Formula.ofText_unspecified hread⟩

/-- A parameter with a line end after its name, and symbols with an underscore and without. -/
def underscored : Value :=
  .object [("version", .text "1.0.0"), ("name", .text "toy"),
    ("parameters", .object [("p\n", .int 1)]),
    ("interactions", .object [("pairs",
      .object [("type", .text "all_indices"), ("bind", .list [.text "_i", .text "k"])])])]

theorem declared_names_read_underscored : ∃ d, parse underscored false = .ok d ∧
    "p\n" ∈ d.declaredNames ∧ "_i" ∈ d.boundSymbols ∧ "k" ∈ d.boundSymbols ∧
    (∃ span, Formula.ofText "p\n" .unspecified =
      .ok ⟨"p\n", .ref "p" [] span, .unspecified⟩) ∧
    (∃ span, Formula.ofText "sum__i(0)" .unspecified =
      .error (.mistake ⟨.badReductionTarget "sum__i", span⟩)) ∧
    (∃ place span, Formula.ofText "x[_i]" .unspecified =
      .ok ⟨"x[_i]", .ref "x" [.symbol "_i" place] span, .unspecified⟩) ∧
    ∃ place span, Formula.ofText "sum_k(0)" .unspecified =
      .ok ⟨"sum_k(0)", .reduction .sum "k" (.literal (.int 0) place) span, .unspecified⟩ := by
  obtain ⟨d, hparse⟩ := exists_eq_ok (x := parse underscored false) (by decide +kernel)
  have hdeclared : (parse underscored false).toOption.map
      (fun d => (d.declaredNames, d.boundSymbols)) = some (["p\n"], ["_i", "k"]) := by
    decide +kernel
  rw [hparse] at hdeclared
  obtain ⟨hnames, hsymbols⟩ := Prod.mk.inj (Option.some.inj hdeclared)
  have hp : "p\n" ∈ d.declaredNames := by simp [hnames]
  have hi : "_i" ∈ d.boundSymbols := by simp [hsymbols]
  have hk : "k" ∈ d.boundSymbols := by simp [hsymbols]
  obtain ⟨hread, hbound⟩ := declared_names_read hparse
  obtain ⟨hname, -⟩ := hread _ hp
  obtain ⟨-, hrefused, hindexed, -⟩ := hbound _ hi
  obtain ⟨hreduced, -⟩ := hbound _ hk
  exact ⟨d, hparse, hp, hi, hk, hname, hrefused rfl, hindexed, hreduced (by decide)⟩

end Document

end EnergyGraph
