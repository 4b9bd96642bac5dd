-- Expressions whose text can be read again. Their names are those of tokens and their numbers
-- are finite; expressions that were read are such, and so is what replacing names by finite
-- numbers makes of them.
import EnergyGraph.Expr.Formula
import EnergyGraph.Expr.Printer
import EnergyGraph.Proofs.Lexing
import EnergyGraph.Proofs.ParseTrees
import EnergyGraph.Proofs.Walking

namespace EnergyGraph

/-! ## Legible expressions -/

def Index.Legible : Index → Prop
  | .symbol name _ => Expr.IsName name
  | .literal n _ => 0 ≤ n ∧ n.natAbs < 10 ^ Decimal.longestInteger

namespace Expr

/-- All names can be lexed, all literals fulfil a condition, and calls have arguments that they
accept. -/
inductive Legible (P : Number → Prop) : Expr → Prop
  | literal {value span} (h : P value) : Legible P (.literal value span)
  | ref {name indices span} (hname : IsName name) (hindices : ∀ i ∈ indices, i.Legible) :
    Legible P (.ref name indices span)
  | reduction {fold symbol body span} (hname : IsName (fold.name ++ "_" ++ symbol))
    (hsymbol : isReductionSymbol symbol = true) (h : Legible P body) :
    Legible P (.reduction fold symbol body span)
  | call {function args span} (hname : IsName function.name)
    (hcount : function.accepts args.length = true) (h : ∀ a ∈ args, Legible P a) :
    Legible P (.call function args span)
  | binary {op left right span} (hleft : Legible P left) (hright : Legible P right) :
    Legible P (.binary op left right span)
  | negate {operand span} (h : Legible P operand) : Legible P (.negate operand span)

section

variable {P Q : Number → Prop} {e : Expr}

theorem Legible.imp (h : Legible P e) (himp : ∀ v, P v → Q v) : Legible Q e := by
  induction h with
  | literal h => exact .literal (himp _ h)
  | ref hname hindices => exact .ref hname hindices
  | reduction hname hsymbol _ ih => exact .reduction hname hsymbol ih
  | call hname hcount _ ih => exact .call hname hcount ih
  | binary _ _ ihleft ihright => exact .binary ihleft ihright
  | negate _ ih => exact .negate ih

/-- Every part of a legible expression is legible. -/
theorem Legible.of_mem_walk (h : Legible P e) {part : Expr} (hpart : Part.expr part ∈ e.walk) :
    Legible P part := by
  induction h with
  | literal h =>
    rw [walk_literal, List.mem_singleton] at hpart
    cases hpart
    exact .literal h
  | ref hname hindices =>
    rw [walk_ref, List.mem_cons] at hpart
    rcases hpart with heq | hmem
    · cases heq
      exact .ref hname hindices
    · obtain ⟨i, -, hi⟩ := List.mem_map.mp hmem
      cases hi
  | reduction hname hsymbol h ih =>
    rw [walk_reduction, List.mem_cons] at hpart
    rcases hpart with heq | hmem
    · cases heq
      exact .reduction hname hsymbol h
    · exact ih hmem
  | call hname hcount h ih =>
    rw [walk_call, List.mem_cons] at hpart
    rcases hpart with heq | hmem
    · cases heq
      exact .call hname hcount h
    · obtain ⟨a, ha, hmem⟩ := List.mem_flatMap.mp hmem
      exact ih a ha hmem
  | binary hleft hright ihleft ihright =>
    rw [walk_binary, List.mem_cons, List.mem_append] at hpart
    rcases hpart with heq | hmem | hmem
    · cases heq
      exact .binary hleft hright
    · exact ihleft hmem
    · exact ihright hmem
  | negate h ih =>
    rw [walk_negate, List.mem_cons] at hpart
    rcases hpart with heq | hmem
    · cases heq
      exact .negate h
    · exact ih hmem

end

/-! ## What is read is legible -/

/-- A number as it stands in a text, without a sign. -/
def Unsigned (v : Number) : Prop := v.Printable ∧ v.isNegative = false

theorem Listed.mem {α : Type} {tokensOf : α → List Token} {parts : List α} {ts : List Token}
    (h : Listed tokensOf parts ts) {part : α} (hpart : part ∈ parts) {t : Token}
    (ht : t ∈ tokensOf part) : t ∈ ts := by
  induction h with
  | last =>
    rw [List.mem_singleton] at hpart
    rwa [← hpart]
  | more _ _ ih =>
    rw [List.mem_append, List.mem_cons]
    rcases List.mem_cons.mp hpart with rfl | hpart
    · exact Or.inl ht
    · exact Or.inr (Or.inr (ih hpart))

theorem isName_of_legible {t : Token} (h : t.Legible) (hkind : t.kind = .name) : IsName t.text := by
  unfold Token.Legible at h
  rwa [hkind] at h

theorem unsigned_of_legible {t : Token} {v : Number} (h : t.Legible) (hkind : t.kind = .number v) :
    Unsigned v := by
  unfold Token.Legible at h
  rwa [hkind] at h

theorem legible_of_isIndex {t : Token} {i : Index} (h : IsIndex t i) (ht : t.Legible) :
    i.Legible := by
  cases h with
  | symbol hkind => exact isName_of_legible ht hkind
  | literal hkind =>
    obtain ⟨hsize, hsign⟩ := unsigned_of_legible ht hkind
    exact ⟨not_lt.mp (of_decide_eq_false hsign), hsize⟩

theorem Derives.legible {category : Category} {ts : List Token} {e : Expr}
    (h : Derives category ts e) (hts : ∀ t ∈ ts, t.Legible) : Legible Unsigned e := by
  induction h with
  | product _ ih | power _ ih | signed _ ih | operand _ ih => exact ih hts
  | added _ _ _ _ ihleft ihright | multiplied _ _ _ _ ihleft ihright
  | raised _ _ _ ihleft ihright =>
    obtain ⟨hleft, hright⟩ := List.forall_mem_append.mp hts
    exact .binary (ihleft hleft) (ihright (List.forall_mem_cons.mp hright).2)
  | plus _ _ ih => exact ih (List.forall_mem_cons.mp hts).2
  | minus _ _ ih => exact .negate (ih (List.forall_mem_cons.mp hts).2)
  | number hkind => exact .literal (unsigned_of_legible (hts _ (by simp)) hkind)
  | name hkind => exact .ref (isName_of_legible (hts _ (by simp)) hkind) (by simp)
  | indexed hname _ _ hlisted hparts =>
    refine .ref (isName_of_legible (hts _ (by simp)) hname) ?_
    intro i hi
    obtain ⟨p, hp, rfl⟩ := List.mem_map.mp hi
    have ht := hlisted.mem hp (List.mem_singleton_self p.1)
    exact legible_of_isIndex (hparts p hp) (hts _ (by simp [ht]))
  | parenthesized _ _ _ ih => exact ih fun t ht => hts t (by simp [ht])
  | reduction hname _ _ htext hsymbol _ ih =>
    refine .reduction ?_ hsymbol (ih fun t ht => hts t (by simp [ht]))
    exact htext ▸ isName_of_legible (hts _ (by simp)) hname
  | call hname _ _ htext hcount hlisted hparts ih =>
    refine .call (htext ▸ isName_of_legible (hts _ (by simp)) hname) (by simpa using hcount) ?_
    intro a ha
    obtain ⟨p, hp, rfl⟩ := List.mem_map.mp ha
    refine ih p hp fun t ht => hts t ?_
    have hmem := hlisted.mem hp ht
    simp [hmem]

/-- What is read is legible. -/
theorem legible_of_parse {source : String} {e : Expr} (h : Expr.parse source = .ok e) :
    Legible Unsigned e := by
  unfold Expr.parse at h
  dsimp only at h
  obtain ⟨tokens, htokens, h⟩ := bind_eq_ok.mp h
  exact (ofTokens_eq_ok.mp (mapError_eq_ok.mp h)).legible (legible_tokensFrom htokens)

end Expr

namespace Formula

theorem ofText_unspecified {source : String} {e : Expr} (h : Expr.parse source = .ok e) :
    ofText source .unspecified = .ok ⟨source, e, .unspecified⟩ := by
  unfold ofText
  dsimp only
  rw [h]
  rfl

theorem parse_of_ofText {source : String} {arity : Arity} {f : Formula}
    (h : ofText source arity = .ok f) : Expr.parse source = .ok f.body := by
  unfold ofText at h
  split at h
  · split at h
    · cases h
    · obtain ⟨body, hbody, h⟩ := bind_eq_ok.mp h
      dsimp only at h
      split at h
      · cases h
      · cases h
        exact hbody
  · obtain ⟨body, hbody, h⟩ := bind_eq_ok.mp h
    cases h
    exact hbody

/-- A formula of a value is a number, or was read from a text. -/
theorem legible_of_ofValue {v : Value} {arity : Arity} {f : Formula} (h : ofValue v arity = .ok f) :
    Expr.Legible (fun _ => True) f.body := by
  unfold ofValue at h
  split at h
  · rw [mapError_eq_ok] at h
    exact (Expr.legible_of_parse (parse_of_ofText h)).imp fun _ _ => trivial
  · cases h
    exact .literal trivial
  · cases h
    exact .literal trivial
  · cases h
  · cases h

end Formula

namespace Expr

/-! ## Replacing keeps expressions legible -/

theorem Legible.replace {P : Number → Prop} {e : Expr} (h : Legible P e) {values : Numbers}
    (hvalues : ∀ v ∈ values, P v.2) (kept : List String) : Legible P (e.replace values kept) := by
  induction h with
  | literal h =>
    rw [Expr.replace]
    exact .literal h
  | @ref name indices span hname hindices =>
    cases indices with
    | nil =>
      rw [Expr.replace]
      split
      · rename_i v hv
        exact .literal (hvalues _ (mem_of_replacement? hv))
      · exact .ref hname hindices
    | cons i rest =>
      rw [Expr.replace]
      · exact .ref hname hindices
      · exact List.cons_ne_nil i rest
  | reduction hname hsymbol _ ih =>
    rw [Expr.replace]
    exact .reduction hname hsymbol ih
  | call hname hcount _ ih =>
    rw [Expr.replace, replaceAll_eq_map]
    refine .call hname (by rwa [List.length_map]) ?_
    intro a ha
    obtain ⟨b, hb, rfl⟩ := List.mem_map.mp ha
    exact ih b hb
  | binary _ _ ihleft ihright =>
    rw [Expr.replace]
    exact .binary ihleft ihright
  | negate _ ih =>
    rw [Expr.replace]
    exact .negate ih

end Expr

end EnergyGraph
