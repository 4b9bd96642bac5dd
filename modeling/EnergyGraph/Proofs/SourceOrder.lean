-- Symbols in the order of the text. What a name stands for can be told from the tokens alone: in
-- brackets it is an index, before a parenthesis it names a function or a reduction, and anywhere
-- else it is a value. A walk through the expression comes by the names in the order in which they
-- stand in the text, since no rule of the grammar puts a part before what stands on its left.
import EnergyGraph.Proofs.TokenCover
import EnergyGraph.Proofs.Traversal

namespace EnergyGraph.Expr

/-! ## Uses of symbols -/

/-- What a symbol is used as. -/
inductive Role where
  | index
  | reduction
  | name
deriving DecidableEq

/-- A use of a symbol, with the place of the word that it stands in. -/
structure Use where
  role : Role
  symbol : String
  span : Span

def Use.entry (u : Use) : Role × String := (u.role, u.symbol)

/-- The tokens go on with the arguments of a call. -/
def opensCall : List Token → Bool
  | [] => false
  | t :: _ =>
    match t.kind with
    | .openParen => true
    | _ => false

/-- What a name is used as, inside or outside of brackets. The name of a function is no symbol, and
that of a reduction ends with one. -/
def use? (inside : Bool) (t : Token) (rest : List Token) : Option Use :=
  if inside then some ⟨.index, t.text, t.place⟩
  else if opensCall rest then
    (reductionName? t.text).map fun (_, symbol) => ⟨.reduction, symbol, t.place⟩
  else some ⟨.name, t.text, t.place⟩

/-- All uses of symbols among some tokens, from left to right. -/
def usesFrom (inside : Bool) : List Token → List Use
  | [] => []
  | t :: rest =>
    match t.kind with
    | .name => (use? inside t rest).toList ++ usesFrom inside rest
    | .openBracket => usesFrom true rest
    | .closeBracket => usesFrom false rest
    | _ => usesFrom inside rest

def uses (tokens : List Token) : List Use := usesFrom false tokens

/-- A use can be read off the text. -/
def Use.Stands (text : String) (u : Use) : Prop :=
  match u.role with
  | .reduction => ∃ fold : Fold, slice text u.span = fold.name ++ "_" ++ u.symbol
  | _ => slice text u.span = u.symbol

/-- Tokens that are neither names nor brackets. -/
def Token.Kind.isSilent : Token.Kind → Bool
  | .name | .openBracket | .closeBracket => false
  | _ => true

section

variable {inside : Bool} {t : Token} {ts rest : List Token} {u : Use}

theorem usesFrom_silent (h : t.kind.isSilent = true) :
    usesFrom inside (t :: rest) = usesFrom inside rest := by
  rw [usesFrom]
  cases hkind : t.kind with
  | name | openBracket | closeBracket =>
    rw [hkind] at h
    cases h
  | _ => rfl

theorem usesFrom_name (h : t.kind = .name) :
    usesFrom inside (t :: rest) = (use? inside t rest).toList ++ usesFrom inside rest := by
  rw [usesFrom, h]

theorem usesFrom_openBracket (h : t.kind = .openBracket) :
    usesFrom inside (t :: rest) = usesFrom true rest := by
  rw [usesFrom, h]

theorem usesFrom_closeBracket (h : t.kind = .closeBracket) :
    usesFrom inside (t :: rest) = usesFrom false rest := by
  rw [usesFrom, h]

/-- The words of the uses are some of the tokens, in their order. -/
theorem spans_sublist (inside : Bool) (ts : List Token) :
    ((usesFrom inside ts).map Use.span).Sublist (ts.map Token.place) := by
  induction ts generalizing inside with
  | nil => exact .slnil
  | cons t rest ih =>
    rw [usesFrom, List.map_cons]
    cases t.kind with
    | name =>
      have hword : ((use? inside t rest).toList.map Use.span).Sublist [t.place] := by
        unfold use?
        split
        · exact List.Sublist.refl _
        · split
          · cases reductionName? t.text with
            | none => exact List.nil_sublist _
            | some found => exact List.Sublist.refl _
          · exact List.Sublist.refl _
      rw [List.map_append]
      exact hword.append (ih inside)
    | openBracket => exact (ih true).cons _
    | closeBracket => exact (ih false).cons _
    | _ => exact (ih inside).cons _

theorem exists_use?_of_mem (h : u ∈ usesFrom inside ts) :
    ∃ t ∈ ts, ∃ inside rest, use? inside t rest = some u := by
  induction ts generalizing inside with
  | nil => cases h
  | cons t rest ih =>
    have hlater {inside : Bool} (h : u ∈ usesFrom inside rest) :
        ∃ t' ∈ t :: rest, ∃ inside rest, use? inside t' rest = some u := by
      obtain ⟨t', ht', hu⟩ := ih h
      exact ⟨t', List.mem_cons_of_mem t ht', hu⟩
    rw [usesFrom] at h
    split at h
    · rcases List.mem_append.mp h with h | h
      · exact ⟨t, List.mem_cons_self, inside, rest, Option.mem_toList.mp h⟩
      · exact hlater h
    · exact hlater h
    · exact hlater h
    · exact hlater h

theorem stands_of_use? {text : String} (h : use? inside t rest = some u)
    (htext : t.text = slice text t.place) : u.Stands text := by
  unfold use? at h
  split at h
  · cases h
    exact htext.symm
  · split at h
    · obtain ⟨⟨fold, symbol⟩, hname, h⟩ := Option.map_eq_some_iff.mp h
      cases h
      exact ⟨fold, htext.symm.trans (reductionName?_eq_some.mp hname)⟩
    · cases h
      exact htext.symm

end

/-! ## Uses in an expression -/

/-- What a part of an expression uses, without the parts below it. -/
def Part.use? : Part → Option (Role × String)
  | .expr (.ref name _ _) => some (.name, name)
  | .expr (.reduction _ symbol _ _) => some (.reduction, symbol)
  | .index (.symbol symbol _) => some (.index, symbol)
  | _ => none

/-- What an expression uses, in the order of a walk. -/
def used (e : Expr) : List (Role × String) := e.walk.filterMap Part.use?

section

variable (fold : Fold) (symbol name : String) (body left right operand : Expr) (span : Span)
  (function : Builtin) (args : List Expr) (op : Operator) (indices : List Index) (value : Number)

theorem used_literal : (literal value span).used = [] := by
  rw [used, walk_literal]
  rfl

theorem used_ref : (ref name indices span).used =
    (.name, name) :: indices.filterMap fun i => Part.use? (.index i) := by
  rw [used, walk_ref, List.filterMap_cons, List.filterMap_map]
  rfl

theorem used_reduction : (reduction fold symbol body span).used =
    (.reduction, symbol) :: body.used := by
  rw [used, walk_reduction, List.filterMap_cons]
  rfl

theorem used_call : (call function args span).used = args.flatMap used := by
  rw [used, walk_call, List.filterMap_cons, List.filterMap_flatMap]
  rfl

theorem used_binary : (binary op left right span).used = left.used ++ right.used := by
  rw [used, walk_binary, List.filterMap_cons, List.filterMap_append]
  rfl

theorem used_negate : (negate operand span).used = operand.used := by
  rw [used, walk_negate, List.filterMap_cons]
  rfl

end

section

variable {inside : Bool} {t opening closing : Token} {ts us : List Token} {category : Category}
  {e : Expr} {xs ys : List (Role × String)}

/-- The uses among some tokens, whatever follows them. It may be no opening parenthesis, which would
make a call of a name at the end. -/
def Carries (inside : Bool) (ts : List Token) (xs : List (Role × String)) : Prop :=
  ∀ rest, opensCall rest = false → (usesFrom inside (ts ++ rest)).map Use.entry =
    xs ++ (usesFrom inside rest).map Use.entry

theorem carries_silent (h : t.kind.isSilent = true) : Carries inside [t] [] := by
  intro rest _
  rw [List.singleton_append, usesFrom_silent h, List.nil_append]

theorem opensCall_cons (h : t.kind ≠ .openParen) : opensCall (t :: ts) = false := by
  rw [opensCall]
  split
  · contradiction
  · rfl

theorem Carries.append_cons (hts : Carries inside ts xs) (ht : t.kind ≠ .openParen)
    (hsilent : t.kind.isSilent = true) (hus : Carries inside us ys) :
    Carries inside (ts ++ t :: us) (xs ++ ys) := by
  intro rest hrest
  rw [List.append_assoc, List.cons_append, hts _ (opensCall_cons ht), usesFrom_silent hsilent,
    hus rest hrest, List.append_assoc]

theorem Carries.cons (hsilent : t.kind.isSilent = true) (hts : Carries inside ts xs) :
    Carries inside (t :: ts) xs := by
  intro rest hrest
  rw [List.cons_append, usesFrom_silent hsilent, hts rest hrest]

theorem Carries.between (hopening : opening.kind = .openParen)
    (hclosing : closing.kind = .closeParen)
    (hts : Carries inside ts xs) : Carries inside (opening :: (ts ++ [closing])) xs := by
  have hsilent : closing.kind.isSilent = true := by rw [hclosing]; rfl
  have hnone : Carries inside [] [] := fun _ _ => rfl
  have hall := hts.append_cons (by rw [hclosing]; nofun) hsilent hnone
  rw [List.append_nil] at hall
  exact hall.cons (by rw [hopening]; rfl)

theorem Listed.carries {α : Type} {tokensOf : α → List Token} {parts : List α}
    (entriesOf : α → List (Role × String)) (h : Listed tokensOf parts ts)
    (hparts : ∀ part ∈ parts, Carries inside (tokensOf part) (entriesOf part)) :
    Carries inside ts (parts.flatMap entriesOf) := by
  induction h with
  | last =>
    rw [List.flatMap_singleton]
    exact hparts _ List.mem_cons_self
  | more hcomma _ ih =>
    obtain ⟨hpart, hparts⟩ := List.forall_mem_cons.mp hparts
    rw [List.flatMap_cons]
    exact hpart.append_cons (by rw [hcomma]; nofun) (by rw [hcomma]; rfl) (ih hparts)

theorem IsIndex.carries {i : Index} (h : IsIndex t i) :
    Carries true [t] (Part.use? (.index i)).toList := by
  cases h with
  | symbol hkind =>
    intro rest _
    rw [List.singleton_append, usesFrom_name hkind, List.map_append]
    rfl
  | literal hkind => exact carries_silent (by rw [hkind]; rfl)

theorem carries_binary {op : Operator} {left right : Expr} (hop : t.kind = .operator op)
    (hleft : Carries false ts left.used) (hright : Carries false us right.used) :
    Carries false (ts ++ t :: us) (binaryNode op left right).used := by
  rw [binaryNode, used_binary]
  exact hleft.append_cons (by simp [hop]) (by rw [hop]; rfl) hright

/-- An array with its indices. -/
theorem carries_indexed {name : Token} {is : List Index} {span : Span} (hname : name.kind = .name)
    (hopening : opening.kind = .openBracket) (hclosing : closing.kind = .closeBracket)
    (h : Carries true ts (is.filterMap fun i => Part.use? (.index i))) :
    Carries false (name :: opening :: (ts ++ [closing])) (ref name.text is span).used := by
  intro rest _
  have hcall : opensCall (opening :: (ts ++ [closing] ++ rest)) = false :=
    opensCall_cons (by rw [hopening]; nofun)
  have hclose : opensCall (closing :: rest) = false := opensCall_cons (by rw [hclosing]; nofun)
  rw [used_ref, List.cons_append, List.cons_append, usesFrom_name hname,
    usesFrom_openBracket hopening, List.append_assoc, List.singleton_append, List.map_append,
    h _ hclose, usesFrom_closeBracket hclosing, use?, if_neg Bool.false_ne_true,
    if_neg (by simpa using hcall)]
  rfl

/-- A call, of which the name may tell a reduction. -/
theorem carries_call {name : Token} (hname : name.kind = .name)
    (hopening : opening.kind = .openParen) (hclosing : closing.kind = .closeParen)
    (h : Carries false ts xs) : Carries false (name :: opening :: (ts ++ [closing]))
      ((reductionName? name.text).toList.map (fun p => (.reduction, p.2)) ++ xs) := by
  intro rest hrest
  have hbetween := h.between hopening hclosing rest hrest
  have hcall : opensCall (opening :: (ts ++ [closing]) ++ rest) = true := by
    rw [List.cons_append, opensCall, hopening]
  rw [List.cons_append, usesFrom_name hname, List.map_append, hbetween, use?,
    if_neg Bool.false_ne_true, if_pos hcall, List.append_assoc]
  cases reductionName? name.text <;> rfl

/-- The tokens of an expression hold what a walk through it finds, in the same order. -/
theorem Derives.carries (h : Derives category ts e) : Carries false ts e.used := by
  induction h with
  | product _ ih | power _ ih | signed _ ih | operand _ ih => exact ih
  | added hop _ _ _ ihleft ihright => exact carries_binary hop ihleft ihright
  | multiplied hop _ _ _ ihleft ihright => exact carries_binary hop ihleft ihright
  | raised hop _ _ ihbase ihexponent => exact carries_binary hop ihbase ihexponent
  | plus hop _ ih => exact ih.cons (by rw [hop]; rfl)
  | minus hop _ ih =>
    rw [used_negate]
    exact ih.cons (by rw [hop]; rfl)
  | number hkind =>
    rw [used_literal]
    exact carries_silent (by rw [hkind]; rfl)
  | name hkind =>
    intro rest hrest
    rw [used_ref, List.singleton_append, usesFrom_name hkind, use?, if_neg Bool.false_ne_true,
      if_neg (by simpa using hrest)]
    rfl
  | @indexed _ _ _ _ parts hname hopening hclosing hlisted hparts =>
    refine carries_indexed hname hopening hclosing ?_
    have hlist := hlisted.carries (fun p => (Part.use? (.index p.2)).toList)
      fun p hp => (hparts p hp).carries
    rw [← List.filterMap_eq_flatMap_toList] at hlist
    rw [List.filterMap_map]
    exact hlist
  | parenthesized hopening hclosing _ ih => exact ih.between hopening hclosing
  | reduction hname hopening hclosing htext _ _ ih =>
    have hcall := carries_call hname hopening hclosing ih
    rw [reductionName?_eq_some.mpr htext] at hcall
    rw [used_reduction]
    exact hcall
  | @call _ _ _ _ function parts hname hopening hclosing htext _ hlisted _ ih =>
    have hcall := carries_call hname hopening hclosing (hlisted.carries (fun p => p.2.used) ih)
    rw [htext, reductionName?_builtin] at hcall
    rw [used_call, List.flatMap_map]
    exact hcall

end

/-! ## Symbols by their roles -/

/-- The symbols that are used in a role. -/
def ofRole (role : Role) (xs : List (Role × String)) : List String :=
  xs.filterMap fun (r, symbol) => if r = role then some symbol else none

section

variable {role : Role} {xs ys : List (Role × String)}

theorem ofRole_append : ofRole role (xs ++ ys) = ofRole role xs ++ ofRole role ys :=
  List.filterMap_append

theorem ofRole_flatMap {α : Type} {f : α → List (Role × String)} {as : List α} :
    ofRole role (as.flatMap f) = as.flatMap fun a => ofRole role (f a) :=
  List.filterMap_flatMap

theorem ofRole_used {f : Part → Option String} (e : Expr)
    (hf : ∀ p : Part, ofRole role p.use?.toList = (f p).toList) :
    ofRole role e.used = e.walk.filterMap f := by
  rw [used, List.filterMap_eq_flatMap_toList, List.filterMap_eq_flatMap_toList, ofRole_flatMap]
  exact List.flatMap_congr fun p _ => hf p

theorem names_eq (e : Expr) : e.names = firsts (ofRole .name e.used) := by
  refine congrArg firsts (ofRole_used e fun p => ?_).symm
  rcases p with ((_ | _ | _ | _ | _ | _) | (_ | _)) <;> rfl

theorem reductionSymbols_eq (e : Expr) :
    e.reductionSymbols = firsts (ofRole .reduction e.used) := by
  refine congrArg firsts (ofRole_used e fun p => ?_).symm
  rcases p with ((_ | _ | _ | _ | _ | _) | (_ | _)) <;> rfl

/-- The symbols in the index list of a reference. -/
def Part.indexNames : Part → List String
  | .expr (.ref _ indices _) => indices.filterMap Index.symbol?
  | _ => []

theorem ofRole_indices (indices : List Index) :
    ofRole .index (indices.filterMap fun i => Part.use? (.index i)) =
      indices.filterMap Index.symbol? := by
  unfold ofRole
  rw [List.filterMap_filterMap]
  refine congrArg (fun f => indices.filterMap f) (funext fun i => ?_)
  cases i <;> rfl

/-- The index lists of references hold the parts that a walk comes by right after the reference. -/
theorem flatMap_indexNames (e : Expr) :
    e.walk.flatMap Part.indexNames = ofRole .index e.used := by
  induction e with
  | literal value span =>
    rw [walk_literal, used_literal]
    rfl
  | ref name indices span =>
    have hnone : (indices.map Part.index).flatMap Part.indexNames = [] := by
      rw [List.flatMap_map]
      exact List.flatMap_eq_nil_iff.mpr fun _ _ => rfl
    rw [walk_ref, used_ref, List.flatMap_cons, hnone, List.append_nil]
    exact (ofRole_indices indices).symm
  | reduction fold symbol body span ih =>
    rw [walk_reduction, used_reduction, List.flatMap_cons, ih]
    rfl
  | call function args span ih =>
    rw [walk_call, used_call, List.flatMap_cons, List.flatMap_assoc, List.flatMap_congr ih,
      ofRole_flatMap]
    rfl
  | binary op left right span ihl ihr =>
    rw [walk_binary, used_binary, List.flatMap_cons, List.flatMap_append, ihl, ihr, ofRole_append]
    rfl
  | negate operand span ih =>
    rw [walk_negate, used_negate, List.flatMap_cons, ih]
    rfl

theorem indexSymbols_eq (e : Expr) : e.indexSymbols = firsts (ofRole .index e.used) := by
  rw [← flatMap_indexNames]
  rfl

end

/-! ## First uses -/

theorem firsts_append_singleton (items : List String) (s : String) :
    firsts (items ++ [s]) = insertLast (firsts items) s := by
  unfold firsts
  rw [List.foldl_append]
  rfl

theorem nodup_firsts (items : List String) : (firsts items).Nodup := by
  induction items using List.reverseRecOn with
  | nil => exact .nil
  | append_singleton items s ih =>
    rw [firsts_append_singleton, insertLast]
    split
    · exact ih
    · rename_i hs
      exact List.nodup_append_comm.mp (List.nodup_cons.mpr ⟨hs, ih⟩)

/-- One symbol is used before another one is used at all. -/
def Precedes (us : List Use) (s s' : String) : Prop :=
  ∃ u ∈ us, u.symbol = s ∧ ∀ v ∈ us, v.symbol = s' → u.span.start < v.span.start

section

variable {us : List Use} {u : Use} {s s' : String}

/-- A later use changes nothing about what precedes what. -/
theorem Precedes.append (h : Precedes us s s') (hu : ∀ v ∈ us, v.span.start < u.span.start) :
    Precedes (us ++ [u]) s s' := by
  obtain ⟨v, hv, hs, hfirst⟩ := h
  refine ⟨v, List.mem_append_left _ hv, hs, fun w hw hw' => ?_⟩
  rcases List.mem_append.mp hw with hw | hw
  · exact hfirst w hw hw'
  · obtain rfl := List.mem_singleton.mp hw
    exact hu v hv

/-- A symbol that is used for the first time comes after all others. -/
theorem precedes_new (hs : s ∈ us.map Use.symbol) (hnew : u.symbol ∉ us.map Use.symbol)
    (hu : ∀ v ∈ us, v.span.start < u.span.start) : Precedes (us ++ [u]) s u.symbol := by
  obtain ⟨v, hv, rfl⟩ := List.mem_map.mp hs
  refine ⟨v, List.mem_append_left _ hv, rfl, fun w hw hw' => ?_⟩
  rcases List.mem_append.mp hw with hw | hw
  · exact absurd (List.mem_map.mpr ⟨w, hw, hw'⟩) hnew
  · obtain rfl := List.mem_singleton.mp hw
    exact hu v hv

theorem pairwise_firsts (h : us.Pairwise fun u v => u.span.start < v.span.start) :
    (firsts (us.map Use.symbol)).Pairwise (Precedes us) := by
  induction us using List.reverseRecOn with
  | nil => exact .nil
  | append_singleton us u ih =>
    obtain ⟨hus, -, hlater⟩ := List.pairwise_append.mp h
    have hu : ∀ v ∈ us, v.span.start < u.span.start := fun v hv =>
      hlater v hv u (List.mem_singleton_self u)
    have hbefore := (ih hus).imp fun hprecedes => hprecedes.append hu
    rw [List.map_append, List.map_singleton, firsts_append_singleton, insertLast]
    split
    · exact hbefore
    · rename_i hnew
      rw [mem_firsts] at hnew
      refine List.pairwise_append.mpr ⟨hbefore, List.pairwise_singleton _ _, ?_⟩
      intro s hs s' hs'
      obtain rfl := List.mem_singleton.mp hs'
      exact precedes_new (mem_firsts.mp hs) hnew hu

end

/-- Some symbols are those that are used in a role, each once, in the order of their first uses. -/
structure Lists (role : Role) (us : List Use) (symbols : List String) : Prop where
  nodup : symbols.Nodup
  mem : ∀ s, s ∈ symbols ↔ ∃ u ∈ us, u.role = role ∧ u.symbol = s
  ordered : symbols.Pairwise (Precedes (us.filter (·.role = role)))

theorem ofRole_entries (role : Role) (us : List Use) :
    ofRole role (us.map Use.entry) = (us.filter (·.role = role)).map Use.symbol := by
  unfold ofRole
  rw [List.filterMap_map, ← List.filterMap_eq_map, List.filterMap_filter]
  refine congrArg (fun f => us.filterMap f) (funext fun u => ?_)
  by_cases hrole : u.role = role <;> simp [Use.entry, hrole]

theorem lists_firsts {us : List Use} (h : us.Pairwise fun u v => u.span.start < v.span.start)
    (role : Role) : Lists role us (firsts (ofRole role (us.map Use.entry))) := by
  rw [ofRole_entries]
  refine ⟨nodup_firsts _, fun s => ?_, pairwise_firsts (h.filter _)⟩
  simp [mem_firsts, and_assoc]

/-- Uses come in the order of the text. -/
theorem pairwise_uses {lo hi : ℕ} {ts : List Token} (h : Placed lo ts hi) :
    (uses ts).Pairwise fun u v => u.span.start < v.span.start := by
  have hwords : (ts.map Token.place).Pairwise fun s s' => s.start < s'.start := by
    refine List.pairwise_map.mpr (h.ordered.imp_of_mem fun {t u} ht _ hle => ?_)
    exact lt_of_lt_of_le (h.inside t ht).2.1 hle
  have hspans : ((uses ts).map Use.span).Pairwise fun s s' => s.start < s'.start :=
    hwords.sublist (spans_sublist false ts)
  rwa [List.pairwise_map] at hspans

/-- A walk through an expression is the loop on a stack and the recursion alike. It comes to an end,
and to each part once: to a part before those below it, and to these from left to right. -/
structure WalksInOrder (e : Expr) : Prop where
  steps : ∀ k, (turn^[k] [.expr e]).head? = e.walk[k]?
  ends : ∀ k, turn^[k] [.expr e] = [] ↔ e.size ≤ k
  recursion : e.walk = e.preorder
  places : ∃ places, InPlaces (Part.expr e).at? places e.walk

theorem walksInOrder (e : Expr) : WalksInOrder e where
  steps := head?_turns
  ends _ := turns_eq_nil_iff
  recursion := walk_eq_preorder e
  places := exists_places_walk e

end EnergyGraph.Expr

namespace EnergyGraph.Formula

open EnergyGraph.Expr

/-- Every expression is walked through in order. So the symbols of a formula, those of index lists,
those of reductions and the names of values, are listed each once, in the order in which its text
uses them first. -/
theorem symbols_in_source_order : (∀ e : Expr, WalksInOrder e) ∧
    ∀ text arity f, ofText text arity = .ok f → ∃ tokens,
      tokensFrom 0 text.toList = .ok tokens ∧ (∀ u ∈ uses tokens, u.Stands text) ∧
      Lists .index (uses tokens) f.body.indexSymbols ∧
      Lists .reduction (uses tokens) f.body.reductionSymbols ∧
      Lists .name (uses tokens) f.body.names := by
  refine ⟨walksInOrder, fun text arity f h => ?_⟩
  have hparse := parse_of_ofText h
  unfold parse at hparse
  dsimp only at hparse
  obtain ⟨tokens, htokens, hparse⟩ := bind_eq_ok.mp hparse
  have hderives : Derives .sum tokens f.body := ofTokens_eq_ok.mp (mapError_eq_ok.mp hparse)
  have hused : (uses tokens).map Use.entry = f.body.used := by
    have hcarries := hderives.carries [] rfl
    rw [List.append_nil] at hcarries
    exact hcarries.trans (List.append_nil _)
  have hcover := cover_tokensFrom htokens
  have hlists := lists_firsts (pairwise_uses (placed_text htokens))
  rw [hused] at hlists
  refine ⟨tokens, htokens, fun u hu => ?_, ?_, ?_, ?_⟩
  · obtain ⟨t, ht, inside, rest, huse⟩ := exists_use?_of_mem hu
    exact stands_of_use? huse (hcover.slices t ht).1
  · rw [indexSymbols_eq]
    exact hlists .index
  · rw [reductionSymbols_eq]
    exact hlists .reduction
  · rw [names_eq]
    exact hlists .name

/-- The product in `sum_j(y[j]*x[i,j])`. -/
def weighted : Expr :=
  .binary .mul (.ref "y" [.symbol "j" ⟨8, 9⟩] ⟨6, 10⟩)
    (.ref "x" [.symbol "i" ⟨13, 14⟩, .symbol "j" ⟨15, 16⟩] ⟨11, 17⟩) ⟨6, 17⟩

def weightedSum : Expr := .reduction .sum "j" weighted ⟨0, 18⟩

theorem ofText_weightedSum : ofText "sum_j(y[j]*x[i,j])" .unspecified =
    .ok ⟨"sum_j(y[j]*x[i,j])", weightedSum, .unspecified⟩ := by
  have hweighted : ofTokens 0 [⟨.name, "y", 6, 7⟩, ⟨.openBracket, "[", 7, 8⟩, ⟨.name, "j", 8, 9⟩,
      ⟨.closeBracket, "]", 9, 10⟩, ⟨.operator .mul, "*", 10, 11⟩, ⟨.name, "x", 11, 12⟩,
      ⟨.openBracket, "[", 12, 13⟩, ⟨.name, "i", 13, 14⟩, ⟨.comma, ",", 14, 15⟩,
      ⟨.name, "j", 15, 16⟩, ⟨.closeBracket, "]", 16, 17⟩] = .ok weighted := by cbv
  have hsum : Derives .operand (⟨.name, "sum_j", 0, 5⟩ :: ⟨.openParen, "(", 5, 6⟩ ::
      (_ ++ [⟨.closeParen, ")", 17, 18⟩])) weightedSum :=
    .reduction rfl rfl rfl rfl (by decide) (ofTokens_eq_ok.mp hweighted)
  exact ofText_unspecified
    (parse_of_derives (by with_unfolding_all rfl) (.product (.power (.signed (.operand hsum)))))

theorem symbols_weightedSum : weightedSum.indexSymbols = ["j", "i"] ∧
    weightedSum.reductionSymbols = ["j"] ∧ weightedSum.names = ["y", "x"] := by
  refine ⟨?_, ?_, ?_⟩ <;> cbv

/-- The symbols of a weighted sum: the array that comes first in the text is listed first, and so
is the index that it has. -/
theorem symbols_in_source_order_sum : weightedSum.walk = weightedSum.preorder ∧ ∃ tokens,
    tokensFrom 0 "sum_j(y[j]*x[i,j])".toList = .ok tokens ∧
    Lists .index (uses tokens) ["j", "i"] ∧ Lists .reduction (uses tokens) ["j"] ∧
    Lists .name (uses tokens) ["y", "x"] := by
  obtain ⟨hwalks, hsymbols⟩ := symbols_in_source_order
  obtain ⟨tokens, htokens, -, hlists⟩ := hsymbols _ _ _ ofText_weightedSum
  obtain ⟨hindices, hreductions, hnames⟩ := symbols_weightedSum
  rw [hindices, hreductions, hnames] at hlists
  exact ⟨(hwalks weightedSum).recursion, tokens, htokens, hlists⟩

end EnergyGraph.Formula
