-- Interactions with other symbols. A declaration that names its symbols itself resolves to
-- the same domain under other names, binds a term whose symbols were renamed along with it
-- just when it bound the term before, and lets the same indices through.
import EnergyGraph.Proofs.Enumeration
import EnergyGraph.Proofs.RenamedSymbols

namespace EnergyGraph

/-! ## Declarations and interactions with other symbols -/

/-- Ranges that stand under the names of symbols stand under the new names. -/
def Value.renameKeys (σ : String → String) : Value → Value
  | .object members => .object (members.map fun m => (σ m.1, m.2))
  | v => v

/-- Of the fields of a declaration only the ranges tell symbols. -/
def Value.renameField (σ : String → String) (key : String) (v : Value) : Value :=
  if key = "ranges" then v.renameKeys σ else v

def InteractionDecl.rename (σ : String → String) (d : InteractionDecl) : InteractionDecl :=
  { d with
    bind := d.bind.map (List.map σ)
    spec := d.spec.map fun m => (m.1, m.2.renameField σ m.1) }

def Interaction.rename (σ : String → String) (i : Interaction) : Interaction :=
  { i with symbols := i.symbols.map σ }

def TermDecl.rename (σ : String → String) (t : TermDecl) : TermDecl :=
  { t with expr := t.expr.map (·.rename σ), args := t.args.map (·.rename σ) }

def Binding.rename (σ : String → String) (b : Binding) : Binding :=
  ⟨b.free.map σ, b.reductions.map σ, b.aggregator⟩

/-- The same fault, told of the new names. -/
def Binding.Fault.rename (σ : String → String) : Fault → Fault
  | .unboundIndex symbol bound => .unboundIndex (σ symbol) (bound.map σ)
  | .unboundReduction symbol => .unboundReduction (σ symbol)
  | .notReducible symbol kind => .notReducible (σ symbol) kind
  | .freeAndReduced symbol => .freeAndReduced (σ symbol)
  | .unused symbols bound used => .unused (symbols.map σ) (bound.map σ) (used.map σ)
  | .freeMember symbol => .freeMember (σ symbol)
  | f => f

theorem Binding.Fault.code_rename {σ : String → String} (f : Fault) :
    (f.rename σ).code = f.code := by
  cases f <;> rfl

theorem Interaction.symbols_rename {σ : String → String} (i : Interaction) :
    (i.rename σ).symbols = i.symbols.map σ := rfl

theorem Interaction.kind_rename {σ : String → String} (i : Interaction) :
    (i.rename σ).kind = i.kind := rfl

theorem TermDecl.formulas_rename (σ : String → String) (t : TermDecl) :
    (t.rename σ).formulas = t.formulas.map (·.rename σ) := by
  unfold formulas rename
  dsimp only
  split
  · rfl
  · cases t.expr <;> rfl

/-! ## Resolution -/

theorem lookup_map_keyed {β γ : Type} (f : String → β → γ) (l : List (String × β)) (key : String) :
    (l.map fun p => (p.1, f p.1 p.2)).lookup key = (l.lookup key).map (f key) := by
  induction l with
  | nil => rfl
  | cons p rest ih =>
    rw [List.map_cons, List.lookup_cons, List.lookup_cons]
    cases h : key == p.1 with
    | true => rw [eq_of_beq h]; rfl
    | false => exact ih

namespace Interaction

variable {σ : String → String} {s : Surroundings} {d : InteractionDecl}
  {symbols names : List String} {domain : Domain}

theorem get?_ranges_rename : Object.get? (d.rename σ).spec "ranges" =
    (Object.get? d.spec "ranges").map (Value.renameKeys σ) := by
  have hsame : Value.renameField σ "ranges" = Value.renameKeys σ := funext fun v => if_pos rfl
  rw [← hsame]
  exact lookup_map_keyed (Value.renameField σ) d.spec "ranges"

theorem get?_rename {key : String} (h : key ≠ "ranges") :
    Object.get? (d.rename σ).spec key = Object.get? d.spec key := by
  have hsame : Value.renameField σ key = fun v => v := funext fun v => if_neg h
  refine (lookup_map_keyed (Value.renameField σ) d.spec key).trans ?_
  rw [hsame]
  exact Option.map_id'

theorem contains_rename {key : String} (h : key ≠ "ranges") :
    Object.contains (d.rename σ).spec key = Object.contains d.spec key :=
  congrArg Option.isSome (get?_rename h)

theorem delivery_rename {fields : List String} (h : ∀ field ∈ fields, field ≠ "ranges") :
    delivery s (d.rename σ) fields = delivery s d fields := by
  have hfields : fields.findSome? (Object.get? (d.rename σ).spec) =
      fields.findSome? (Object.get? d.spec) := by
    induction fields with
    | nil => rfl
    | cons field rest ih =>
      rw [List.forall_mem_cons] at h
      rw [List.findSome?_cons, List.findSome?_cons, get?_rename h.1, ih h.2]
  have hsource : Object.get? (d.rename σ).spec "source" = Object.get? d.spec "source" :=
    get?_rename (by decide)
  unfold delivery
  rw [hfields, hsource]
  rfl

theorem matrix_rename : matrix s (d.rename σ) = matrix s d := by
  have hfactor : Object.get? (d.rename σ).spec "factor" = Object.get? d.spec "factor" :=
    get?_rename (by decide)
  have hletter : Object.get? (d.rename σ).spec "U" = Object.get? d.spec "U" :=
    get?_rename (by decide)
  have hdelivery : delivery s (d.rename σ) [] = delivery s d [] := delivery_rename (by decide)
  unfold matrix
  rw [hfactor, hletter, hdelivery]
  rfl

theorem checkWidth_rename {id : String} {width : Nat} {u : Unit}
    (h : checkWidth id symbols width = .ok u) : checkWidth id (symbols.map σ) width = .ok u := by
  unfold checkWidth
  rw [List.length_map, if_pos (length_of_checkWidth h)]

section

variable (hbind : d.bind = some symbols)

include hbind

theorem bind_rename : (d.rename σ).bind = some (symbols.map σ) := by
  rw [InteractionDecl.rename, hbind]
  rfl

theorem symbolsOr_eq (usual : List String) : symbolsOr d usual = symbols := by
  rw [symbolsOr, hbind]
  rfl

theorem symbolsOr_rename (usual : List String) : symbolsOr (d.rename σ) usual = symbols.map σ :=
  symbolsOr_eq (bind_rename hbind) usual

theorem tupleSymbols_eq (width : Nat) : tupleSymbols d width = .ok symbols := by
  unfold tupleSymbols
  rw [hbind]

theorem resolveNone_rename (h : resolveNone d = .ok (names, domain)) :
    names = symbols ∧ resolveNone (d.rename σ) = .ok (symbols.map σ, domain) := by
  unfold resolveNone at h ⊢
  rw [symbolsOr_rename hbind, List.isEmpty_map]
  rw [symbolsOr_eq hbind] at h
  split at h
  · rename_i hnone
    cases h
    rw [if_pos hnone, List.isEmpty_iff.mp hnone]
    exact ⟨rfl, rfl⟩
  · cases h

end

/-! ## Ranges -/

theorem ofText_place {source : String} {parameters : Numbers} {place : List String}
    {what : String} {x : Float}
    (h : Constant.ofText source parameters place what = .ok x) (place' : List String) :
    Constant.ofText source parameters place' what = .ok x := by
  unfold Constant.ofText at h ⊢
  obtain ⟨f, hf, h⟩ := bind_eq_ok.mp h
  refine bind_eq_ok.mpr ⟨f, mapError_eq_ok.mpr (mapError_eq_ok.mp hf), ?_⟩
  dsimp only at h ⊢
  split at h
  · cases h
  · rename_i hconstant
    rw [if_neg hconstant]
    split at h
    · exact h
    all_goals cases h

theorem number_place {raw : Value} {parameters : Numbers} {place : List String} {what : String}
    {n : Number} (h : Constant.number raw parameters place what = .ok n) (place' : List String) :
    Constant.number raw parameters place' what = .ok n := by
  unfold Constant.number at h ⊢
  split at h
  · cases h
  · exact h
  · exact h
  · split at h
    · exact h
    · obtain ⟨x, hx, h⟩ := bind_eq_ok.mp h
      exact bind_eq_ok.mpr ⟨x, ofText_place hx place', h⟩
  · cases h

theorem integer_place {raw : Value} {parameters : Numbers} {place : List String} {what : String}
    {n : Int} (h : Constant.integer raw parameters place what = .ok n) (place' : List String) :
    Constant.integer raw parameters place' what = .ok n := by
  unfold Constant.integer at h ⊢
  obtain ⟨m, hm, h⟩ := bind_eq_ok.mp h
  refine bind_eq_ok.mpr ⟨m, number_place hm place', ?_⟩
  cases m with
  | int k => exact h
  | float x =>
    dsimp only at h ⊢
    split at h
    · cases h
    · split at h
      · cases h
      · rename_i hfinite hintegral
        rw [if_neg hfinite, if_neg hintegral]
        exact h

/-- Where a range stands is told of its mistakes only. -/
theorem range_place {id : String} {raw : Value} {place : List String} {r : Range}
    (h : range s id raw place = .ok r) (place' : List String) :
    range s id raw place' = .ok r := by
  unfold range at h ⊢
  split at h
  · obtain ⟨low, hlow, h⟩ := bind_eq_ok.mp h
    obtain ⟨high, hhigh, h⟩ := bind_eq_ok.mp h
    refine bind_eq_ok.mpr ⟨low, integer_place hlow _, ?_⟩
    exact bind_eq_ok.mpr ⟨high, integer_place hhigh _, h⟩
  · cases h

theorem sameSymbols_rename {a b : List String} (h : sameSymbols a b = true) :
    sameSymbols (a.map σ) (b.map σ) = true := by
  simp only [sameSymbols, Bool.and_eq_true, List.all_eq_true, decide_eq_true_eq,
    List.forall_mem_map] at h ⊢
  exact ⟨fun s hs => List.mem_map_of_mem (h.1 s hs), fun s hs => List.mem_map_of_mem (h.2 s hs)⟩

section

variable (hbind : d.bind = some symbols)

include hbind

/-- Each symbol finds its range under the new name. -/
theorem namedRanges_rename {members : Object} {ranges : List Range}
    (hσ : ∀ a ∈ symbols, ∀ b ∈ symbols, σ a = σ b → a = b)
    (h : namedRanges s d members = .ok (names, ranges)) :
    names = symbols ∧ namedRanges s (d.rename σ) (members.map fun m => (σ m.1, m.2)) =
      .ok (symbols.map σ, ranges) := by
  have hnames : Object.names (members.map fun m => (σ m.1, m.2)) =
      (Object.names members).map σ := by
    unfold Object.names
    rw [List.map_map, List.map_map]
    rfl
  unfold namedRanges at h ⊢
  dsimp only at h ⊢
  rw [symbolsOr_eq hbind] at h
  rw [symbolsOr_rename hbind, hnames]
  split at h
  · rename_i hsame
    rw [if_pos (sameSymbols_rename hsame)]
    obtain ⟨found, hfound, h⟩ := bind_eq_ok.mp h
    cases h
    refine ⟨rfl, bind_eq_ok.mpr ⟨ranges, ?_, rfl⟩⟩
    refine mapM_eq_ok.mpr (List.forall₂_map_left_iff.mpr ?_)
    obtain ⟨hlength, hpairs⟩ := List.forall₂_iff_zip.mp (mapM_eq_ok.mp hfound)
    refine List.forall₂_iff_zip.mpr ⟨hlength, fun {symbol r} hpair => ?_⟩
    have hkey : ∀ p ∈ members, p.1 ∈ symbols := by
      intro p hp
      simp only [sameSymbols, Bool.and_eq_true, List.all_eq_true, decide_eq_true_eq] at hsame
      exact hsame.2 p.1 (List.mem_map_of_mem hp)
    have hlookup : Object.get? (members.map fun m => (σ m.1, m.2)) (σ symbol) =
        Object.get? members symbol :=
      Expr.lookup_rename_of fun p hp => hσ p.1 (hkey p hp) symbol (List.of_mem_zip hpair).1
    rw [hlookup]
    exact range_place (hpairs hpair) _
  · cases h

theorem listedRanges_rename {items : List Value} {ranges : List Range}
    (h : listedRanges s d items = .ok (names, ranges)) :
    names = symbols ∧ listedRanges s (d.rename σ) items = .ok (symbols.map σ, ranges) := by
  unfold listedRanges at h ⊢
  dsimp only at h ⊢
  rw [symbolsOr_eq hbind] at h
  rw [symbolsOr_rename hbind]
  obtain ⟨u, hwidth, h⟩ := bind_eq_ok.mp h
  obtain ⟨found, hfound, h⟩ := bind_eq_ok.mp h
  cases h
  refine ⟨rfl, bind_eq_ok.mpr ⟨u, checkWidth_rename hwidth, ?_⟩⟩
  exact bind_eq_ok.mpr ⟨ranges, hfound, rfl⟩

theorem resolveRanges_rename (hσ : ∀ a ∈ symbols, ∀ b ∈ symbols, σ a = σ b → a = b)
    (h : resolveRanges s d = .ok (names, domain)) :
    names = symbols ∧ resolveRanges s (d.rename σ) = .ok (symbols.map σ, domain) := by
  have hrange : Object.get? (d.rename σ).spec "range" = Object.get? d.spec "range" :=
    get?_rename (by decide)
  unfold resolveRanges at h ⊢
  rw [get?_ranges_rename, hrange]
  split at h
  · rename_i members hmembers
    rw [hmembers]
    obtain ⟨⟨found, ranges⟩, hfound, h⟩ := bind_eq_ok.mp h
    cases h
    obtain ⟨hnames, hrenamed⟩ := namedRanges_rename hbind hσ hfound
    exact ⟨hnames, bind_eq_ok.mpr ⟨_, hrenamed, rfl⟩⟩
  · rename_i items hitems
    rw [hitems]
    obtain ⟨⟨found, ranges⟩, hfound, h⟩ := bind_eq_ok.mp h
    cases h
    obtain ⟨hnames, hrenamed⟩ := listedRanges_rename hbind hfound
    exact ⟨hnames, bind_eq_ok.mpr ⟨_, hrenamed, rfl⟩⟩
  · cases h
  · rename_i hnone
    rw [hnone]
    dsimp only [Option.map_none]
    split at h
    · obtain ⟨r, hr, h⟩ := bind_eq_ok.mp h
      cases h
      refine ⟨symbolsOr_eq hbind _, bind_eq_ok.mpr ⟨r, range_place hr _, ?_⟩⟩
      rw [symbolsOr_eq hbind, symbolsOr_rename hbind, List.map_map]
      rfl
    · cases h

/-! ## All kinds -/

theorem resolveTuples_rename (h : resolveTuples s d = .ok (names, domain)) :
    names = symbols ∧ resolveTuples s (d.rename σ) = .ok (symbols.map σ, domain) := by
  have hdelivery : delivery s (d.rename σ) ["pairs", "tuples"] = delivery s d ["pairs", "tuples"] :=
    delivery_rename (by decide)
  have hcommon : ∀ items, commonWidth (d.rename σ) items = commonWidth d items := by
    intro items
    unfold commonWidth
    rw [symbolsOr_eq hbind, symbolsOr_rename hbind, List.length_map]
    rfl
  unfold resolveTuples at h ⊢
  simp only [hdelivery, hcommon, tupleSymbols_eq hbind, tupleSymbols_eq (bind_rename hbind)] at h ⊢
  obtain ⟨delivered, hdelivered, h⟩ := bind_eq_ok.mp h
  obtain ⟨found, hfound, h⟩ := bind_eq_ok.mp h
  obtain ⟨items, hitems, h⟩ := bind_eq_ok.mp h
  obtain ⟨width, hwidth, h⟩ := bind_eq_ok.mp h
  rw [ok_bind] at h
  obtain ⟨u, hcheck, h⟩ := bind_eq_ok.mp h
  cases h
  refine ⟨rfl, bind_eq_ok.mpr ⟨delivered, hdelivered, bind_eq_ok.mpr ⟨found, hfound, ?_⟩⟩⟩
  refine bind_eq_ok.mpr ⟨items, hitems, bind_eq_ok.mpr ⟨width, hwidth, ?_⟩⟩
  rw [ok_bind]
  exact bind_eq_ok.mpr ⟨u, checkWidth_rename hcheck, rfl⟩

theorem resolveGroups_rename (h : resolveGroups s d = .ok (names, domain)) :
    names = symbols ∧ resolveGroups s (d.rename σ) = .ok (symbols.map σ, domain) := by
  have hdelivery : delivery s (d.rename σ) ["groups", "members"] =
      delivery s d ["groups", "members"] := delivery_rename (by decide)
  unfold resolveGroups at h ⊢
  simp only [hdelivery, symbolsOr_eq hbind, symbolsOr_rename hbind] at h ⊢
  obtain ⟨delivered, hdelivered, h⟩ := bind_eq_ok.mp h
  obtain ⟨found, hfound, h⟩ := bind_eq_ok.mp h
  obtain ⟨groups, hgroups, h⟩ := bind_eq_ok.mp h
  obtain ⟨u, hcheck, h⟩ := bind_eq_ok.mp h
  cases h
  refine ⟨rfl, bind_eq_ok.mpr ⟨delivered, hdelivered, bind_eq_ok.mpr ⟨found, hfound, ?_⟩⟩⟩
  exact bind_eq_ok.mpr ⟨groups, hgroups, bind_eq_ok.mpr ⟨u, checkWidth_rename hcheck, rfl⟩⟩

theorem resolveGrid_rename (h : resolveGrid s d = .ok (names, domain)) :
    names = symbols ∧ resolveGrid s (d.rename σ) = .ok (symbols.map σ, domain) := by
  have hconnectivity : Object.get? (d.rename σ).spec "connectivity" =
      Object.get? d.spec "connectivity" := get?_rename (by decide)
  have haxes : axisValues (d.rename σ) = axisValues d := by
    have hdims : Object.get? (d.rename σ).spec "dims" = Object.get? d.spec "dims" :=
      get?_rename (by decide)
    have hshape : Object.get? (d.rename σ).spec "shape" = Object.get? d.spec "shape" :=
      get?_rename (by decide)
    unfold axisValues
    rw [hdims, hshape]
    rfl
  unfold resolveGrid at h ⊢
  simp only [haxes, hconnectivity, symbolsOr_eq hbind, symbolsOr_rename hbind] at h ⊢
  obtain ⟨items, hitems, h⟩ := bind_eq_ok.mp h
  obtain ⟨dims, hdims, h⟩ := bind_eq_ok.mp h
  split at h
  · cases h
  · rename_i hgood
    split at h
    · cases h
    · rename_i hconnected
      obtain ⟨u, hcheck, h⟩ := bind_eq_ok.mp h
      cases h
      refine ⟨rfl, bind_eq_ok.mpr ⟨items, hitems, bind_eq_ok.mpr ⟨dims, hdims, ?_⟩⟩⟩
      simp only [if_neg hgood, hconnected]
      exact bind_eq_ok.mpr ⟨u, checkWidth_rename hcheck, rfl⟩

theorem resolveFactor_rename (h : resolveFactor s d = .ok (names, domain)) :
    names = symbols ∧ resolveFactor s (d.rename σ) = .ok (symbols.map σ, domain) := by
  have hany : ["factor", "source", "U"].any (Object.contains (d.rename σ).spec) =
      ["factor", "source", "U"].any (Object.contains d.spec) := by
    simp only [List.any_cons, List.any_nil, contains_rename (show "factor" ≠ "ranges" by decide),
      contains_rename (show "source" ≠ "ranges" by decide),
      contains_rename (show "U" ≠ "ranges" by decide)]
  unfold resolveFactor at h ⊢
  simp only [hany, matrix_rename, symbolsOr_eq hbind, symbolsOr_rename hbind] at h ⊢
  split at h
  · cases h
  · rename_i hhas
    obtain ⟨u, hu, h⟩ := bind_eq_ok.mp h
    split at h
    · cases h
    · rename_i hrank
      obtain ⟨w, hcheck, h⟩ := bind_eq_ok.mp h
      cases h
      rw [if_neg hhas]
      refine ⟨rfl, bind_eq_ok.mpr ⟨u, hu, ?_⟩⟩
      rw [if_neg hrank]
      exact bind_eq_ok.mpr ⟨w, checkWidth_rename hcheck, rfl⟩

/-- A declaration that names its symbols binds these, and has the same domain under other names. -/
theorem resolve_rename {i : Interaction} (hσ : ∀ a ∈ symbols, ∀ b ∈ symbols, σ a = σ b → a = b)
    (h : resolve s d = .ok i) :
    i.symbols = symbols ∧ resolve s (d.rename σ) = .ok (i.rename σ) := by
  have hkind : (d.rename σ).kind = d.kind := rfl
  unfold resolve at h
  obtain ⟨⟨names, domain⟩, hdomain, h⟩ := bind_eq_ok.mp h
  cases h
  rw [mapError_eq_ok] at hdomain
  have hresolved : names = symbols ∧
      resolveDomain s (d.rename σ) = .ok (symbols.map σ, domain) := by
    unfold resolveDomain at hdomain ⊢
    rw [hkind]
    split at hdomain
    · exact resolveNone_rename hbind hdomain
    · exact resolveRanges_rename hbind hσ hdomain
    · exact resolveTuples_rename hbind hdomain
    · exact resolveGroups_rename hbind hdomain
    · exact resolveGrid_rename hbind hdomain
    · exact resolveFactor_rename hbind hdomain
  obtain ⟨rfl, hrenamed⟩ := hresolved
  exact ⟨rfl, bind_eq_ok.mpr ⟨_, mapError_eq_ok.mpr hrenamed, rfl⟩⟩

end

end Interaction

/-! ## Binding -/

namespace Binding

variable {σ : String → String} {u : Usage} {bound : List String} {i : Interaction}
  {aggregator : Option (Aggregator Float)}

theorem checkArity_rename (u : Usage) (arity : Arity) :
    checkArity (u.rename σ) arity = (checkArity u arity).mapError (Fault.rename σ) := by
  unfold checkArity Usage.rename
  simp only [List.length_map]
  cases arity with
  | count n =>
    dsimp only
    split <;> rfl
  | _ => rfl

theorem checkLowRank_rename (compat : List String) (i : Interaction)
    (aggregator : Option (Aggregator Float)) : checkLowRank compat (i.rename σ) aggregator =
      (checkLowRank compat i aggregator).mapError (Fault.rename σ) := by
  unfold checkLowRank
  rw [Interaction.kind_rename]
  split
  · rfl
  · split
    · rfl
    · cases aggregator with
      | none => rfl
      | some a =>
        dsimp only
        split <;> rfl

theorem aggregatorFor_rename (i : Interaction) (declared : Option (Aggregator Float)) :
    aggregatorFor (i.rename σ) declared =
      (aggregatorFor i declared).mapError (Fault.rename σ) := by
  unfold aggregatorFor
  rw [Interaction.kind_rename]
  split <;> rfl

/-- In a group there is one symbol. -/
theorem checkMembers_rename (u : Usage) (hfits : i.domain.Fits i.symbols) :
    checkMembers (u.rename σ) (i.rename σ) = (checkMembers u i).mapError (Fault.rename σ) := by
  have hfree : (u.rename σ).free ≠ [] ↔ u.free ≠ [] := by simp [Usage.rename]
  unfold checkMembers
  simp only [Interaction.kind_rename, hfree]
  split
  · rename_i hgroups
    cases hdomain : i.domain with
    | groups members =>
      rw [hdomain] at hfits
      obtain ⟨symbol, hsymbol⟩ := List.length_eq_one_iff.mp hfits
      rw [Interaction.symbols_rename, hsymbol]
      rfl
    | _ =>
      rw [Interaction.kind, hdomain] at hgroups
      cases hgroups.1
  · rfl

section

variable (hσ : Function.Injective σ)

include hσ

theorem checkFree_rename (u : Usage) (bound : List String) :
    checkFree (u.rename σ) (bound.map σ) = (checkFree u bound).mapError (Fault.rename σ) := by
  have hfind : (u.rename σ).free.find? (· ∉ bound.map σ) = (u.free.find? (· ∉ bound)).map σ := by
    unfold Usage.rename
    dsimp only
    rw [List.find?_map]
    refine congrArg (fun p => Option.map σ (List.find? p u.free)) (funext fun s => ?_)
    simp only [Function.comp_apply, List.mem_map_of_injective hσ]
  unfold checkFree
  rw [hfind]
  cases u.free.find? (· ∉ bound) <;> rfl

theorem checkReduction_rename (u : Usage) (i : Interaction) (symbol : String) :
    checkReduction (u.rename σ) (i.rename σ) (σ symbol) =
      (checkReduction u i symbol).mapError (Fault.rename σ) := by
  unfold checkReduction
  simp only [Interaction.kind_rename, Interaction.symbols_rename, Usage.rename,
    List.mem_map_of_injective hσ]
  split
  · rfl
  · split
    · rfl
    · split <;> rfl

theorem checkReductions_rename (u : Usage) (i : Interaction) (symbols : List String) :
    (symbols.map σ).forM (checkReduction (u.rename σ) (i.rename σ)) =
      (symbols.forM (checkReduction u i)).mapError (Fault.rename σ) := by
  induction symbols with
  | nil => rfl
  | cons symbol rest ih =>
    rw [List.map_cons]
    change (checkReduction (u.rename σ) (i.rename σ) (σ symbol) >>= fun _ => _) = _
    rw [checkReduction_rename hσ]
    exact mapError_bind fun _ => ih

theorem checkUnused_rename (u : Usage) (bound : List String) :
    checkUnused (u.rename σ) (bound.map σ) = (checkUnused u bound).mapError (Fault.rename σ) := by
  have hfilter : (bound.map σ).filter
      (fun s => s ∉ (u.rename σ).free ∧ s ∉ (u.rename σ).reductions) =
        (bound.filter fun s => s ∉ u.free ∧ s ∉ u.reductions).map σ := by
    rw [List.filter_map]
    refine congrArg (fun p => List.map σ (List.filter p bound)) (funext fun s => ?_)
    simp only [Function.comp_apply, Usage.rename, List.mem_map_of_injective hσ]
  unfold checkUnused
  rw [hfilter]
  cases bound.filter fun s => s ∉ u.free ∧ s ∉ u.reductions with
  | nil => rfl
  | cons symbol rest =>
    simp only [List.map_cons, Except.mapError, Fault.rename, Usage.rename, List.map_append]

theorem filter_free_rename (u : Usage) (symbols : List String) :
    (symbols.map σ).filter (· ∈ (u.rename σ).free) = (symbols.filter (· ∈ u.free)).map σ := by
  rw [List.filter_map]
  refine congrArg (fun p => List.map σ (List.filter p symbols)) (funext fun s => ?_)
  simp only [Function.comp_apply, Usage.rename, List.mem_map_of_injective hσ]

/-- A term is bound under other names just when it is bound, and then its symbols have the new
names in the same roles; a fault is the same fault of the new names. -/
theorem bind_rename (hfits : i.domain.Fits i.symbols) (exprs : List Expr) (arity : Arity)
    (compat : List String) :
    bind (exprs.map (·.rename σ)) arity compat (i.rename σ) aggregator =
      ((bind exprs arity compat i aggregator).map (·.rename σ)).mapError (Fault.rename σ) := by
  have husage : Usage.ofExprs (exprs.map (·.rename σ)) (i.rename σ).symbols =
      (Usage.ofExprs exprs i.symbols).rename σ := Usage.ofExprs_rename hσ exprs i.symbols
  unfold bind
  dsimp only
  rw [husage]
  generalize Usage.ofExprs exprs i.symbols = u
  have hreductions : (u.rename σ).reductions = u.reductions.map σ := rfl
  rw [Interaction.symbols_rename, hreductions, checkFree_rename hσ, checkReductions_rename hσ,
    checkUnused_rename hσ, checkMembers_rename u hfits, checkArity_rename, checkLowRank_rename,
    aggregatorFor_rename, filter_free_rename hσ]
  cases checkFree u i.symbols with
  | error f => rfl
  | ok =>
  cases u.reductions.forM (checkReduction u i) with
  | error f => rfl
  | ok =>
  cases checkUnused u i.symbols with
  | error f => rfl
  | ok =>
  cases checkMembers u i with
  | error f => rfl
  | ok =>
  cases checkArity u arity with
  | error f => rfl
  | ok =>
  cases checkLowRank compat i aggregator with
  | error f => rfl
  | ok => cases aggregatorFor i aggregator <;> rfl

end

end Binding

/-! ## Bounds -/

namespace Interaction

/-- The extents of symbols stand under their new names. -/
theorem extents_rename (σ : String → String) (i : Interaction) :
    (i.rename σ).extents = i.extents.map fun p => (σ p.1, p.2) := by
  have hnamed : ∀ {ι κ : Type} (xs : List ι) (ys : List κ) (move : ι → κ) (symbol : ι → String)
      (symbol' : κ → String) (o : ι → Option (Int × Int)) (o' : κ → Option (Int × Int)),
      ys = xs.map move → (∀ x ∈ xs, symbol' (move x) = σ (symbol x) ∧ o' (move x) = o x) →
      ys.flatMap (fun y => named (symbol' y) (o' y)) =
        (xs.flatMap fun x => named (symbol x) (o x)).map fun p => (σ p.1, p.2) := by
    rintro ι κ xs _ move symbol symbol' o o' rfl h
    rw [List.flatMap_map, List.map_flatMap]
    refine List.flatMap_congr fun x hx => ?_
    rw [(h x hx).1, (h x hx).2]
    cases o x <;> rfl
  obtain ⟨id, names, domain, base⟩ := i
  unfold extents rename
  cases domain with
  | single => rfl
  | ranges bounds =>
    dsimp only
    rw [List.zip_map_left]
    exact hnamed _ _ _ _ _ _ _ rfl fun x _ => ⟨rfl, rfl⟩
  | tuples items =>
    dsimp only
    rw [List.zipIdx_map]
    exact hnamed _ _ _ _ _ _ _ rfl fun x _ => ⟨rfl, rfl⟩
  | groups members =>
    dsimp only
    rw [← List.map_take]
    exact hnamed _ _ _ _ _ _ _ rfl fun x _ => ⟨rfl, rfl⟩
  | grid shape c => exact hnamed _ _ _ _ _ _ _ rfl fun x _ => ⟨rfl, rfl⟩
  | factor matrix =>
    dsimp only
    rw [← List.map_take]
    exact hnamed _ _ _ _ _ _ _ rfl fun x _ => ⟨rfl, rfl⟩

end Interaction

/-- The indices of some expressions are within the arrays or not, whatever the symbols are
called: even the fault is the same. -/
theorem Bounds.check_rename {σ : String → String} (hσ : Function.Injective σ) (exprs : List Expr)
    (i : Interaction) (shapes : List (String × Shape)) (base : Int) :
    check (exprs.map (·.rename σ)) (i.rename σ) shapes base = check exprs i shapes base := by
  have hparts : (exprs.map (·.rename σ)).flatMap Expr.walk =
      (exprs.flatMap Expr.walk).map (Expr.Part.rename σ) := by
    rw [List.flatMap_map, List.map_flatMap]
    exact List.flatMap_congr fun e _ => Expr.walk_rename e
  unfold check
  rw [hparts, Interaction.extents_rename]
  induction exprs.flatMap Expr.walk with
  | nil => rfl
  | cons p rest ih =>
    rw [List.map_cons]
    change (checkReference i.id _ shapes base (p.rename σ) >>= fun _ => _) = _
    rw [checkReference_rename hσ]
    exact congrArg _ (funext fun _ => ih)

end EnergyGraph
