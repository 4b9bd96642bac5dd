-- What a document keeps of its collections. A reader comes to a declaration under the key of its
-- entry, or it reports a mistake and the parse comes to nothing. So the declarations of a parsed
-- document are the entries of the input, in their order, and no name is declared twice.
import EnergyGraph.Proofs.DeclaredNames

namespace EnergyGraph.Document

/-! ## Collections and maps of them -/

/-- An item of a list and its entry: the item is a mapping, and holds its key. -/
def HoldsKey (item : Value) (entry : String × Value) : Prop :=
  entry.2 = item ∧ ∃ o key, item = .object o ∧ entryKey? o = some key ∧ entry.1 = key.plain

/-- What a collection lists: keys with their bodies, in its order. -/
inductive Lists : Value → Object → Prop
  | nothing : Lists .null []
  | mapping {found : Object} : Lists (.object found) found
  | listed {items : List Value} {found : Object} (h : List.Forall₂ HoldsKey items found) :
    Lists (.list items) found

section

variable {α : Type}

/-- A key gets a value, in place of the one that it had. -/
def put (map : List (String × α)) (key : String) (a : α) : List (String × α) :=
  if key ∈ map.map (·.1) then map.map fun p => if p.1 = key then (key, a) else p
  else map ++ [(key, a)]

/-- The declarations by their keys. -/
def mapOf (keyOf : α → String) (decls : List α) : List (String × α) :=
  decls.foldl (fun map a => put map (keyOf a) a) []

variable {keyOf : α → String} {decls : List α}

theorem mapOf_eq (h : (decls.map keyOf).Nodup) :
    mapOf keyOf decls = decls.map fun a => (keyOf a, a) := by
  suffices hgen : ∀ before : List α, ((before ++ decls).map keyOf).Nodup →
      decls.foldl (fun map a => put map (keyOf a) a) (before.map fun a => (keyOf a, a)) =
        (before ++ decls).map fun a => (keyOf a, a) by
    exact hgen [] (by simpa using h)
  clear h
  induction decls with
  | nil =>
    intro before _
    rw [List.append_nil, List.foldl_nil]
  | cons a rest ih =>
    intro before h
    have hnew : keyOf a ∉ (before.map fun a => (keyOf a, a)).map (·.1) := by
      rw [List.map_append, List.map_cons] at h
      rw [List.map_map]
      exact fun hmem => List.disjoint_of_nodup_append h hmem List.mem_cons_self
    have hput : put (before.map fun a => (keyOf a, a)) (keyOf a) a =
        (before ++ [a]).map fun a => (keyOf a, a) := by
      rw [put, if_neg hnew, List.map_append]
      rfl
    rw [List.foldl_cons, hput, ih (before ++ [a]) (by simpa using h), List.append_assoc]
    rfl

theorem lookup_mapOf {f : α → Bool} {id : String} (hf : ∀ a, f a = (keyOf a == id))
    (h : (decls.map keyOf).Nodup) : (mapOf keyOf decls).lookup id = decls.find? f := by
  rw [mapOf_eq h]
  clear h
  induction decls with
  | nil => rfl
  | cons a rest ih =>
    rw [List.map_cons, List.lookup_cons, List.find?_cons, ih, hf, BEq.comm (a := id)]

/-- The declarations are the entries of a collection: each is what the reader makes of the entry at
its place, and goes by its key. -/
structure Kept (raw : Value) (part : String)
    (read : String → Value → List String → Except Failure (Option α)) (keyOf : α → String)
    (decls : List α) : Prop where
  entries : ∃ found, Lists raw found ∧ decls.map keyOf = found.map (·.1) ∧
    List.Forall₂ (fun e a => read e.1 e.2 [part, e.1] = .ok (some a)) found decls
  distinct : (decls.map keyOf).Nodup
  length_map : (mapOf keyOf decls).length = decls.length

end

/-! ## Entries -/

section

variable {part : String}

theorem forall₂_of_listEntries {place : Nat} {items : List Value} {found : Object}
    (h : listEntries (m := Except Failure) part place items = .ok found) :
    List.Forall₂ HoldsKey items found := by
  induction items generalizing place found with
  | nil =>
    cases h
    exact .nil
  | cons item rest ih =>
    unfold listEntries at h
    dsimp only at h
    split at h
    · rename_i o
      split at h
      · rename_i key hkey
        obtain ⟨others, hothers, h⟩ := bind_eq_ok.mp h
        cases h
        exact .cons ⟨rfl, o, key, rfl, hkey, rfl⟩ (ih hothers)
      · cases h
    · cases h

theorem eq_of_distinctEntries {seen : List String} {listed found : Object}
    (h : distinctEntries (m := Except Failure) part seen listed = .ok found) :
    found = listed ∧ (listed.map (·.1)).Nodup ∧ ∀ key ∈ listed.map (·.1), key ∉ seen := by
  induction listed generalizing seen found with
  | nil =>
    cases h
    exact ⟨rfl, List.nodup_nil, nofun⟩
  | cons e rest ih =>
    obtain ⟨key, body⟩ := e
    rw [distinctEntries] at h
    split at h
    · cases h
    · rename_i hseen
      obtain ⟨others, hothers, h⟩ := bind_eq_ok.mp h
      cases h
      obtain ⟨rfl, hnodup, hnew⟩ := ih hothers
      have hkey : key ∉ List.map (·.1) others := fun hmem => hnew key hmem List.mem_cons_self
      refine ⟨rfl, List.nodup_cons.mpr ⟨hkey, hnodup⟩, ?_⟩
      intro k hk
      rcases List.mem_cons.mp hk with rfl | hk
      · exact hseen
      · exact fun hmem => hnew k hk (List.mem_cons_of_mem _ hmem)

theorem lists_of_entries {raw : Value} {found : Object}
    (h : entries (m := Except Failure) raw part = .ok found) :
    Lists raw found ∧ (found.map (·.1)).Nodup := by
  unfold entries at h
  split at h
  · cases h
    exact ⟨.nothing, List.nodup_nil⟩
  · obtain ⟨rfl, hnodup, -⟩ := eq_of_distinctEntries h
    exact ⟨.mapping, hnodup⟩
  · obtain ⟨listed, hlisted, h⟩ := bind_eq_ok.mp h
    obtain ⟨rfl, hnodup, -⟩ := eq_of_distinctEntries h
    exact ⟨.listed (forall₂_of_listEntries hlisted), hnodup⟩
  · cases h

end

/-! ## Readers that leave something -/

section

variable {α β : Type} {P : α → Prop} {Q : β → Prop}

/-- A reading that does not fail leaves something, and that fulfils a condition. -/
def Finds (P : α → Prop) (x : Except Failure (Option α)) : Prop :=
  Yields (fun found => ∃ a, found = some a ∧ P a) x

theorem finds_some {a : α} (h : P a) : Finds P (pure (some a)) := yields_ok ⟨a, rfl, h⟩

theorem finds_bind {x : Except Failure (Option α)} {f : Option α → Except Failure (Option β)}
    (hx : Finds P x) (hf : ∀ a, P a → Finds Q (f (some a))) : Finds Q (x >>= f) := by
  refine yields_bind hx fun found hfound => ?_
  obtain ⟨a, rfl, ha⟩ := hfound
  exact hf a ha

theorem finds_map {x : Except Failure (Option α)} {f : α → β} (hx : Finds P x)
    (hf : ∀ a, P a → Q (f a)) : Finds Q (x >>= fun found => pure (found.map f)) :=
  finds_bind hx fun a ha => finds_some (hf a ha)

/-- A reader leaves a declaration that goes by the key of its entry. -/
def Named (keyOf : α → String) (read : String → Value → List String → Except Failure (Option α)) :
    Prop :=
  ∀ key body path, Finds (fun a => keyOf a = key) (read key body path)

variable {keyOf : α → String} {read : String → Value → List String → Except Failure (Option α)}

theorem forall₂_of_filterMapM (hread : Named keyOf read) {part : String} {found : Object}
    {decls : List α}
    (h : found.filterMapM (fun (key, body) => read key body [part, key]) = .ok decls) :
    decls.map keyOf = found.map (·.1) ∧
      List.Forall₂ (fun e a => read e.1 e.2 [part, e.1] = .ok (some a)) found decls := by
  induction found generalizing decls with
  | nil =>
    cases h
    exact ⟨rfl, .nil⟩
  | cons e rest ih =>
    rw [List.filterMapM_cons] at h
    obtain ⟨left, hleft, h⟩ := bind_eq_ok.mp h
    obtain ⟨a, rfl, hkey⟩ := hread _ _ _ _ hleft
    obtain ⟨others, hothers, h⟩ := bind_eq_ok.mp h
    cases h
    obtain ⟨hkeys, hentries⟩ := ih hothers
    refine ⟨?_, .cons hleft hentries⟩
    rw [List.map_cons, List.map_cons, hkey, hkeys]

theorem kept_readSection (hread : Named keyOf read) (raw : Value) (part : String) :
    Yields (Kept raw part read keyOf) (readSection raw part read) := by
  intro decls h
  obtain ⟨found, hfound, h⟩ := bind_eq_ok.mp h
  obtain ⟨hlists, hnodup⟩ := lists_of_entries hfound
  obtain ⟨hkeys, hentries⟩ := forall₂_of_filterMapM hread h
  have hdistinct : (decls.map keyOf).Nodup := hkeys ▸ hnodup
  refine ⟨⟨found, hlists, hkeys, hentries⟩, hdistinct, ?_⟩
  rw [mapOf_eq hdistinct, List.length_map]

end

/-! ## What the readers leave -/

section

variable {α : Type}

/-- Something is left, whatever it is. -/
abbrev Anything : α → Prop := fun _ => True

theorem finds_readWord (what : String) (expected : List String) (ofName? : String → Option α)
    (given : Value) (path : List String) :
    Finds Anything (readWord what expected ofName? given path) := by
  unfold readWord
  dsimp only
  split
  · exact finds_some trivial
  · exact yields_report

theorem finds_readFormula (v : Value) (arity : Arity) (path : List String) :
    Finds Anything (readFormula (m := Except Failure) v arity path) := by
  intro found h
  unfold readFormula Findings.attempt at h
  split at h
  · cases h
    exact ⟨_, rfl, trivial⟩
  all_goals cases h

theorem finds_readShape (raw : Value) (path : List String) :
    Finds Anything (readShape (m := Except Failure) raw path) := by
  unfold readShape
  dsimp only
  split
  · exact finds_some trivial
  · exact yields_report

theorem finds_readArity (raw : Value) (path : List String) :
    Finds Anything (readArity (m := Except Failure) raw path) := by
  unfold readArity
  split
  · exact finds_some trivial
  · exact finds_some trivial
  · split
    · exact finds_some trivial
    · exact yields_report
  · exact yields_report

theorem finds_readArgs (arity : Arity) (path : List String) (place : Nat) (items : List Value) :
    Finds Anything (readArgs (m := Except Failure) arity path place items) := by
  induction items generalizing place with
  | nil => exact finds_some trivial
  | cons v rest ih =>
    rw [readArgs]
    refine finds_bind (finds_readFormula _ _ _) fun f _ => ?_
    exact finds_bind (ih _) fun others _ => finds_some trivial

theorem finds_readAggregatorOf (o : Object) (path : List String) :
    Finds Anything (readAggregatorOf (m := Except Failure) o path) := by
  unfold readAggregatorOf
  refine finds_bind (finds_readWord _ _ _ _ _) fun kind _ => ?_
  dsimp only
  split
  · exact finds_some trivial
  · split
    · exact yields_report
    · exact nofun

theorem finds_readAggregator (raw : Value) (path : List String) :
    Finds Anything (readAggregator (m := Except Failure) raw path) := by
  unfold readAggregator
  split
  · exact finds_readAggregatorOf _ _
  · exact finds_readAggregatorOf _ _
  · exact yields_report

theorem finds_readUse (item : Value) (key : String) (path : List String) :
    Finds Anything (readUse (m := Except Failure) item key path) := by
  unfold readUse
  split
  · exact finds_some trivial
  · split
    · exact finds_bind (finds_readFormula _ _ _) fun f _ => finds_some trivial
    · exact yields_report
  · exact yields_report

theorem exists_of_readUses {key : String} {path : List String} {place : Nat} {items : List Value}
    {uses : List (Option WeightedUse)}
    (h : readUses (m := Except Failure) key path place items = .ok uses) :
    ∃ components : List WeightedUse, uses = components.map some := by
  induction items generalizing place uses with
  | nil =>
    cases h
    exact ⟨[], rfl⟩
  | cons item rest ih =>
    rw [readUses] at h
    obtain ⟨use, huse, h⟩ := bind_eq_ok.mp h
    obtain ⟨u, rfl, -⟩ := finds_readUse _ _ _ _ huse
    obtain ⟨others, hothers, h⟩ := bind_eq_ok.mp h
    obtain ⟨components, rfl⟩ := ih hothers
    cases h
    exact ⟨u :: components, rfl⟩

theorem finds_readReference
    {read : String → Value → List String → Bool → Except Failure (Option α)} (raw : Value)
    (owner role : String) (path : List String)
    (h : ∀ key body path inline, Finds Anything (read key body path inline)) :
    Finds Anything (readReference raw owner role path read) := by
  unfold readReference
  split
  · exact finds_map (h _ _ _ _) fun _ _ => trivial
  · exact finds_some trivial

end

theorem named_readParameter : Named (·.name) readParameter := by
  intro name body path
  unfold readParameter
  split
  · exact yields_report
  · split
    · dsimp only
      split
      · exact yields_report
      · exact yields_after fun _ => finds_some rfl
    · exact finds_some rfl

theorem named_readVariable : Named (·.name) readVariable := by
  intro name body path
  unfold readVariable
  split
  · exact yields_report
  · refine finds_bind (finds_readWord _ _ _ _ _) fun type _ => ?_
    refine finds_bind (finds_readShape _ _) fun shape _ => ?_
    exact yields_after fun _ => finds_some rfl

theorem named_readData : Named (·.name) readData := by
  intro name body path
  unfold readData
  split
  · exact finds_some rfl
  · split
    · exact yields_report
    · dsimp only
      split
      · exact yields_after fun _ => finds_some rfl
      · exact finds_some rfl
  · exact finds_some rfl

theorem named_readFunction : Named (·.id) readFunction := by
  intro id body path
  unfold readFunction
  split
  · dsimp only
    split
    · exact yields_report
    · exact finds_bind (finds_readWord _ _ _ _ _) fun kind _ => finds_some rfl
  · exact yields_report

theorem finds_readInteraction (id : String) (body : Value) (path : List String) (inline : Bool) :
    Finds (fun i : InteractionDecl => i.id = id) (readInteraction id body path inline) := by
  unfold readInteraction
  split
  · dsimp only
    split
    · exact yields_report
    · refine finds_bind (finds_readWord _ _ _ _ _) fun kind _ => ?_
      exact yields_after fun _ => finds_some rfl
  · exact yields_report

theorem finds_readTerm (id : String) (body : Value) (path : List String) (inline : Bool) :
    Finds (fun t : TermDecl => t.id = id) (readTerm id body path inline) := by
  unfold readTerm
  dsimp only
  split
  · refine finds_bind (finds_readWord _ _ _ _ _) fun kind _ => ?_
    refine finds_bind (finds_readArity _ _) fun arity _ => yields_after fun compat => ?_
    cases kind with
    | constant =>
      dsimp only
      split
      · exact finds_bind (finds_readFormula _ _ _) fun f _ => finds_some rfl
      · exact yields_report
    | analytic =>
      dsimp only
      split
      · exact yields_report
      · exact finds_bind (finds_readFormula _ _ _) fun f _ => finds_some rfl
    | functional =>
      dsimp only
      split
      · exact yields_report
      · split
        · exact finds_bind (finds_readArgs _ _ _ _) fun args _ => finds_some rfl
        · exact yields_report
  · exact yields_report

theorem named_readComponent : Named (·.id) readComponent := by
  intro id body path
  unfold readComponent
  have hterm (key body path inline) :
      Finds Anything (readTerm (m := Except Failure) key body path inline) :=
    fun found h => (finds_readTerm _ _ _ _ found h).imp fun _ ha => ⟨ha.1, trivial⟩
  have hinteraction (key body path inline) :
      Finds Anything (readInteraction (m := Except Failure) key body path inline) :=
    fun found h => (finds_readInteraction _ _ _ _ found h).imp fun _ ha => ⟨ha.1, trivial⟩
  split
  · dsimp only
    split
    · refine finds_bind (finds_readReference _ _ _ _ hterm) fun term _ => ?_
      refine finds_bind (finds_readReference _ _ _ _ hinteraction) fun interaction _ => ?_
      dsimp only
      split
      · exact finds_some rfl
      · exact finds_bind (finds_readAggregator _ _) fun a _ => finds_some rfl
    · exact yields_report
  · exact yields_report

theorem named_readHamiltonian : Named (·.id) readHamiltonian := by
  intro id body path
  unfold readHamiltonian
  split
  · dsimp only
    split
    · exact yields_report
    · split
      · refine yields_bind (fun _ => exists_of_readUses) ?_
        rintro _ ⟨components, rfl⟩
        have hall : (components.map some).mapM (fun use => use) = some components := by
          induction components with
          | nil => rfl
          | cons u rest ih => simp [ih]
        simp only [hall]
        refine yields_after fun couples => ?_
        split
        · exact finds_some rfl
        · exact finds_bind (finds_readWord _ _ _ _ _) fun type _ => finds_some rfl
      · exact yields_report
  · exact yields_report

/-! ## Names of different collections -/

/-- Where no name is reported, each is added to the ones before it, and is none of them. -/
theorem nodup_of_owners {all owners before : List (String × String)}
    (h : all.foldlM (fun (owners : List (String × String)) (name, part) =>
      match owners.lookup name with
      | some first => do
        report (m := Except Failure) (.declaredTwice name first part) [part, name]
        pure owners
      | none => pure (owners ++ [(name, part)])) before = .ok owners)
    (hbefore : (before.map (·.1)).Nodup) : ((before ++ all).map (·.1)).Nodup := by
  induction all generalizing before with
  | nil => rwa [List.append_nil]
  | cons entry rest ih =>
    obtain ⟨name, part⟩ := entry
    rw [List.foldlM_cons] at h
    obtain ⟨after, hafter, h⟩ := bind_eq_ok.mp h
    dsimp only at hafter
    split at hafter
    · cases hafter
    · rename_i hnew
      cases hafter
      have hnodup : ((before ++ [(name, part)]).map (·.1)).Nodup := by
        rw [List.map_append]
        refine List.Nodup.append hbefore (List.nodup_singleton name) ?_
        exact List.disjoint_singleton.mpr (lookup_eq_none_iff.mp hnew)
      simpa using ih h hnodup

theorem nodup_of_checkNamespaces {named : List (String × List String)} {u : Unit}
    (h : checkNamespaces (m := Except Failure) named = .ok u) : (named.flatMap (·.2)).Nodup := by
  unfold checkNamespaces at h
  dsimp only at h
  obtain ⟨owners, howners, -⟩ := bind_eq_ok.mp h
  have hnodup := nodup_of_owners howners List.nodup_nil
  rw [List.nil_append, List.map_flatMap] at hnodup
  simpa [List.map_map, Function.comp_def] using hnodup

/-! ## The whole document -/

/-- The names under which parameters, variables, data and functions are known. -/
def sharedNames (d : Document) : List String :=
  d.parameters.map (·.name) ++ (d.vars.map (·.name) ++ (d.data.map (·.name) ++
    d.functions.map (·.id)))

/-- What a document is made of: the entries of its collections, with names of their own. -/
structure KeepsEntries (o : Object) (d : Document) : Prop where
  parameters : Kept (member o "parameters") "parameters" readParameter (·.name) d.parameters
  vars : Kept (member o "variables") "variables" readVariable (·.name) d.vars
  data : Kept (member o "data") "data" readData (·.name) d.data
  functions : Kept (member o "functions") "functions" readFunction (·.id) d.functions
  interactions : Kept (member o "interactions") "interactions"
    (fun id body path => readInteraction id body path false) (·.id) d.interactions
  terms : Kept (member o "terms") "terms" (fun id body path => readTerm id body path false) (·.id)
    d.terms
  components : Kept (member o "components") "components" readComponent (·.id) d.components
  hamiltonians : Kept (member o "hamiltonians") "hamiltonians" readHamiltonian (·.id) d.hamiltonians
  shared : d.sharedNames.Nodup

theorem keepsEntries_check (v : Value) :
    Yields (fun d => ∃ o, v = .object o ∧ KeepsEntries o d) (check (m := Except Failure) v) := by
  unfold check
  split
  · rename_i o
    refine yields_after fun _ => yields_after fun ⟨_, _⟩ => ?_
    refine yields_bind (kept_readSection named_readParameter _ _) fun _ hparameters => ?_
    refine yields_bind (kept_readSection named_readVariable _ _) fun _ hvars => ?_
    refine yields_bind (kept_readSection named_readData _ _) fun _ hdata => ?_
    refine yields_bind (kept_readSection named_readFunction _ _) fun _ hfunctions => ?_
    refine yields_bind (fun _ => nodup_of_checkNamespaces) fun _ hshared => ?_
    refine yields_bind (kept_readSection (fun _ _ _ => finds_readInteraction _ _ _ _) _ _)
      fun _ hinteractions => ?_
    refine yields_bind (kept_readSection (fun _ _ _ => finds_readTerm _ _ _ _) _ _)
      fun _ hterms => ?_
    refine yields_bind (kept_readSection named_readComponent _ _) fun _ hcomponents => ?_
    refine yields_bind (kept_readSection named_readHamiltonian _ _) fun _ hhamiltonians => ?_
    refine yields_after fun _ => yields_ok ⟨o, rfl, ?_⟩
    exact ⟨hparameters, hvars, hdata, hfunctions, hinteractions, hterms, hcomponents, hhamiltonians,
      by simpa [sharedNames] using hshared⟩
  · exact yields_report

/-- Whatever a document is parsed from, in either mode: each collection holds the entries of the
input, all of them, in their order, each under its key and read by the reader of the collection. No
key stands twice in a collection, so that its map has as many entries as it; and no name stands
twice among parameters, variables, data and functions. -/
theorem entries_kept {v : Value} {collect : Bool} {d : Document} (h : parse v collect = .ok d) :
    (∃ o, v = .object o ∧ KeepsEntries o d) ∧
      (∀ id, d.term? id = (mapOf (·.id) d.terms).lookup id) ∧
      ∀ id, d.interaction? id = (mapOf (·.id) d.interactions).lookup id := by
  obtain ⟨o, rfl, hkeeps⟩ := keepsEntries_check v d (check_of_parse h)
  refine ⟨⟨o, rfl, hkeeps⟩, fun id => ?_, fun id => ?_⟩
  · exact (lookup_mapOf (fun _ => rfl) hkeeps.terms.distinct).symm
  · exact (lookup_mapOf (fun _ => rfl) hkeeps.interactions.distinct).symm

/-- Collections of both forms, one of them with an integer for a key. -/
def collected : Value :=
  .object [("version", .text "1.0.0"), ("name", .text "toy"),
    ("parameters", .object [("T", .float 1.0), ("n", .int 3)]),
    ("variables", .list [.object [("id", .text "x"), ("shape", .int 3)],
      .object [("name", .text "y")]]),
    ("terms", .list [.object [("id", .int 7), ("value", .int 2)],
      .object [("name", .text "t"), ("value", .int 1)]]),
    ("components", .object [("c", .object [("term", .text "7")])])]

theorem entries_kept_both_forms : ∃ d, parse collected true = .ok d ∧
    d.terms.map (·.id) = ["7", "t"] ∧ d.sharedNames = ["T", "n", "x", "y"] ∧
    (∃ o, collected = .object o ∧ KeepsEntries o d) ∧
    (∀ id, d.term? id = (mapOf (·.id) d.terms).lookup id) ∧
    ∀ id, d.interaction? id = (mapOf (·.id) d.interactions).lookup id := by
  obtain ⟨d, hparse⟩ := exists_eq_ok (x := parse collected true) (by decide +kernel)
  have hnames : (parse collected true).toOption.map
      (fun d => (d.terms.map (·.id), d.sharedNames)) = some (["7", "t"], ["T", "n", "x", "y"]) := by
    decide +kernel
  rw [hparse] at hnames
  obtain ⟨hterms, hshared⟩ := Prod.mk.inj (Option.some.inj hnames)
  exact ⟨d, hparse, hterms, hshared, entries_kept hparse⟩

end EnergyGraph.Document
