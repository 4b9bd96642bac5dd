-- Rows of indices stand in a declaration, among the named data or in a file. An interaction
-- is the same however its rows are delivered, but for groups in a table of one column: such
-- a table is read as a single list, and its items are no groups.
import EnergyGraph.Interaction.Resolve
import EnergyGraph.Proofs.IntegerJson
import EnergyGraph.Proofs.IntegerTables

namespace EnergyGraph

/-! ## Files -/

namespace Files

/-- What there is under a name in the directory in which relative paths start. -/
theorem contents_name {f : Files} {name : String} (hpath : Path.ofText name = ⟨.here, [name]⟩)
    (hup : name ≠ "..") (hchars : '\x00' ∉ name.toList)
    (hlength : name.utf8ByteSize ≤ Path.longestPart) :
    f.contents (Path.ofText name) = match f.entries.lookup (f.root ++ [name]) with
      | some contents => .ok contents
      | none =>
        if f.isDirectory (f.root ++ [name]) then Failure.refuse .isDirectory
        else f.nothingAt (f.root ++ [name]) := by
  have hnone : ¬ [name].any (·.contains '\x00') = true := by simpa using hchars
  have hpart : Path.isTooLongFor Path.longestPart name = false := by
    unfold Path.isTooLongFor
    exact decide_eq_false (Nat.not_lt.mpr hlength)
  have hwhole : Path.isTooLongFor Path.longestWhole (Path.text ⟨.here, [name]⟩) = false := by
    have htext : Path.text ⟨.here, [name]⟩ = if name == "" then "." else name := by
      change (if "" ++ name == "" then "." else "" ++ name) = _
      rw [String.empty_append]
    unfold Path.isTooLongFor
    rw [htext]
    split
    · rfl
    · exact decide_eq_false (Nat.not_lt.mpr (hlength.trans (by decide)))
  have hplace : f.follow (f.start ⟨.here, [name]⟩) [name] = .ok (f.root ++ [name]) := by
    have hstep : (name == "..") = false := beq_false_of_ne hup
    unfold follow
    rw [hpart, hstep]
    unfold follow step
    rw [hstep]
    rfl
  unfold contents
  rw [hpath, if_neg hnone, hwhole, hplace]
  rfl

end Files

/-! ## Stores -/

namespace Store

variable {declared : List DataSource} {baseDir : Option String} {readers : Readers} {store : Store}

/-- A store knows the payloads of the entries with values, and the files of the others. -/
theorem ofDeclarations_eq_ok (h : ofDeclarations declared baseDir readers = .ok store) :
    List.Forall₂ (fun d q => q.1 = d.name ∧ Payload.ofValue d.values = .ok q.2)
      (declared.filter fun d => !d.values.isNull) store.known ∧
    store.sources = (declared.filter (·.values.isNull)).map fun d => (d.name, d.source) := by
  unfold ofDeclarations at h
  obtain ⟨given, hgiven, hstore⟩ := bind_eq_ok.mp h
  cases hstore
  refine ⟨(mapM_eq_ok.mp hgiven).imp fun d q hq => ?_, rfl⟩
  obtain ⟨p, hp, hq⟩ := bind_eq_ok.mp hq
  cases hq
  exact ⟨rfl, hp⟩

theorem known_names (h : ofDeclarations declared baseDir readers = .ok store) :
    store.known.map (·.1) = (declared.filter fun d => !d.values.isNull).map (·.name) :=
  map_eq_of_forall₂ ((ofDeclarations_eq_ok h).1.imp fun _ _ hq => hq.1)

/-- An entry with values stands for the payload of these values. -/
theorem lookup_given (h : ofDeclarations declared baseDir readers = .ok store)
    (hnames : (declared.map (·.name)).Nodup) {entry : DataSource} (hentry : entry ∈ declared)
    (hvalues : entry.values.isNull = false) (files : Files) :
    store.lookup files entry.name = Payload.ofValue entry.values := by
  have hknown := (ofDeclarations_eq_ok h).1
  have hfiltered : entry ∈ declared.filter fun d => !d.values.isNull :=
    List.mem_filter.mpr ⟨hentry, by rw [hvalues]; rfl⟩
  obtain ⟨q, hq, hname, hpayload⟩ := exists_of_mem_left hknown hfiltered
  have hnodup : (store.known.map (·.1)).Nodup := by
    rw [known_names h]
    exact hnames.sublist (List.filter_sublist.map _)
  have hfound : store.known.lookup entry.name = some q.2 :=
    lookup_of_mem hnodup (by rw [← hname]; exact hq)
  unfold lookup get
  rw [hfound, hpayload]

theorem lookup_undeclared (h : ofDeclarations declared baseDir readers = .ok store) {name : String}
    (hname : name ∉ declared.map (·.name)) (files : Files) :
    store.lookup files name = store.unknown name := by
  have hpart (part : DataSource → Bool) : name ∉ (declared.filter part).map (·.name) := fun hmem =>
    hname ((List.filter_sublist.map _).subset hmem)
  have hknown : store.known.lookup name = none :=
    lookup_eq_none_iff.mpr (known_names h ▸ hpart _)
  have hsources : store.sources.lookup name = none := by
    rw [(ofDeclarations_eq_ok h).2, lookup_eq_none_iff, List.map_map]
    exact hpart _
  unfold lookup get
  rw [hknown, hsources]

end Store

namespace Interaction

/-! ## Ways of delivery -/

/-- The ways in which rows reach a declaration. -/
inductive Route where
  | inline
  | named
  | json
  | csv
deriving DecidableEq

/-- The rows as nested lists. -/
def nestedRows (rows : List (List Int)) : Value := .list (rows.map .ints)

/-- The fields under which rows may stand in a declaration. -/
def payloadFields : InteractionKind → List String
  | .groups => ["groups", "members"]
  | _ => ["pairs", "tuples"]

/-- The data that can be named are those of some declarations, each with its own name. -/
structure HasData (s : Surroundings) (declared : List DataSource) : Prop where
  names : (declared.map (·.name)).Nodup
  data : ∃ baseDir readers store, Store.ofDeclarations declared baseDir readers = .ok store ∧
    s.data = store.lookup s.files

/-- The path of a data file. -/
def sourcePath (s : Surroundings) (source : String) : Path :=
  match s.baseDir with
  | some base => (Path.ofText base).below (Path.ofText source)
  | none => Path.ofText source

/-- The rows are not in the declaration, but where it says. -/
structure HasSource (d : InteractionDecl) (source : String) : Prop where
  fields : (payloadFields d.kind).findSome? (Object.get? d.spec) = none
  source : Object.get? d.spec "source" = some (.text source)

/-- The source is a file of these contents, with the suffix of a reader. -/
structure HasFile (s : Surroundings) (declared : List DataSource) (source reader : String)
    (contents : ByteArray) : Prop where
  noMark : dataName? source = none
  noName : source ∉ declared.map (·.name)
  suffix : Readers.key (sourcePath s source).suffix = reader
  contents : s.files.contents (sourcePath s source) = .ok contents

/-- Rows that a declaration is given in one of the ways. -/
inductive Delivers (s : Surroundings) (declared : List DataSource) (d : InteractionDecl)
    (rows : List (List Int)) : Route → Prop
  | inline (hfield : (payloadFields d.kind).findSome? (Object.get? d.spec) =
      some (nestedRows rows)) : Delivers s declared d rows .inline
  | named {source : String} (hsource : HasSource d source) {entry : DataSource}
    (hname : (dataName? source).getD source = entry.name) (hentry : entry ∈ declared)
    (hvalues : entry.values = nestedRows rows) : Delivers s declared d rows .named
  | json {source : String} (hsource : HasSource d source) {contents : ByteArray} {text : String}
    (hfile : HasFile s declared source "json" contents) (htext : Reader.textOf contents = .ok text)
    (hspelled : Json.IsText (nestedRows rows) text) : Delivers s declared d rows .json
  | csv {source : String} (hsource : HasSource d source) {contents : ByteArray} {text : String}
    (hfile : HasFile s declared source "csv" contents) (htext : Reader.textOf contents = .ok text)
    (htable : Csv.IsTable (Csv.numerals rows) text.toList) : Delivers s declared d rows .csv

/-! ## What is delivered -/

section

variable {s : Surroundings} {declared : List DataSource} {d : InteractionDecl}
  {rows : List (List Int)}

/-- The items that rows are delivered as. -/
def deliveredItems (rows : List (List Int)) : Route → List Value
  | .csv => Csv.tableItems rows
  | _ => rows.map .ints

theorem holdsIntegers_nestedRows (hfits : ∀ row ∈ rows, ∀ k ∈ row, Payload.Fits k) :
    Payload.HoldsIntegers (nestedRows rows) :=
  Payload.holdsIntegers_list.mpr (List.forall_mem_map.mpr fun row hrow =>
    Payload.holdsIntegers_ints (hfits row hrow))

theorem holdsIntegers_tableItems (hfits : ∀ row ∈ rows, ∀ k ∈ row, Payload.Fits k) :
    Payload.HoldsIntegers (.list (Csv.tableItems rows)) := by
  unfold Csv.tableItems
  split
  · refine Payload.holdsIntegers_ints fun k hk => ?_
    obtain ⟨row, hrow, hk⟩ := List.mem_flatten.mp hk
    exact hfits row hrow k hk
  · exact holdsIntegers_nestedRows hfits

theorem delivery_source {source : String} (hsource : HasSource d source) {p : Payload}
    (hpayload : payloadOf s source d.id = .ok p) :
    delivery s d (payloadFields d.kind) = .ok (.payload p) := by
  unfold delivery
  rw [hsource.fields, hsource.source]
  show payloadOf s source d.id >>= _ = _
  rw [hpayload]
  rfl

theorem payloadOf_named {source : String} {p : Payload}
    (hname : s.data ((dataName? source).getD source) = .ok p) :
    payloadOf s source d.id = .ok p := by
  unfold payloadOf
  cases hmark : dataName? source with
  | none =>
    rw [hmark] at hname
    simp only [Option.getD_none] at hname
    simp only [hname]
  | some name =>
    rw [hmark] at hname
    simp only [Option.getD_some] at hname
    simp only [lookUp, hname]

theorem read_file {source reader : String} {contents : ByteArray} {read : Reader} {p : Payload}
    (hfile : HasFile s declared source reader contents)
    (hreader : Readers.standard.lookup reader = some read)
    (hread : read (sourcePath s source) contents = .ok p) :
    Readers.standard.read s.files source none s.baseDir = .ok p := by
  have hget : Readers.standard.get (sourcePath s source).suffix = .ok read := by
    unfold Readers.get
    rw [hfile.suffix, hreader]
  have hcontents := hfile.contents
  unfold sourcePath at hcontents hget hread
  unfold Readers.read
  -- With and without a directory it is the same path that is read.
  cases hbase : s.baseDir <;>
    · rw [hbase] at hcontents hget hread
      dsimp only [Option.getD_none] at hcontents hget hread ⊢
      rw [hcontents]
      dsimp only
      rw [hget]
      exact hread

theorem payloadOf_file {source reader : String} {contents : ByteArray} {read : Reader} {p : Payload}
    (hdata : HasData s declared) (hfile : HasFile s declared source reader contents)
    (hreader : Readers.standard.lookup reader = some read)
    (hread : read (sourcePath s source) contents = .ok p) : payloadOf s source d.id = .ok p := by
  obtain ⟨baseDir, readers, store, hstore, hlookup⟩ := hdata.data
  have hunknown : s.data source = store.unknown source := by
    rw [hlookup, Store.lookup_undeclared hstore hfile.noName]
  unfold payloadOf
  rw [hfile.noMark]
  dsimp only
  rw [hunknown]
  show readFile s source d.id = _
  unfold readFile
  rw [read_file hfile hreader hread]

/-- Items of integers are delivered by their payload, be it an array or not. -/
theorem exists_payload {items : List Value} (h : Payload.HoldsIntegers (.list items)) :
    ∃ p, Payload.ofValue (.list items) = .ok p ∧
      Interaction.rows d.id (.payload p) = .ok items := by
  obtain ⟨p, hp, hvalue⟩ := Payload.exists_ofValue h
  refine ⟨p, hp, ?_⟩
  unfold Interaction.rows
  dsimp only
  rw [hvalue]

/-- Rows come as lists of integers, or as the items of a table. -/
theorem delivery_rows {route : Route} (hrows : ∀ row ∈ rows, row ≠ [])
    (hfits : ∀ row ∈ rows, ∀ k ∈ row, Payload.Fits k) (hdata : HasData s declared)
    (h : Delivers s declared d rows route) :
    ∃ found, delivery s d (payloadFields d.kind) = .ok found ∧
      Interaction.rows d.id found = .ok (deliveredItems rows route) := by
  obtain ⟨nested, hnested, hnestedRows⟩ := exists_payload (d := d) (holdsIntegers_nestedRows hfits)
  obtain ⟨table, htable, htableRows⟩ := exists_payload (d := d) (holdsIntegers_tableItems hfits)
  cases h with
  | inline hfield =>
    refine ⟨.inline (nestedRows rows), ?_, rfl⟩
    unfold delivery
    rw [hfield]
  | named hsource hname hentry hvalues =>
    obtain ⟨baseDir, readers, store, hstore, hlookup⟩ := hdata.data
    refine ⟨.payload nested, delivery_source hsource (payloadOf_named ?_), hnestedRows⟩
    rw [hlookup, hname, Store.lookup_given hstore hdata.names hentry (by rw [hvalues]; rfl),
      hvalues]
    exact hnested
  | json hsource hfile htext hspelled =>
    refine ⟨.payload nested, delivery_source hsource (payloadOf_file hdata hfile rfl ?_),
      hnestedRows⟩
    unfold Reader.json Reader.jsonOf
    rw [htext, ok_bind, Json.valueOf_text hspelled (holdsIntegers_nestedRows hfits), ok_bind]
    exact hnested
  | csv hsource hfile htext hlines =>
    refine ⟨.payload table, delivery_source hsource (payloadOf_file hdata hfile rfl ?_), htableRows⟩
    unfold Reader.csv
    rw [htext, ok_bind, Csv.read_table hlines hrows hfits]
    exact htable

end

/-! ## What rows are resolved to -/

/-- The symbols that are bound to rows: those of the declaration, or the usual ones. -/
inductive Binds (d : InteractionDecl) (rows : List (List Int)) : List String → Prop
  | given {symbols : List String} (h : d.bind = some symbols) (hne : symbols ≠ []) :
    Binds d rows symbols
  | single (h : d.bind = none) : Binds d rows ["i"]
  | pair (h : d.bind = none) (hne : rows ≠ []) : Binds d rows ["i", "j"]

/-- The symbols and the domain that a declaration stands for when it is given rows. -/
inductive StandsFor (d : InteractionDecl) (rows : List (List Int)) : List String → Domain → Prop
  | tuples {symbols : List String} (hkind : d.kind = .sparse) (hbind : Binds d rows symbols)
    (hwidth : ∀ row ∈ rows, row.length = symbols.length) : StandsFor d rows symbols (.tuples rows)
  | groups {symbols : List String} (hkind : d.kind = .groups) (hbind : symbolsOr d ["i"] = symbols)
    (hwidth : symbols.length = 1) (hnodup : ∀ row ∈ rows, row.Nodup) :
    StandsFor d rows symbols (.groups rows)

section

variable {s : Surroundings} {declared : List DataSource} {d : InteractionDecl}
  {rows : List (List Int)} {symbols : List String} {id : String}

theorem mapM_index (ks : List Int) : (ks.map Value.int).mapM (index id) = .ok ks :=
  mapM_map_self fun _ _ => rfl

theorem tuple_ints (ks : List Int) : tuple id (.ints ks) = .ok ks := mapM_index ks

theorem flatten_column (h : ∀ row ∈ rows, row.length = 1) :
    rows.flatten.map (fun k => [k]) = rows := by
  induction rows with
  | nil => rfl
  | cons row rest ih =>
    obtain ⟨hrow, hrest⟩ := List.forall_mem_cons.mp h
    obtain ⟨k, rfl⟩ := List.length_eq_one_iff.mp hrow
    rw [List.flatten_cons, List.map_append, ih hrest]
    rfl

/-- A list is a tuple, and so is an item of a column. -/
theorem mapM_tuple (route : Route) : (deliveredItems rows route).mapM (tuple id) = .ok rows := by
  have hnested : (rows.map Value.ints).mapM (tuple id) = .ok rows :=
    mapM_map_self fun ks _ => tuple_ints ks
  have htable : (Csv.tableItems rows).mapM (tuple id) = .ok rows := by
    unfold Csv.tableItems
    split
    · rename_i hcolumn
      have hitems : (rows.flatten.map Value.int).mapM (tuple id) =
          .ok (rows.flatten.map fun k => [k]) := mapM_map_ok fun _ _ => rfl
      rw [hitems, flatten_column hcolumn.2]
    · exact hnested
  cases route <;> first | exact hnested | exact htable

theorem widths_rows {width : Nat} (hne : rows ≠ []) (h : ∀ row ∈ rows, row.length = width) :
    widths rows = [width] := by
  obtain ⟨row, rest, rfl⟩ := List.exists_cons_of_ne_nil hne
  have hlengths : (row :: rest).map List.length = List.replicate (rest.length + 1) width :=
    List.eq_replicate_iff.mpr ⟨by simp, List.forall_mem_map.mpr h⟩
  have hsorted : (List.replicate (rest.length + 1) width).Pairwise
      fun a b => decide (a ≤ b) = true :=
    List.pairwise_replicate.mpr (Or.inr (decide_eq_true le_rfl))
  unfold widths
  rw [hlengths, List.mergeSort_of_pairwise hsorted, List.replicate_succ, List.eraseDups_cons]
  simp

theorem commonWidth_nil : commonWidth d [] =
    .ok (if (symbolsOr d []).length = 0 then 1 else (symbolsOr d []).length) := by
  have hnone : widths [] = [] := by
    unfold widths
    rw [List.map_nil, List.mergeSort_nil]
    rfl
  unfold commonWidth
  rw [hnone]

/-- Rows of one width are bound to as many symbols. -/
theorem symbols_of_binds (h : Binds d rows symbols)
    (hwidth : ∀ row ∈ rows, row.length = symbols.length) :
    commonWidth d rows = .ok symbols.length ∧ tupleSymbols d symbols.length = .ok symbols := by
  have htuple : tupleSymbols d symbols.length = .ok symbols := by
    unfold tupleSymbols
    cases h with
    | given hbind _ => rw [hbind]
    | single hbind => rw [hbind]; rfl
    | pair hbind _ => rw [hbind]; rfl
  refine ⟨?_, htuple⟩
  by_cases hrows : rows = []
  · rw [hrows, commonWidth_nil, symbolsOr]
    cases h with
    | given hbind hne =>
      rw [hbind, Option.getD_some, if_neg (List.length_eq_zero_iff.not.mpr hne)]
    | single hbind =>
      rw [hbind]
      rfl
    | pair _ hne => exact absurd hrows hne
  · unfold commonWidth
    rw [widths_rows hrows hwidth]

theorem group_ints {ks : List Int} (h : ks.Nodup) (place : Nat) :
    group id (.ints ks, place) = .ok ks := by
  have hfirst : ∀ p ∈ ks.zipIdx, p.1 ∉ ks.take p.2 := by
    rintro ⟨k, n⟩ hk hearlier
    have hplace : ks[n]? = some k := List.mk_mem_zipIdx_iff_getElem?.mp hk
    obtain ⟨hn, hget⟩ := List.getElem?_eq_some_iff.mp hplace
    have hlater : k ∈ ks.drop n := List.mem_drop_iff_getElem.mpr ⟨0, by simpa using hn, by simpa⟩
    exact List.disjoint_take_drop h le_rfl hearlier hlater
  show (ks.map Value.int).mapM (index id) >>= _ = _
  rw [mapM_index, ok_bind]
  dsimp only
  rw [List.find?_eq_none.mpr fun p hp => by simpa using hfirst p hp]

/-- Lists without repetitions are groups. -/
theorem mapM_group_rows (h : ∀ row ∈ rows, row.Nodup) (start : Nat) :
    ((rows.map Value.ints).zipIdx start).mapM (group id) = .ok rows := by
  induction rows generalizing start with
  | nil => rfl
  | cons row rest ih =>
    obtain ⟨hrow, hrest⟩ := List.forall_mem_cons.mp h
    rw [List.map_cons, List.zipIdx_cons, List.mapM_cons, group_ints hrow, ok_bind, ih hrest]
    rfl

/-- The first item of a column is no group. -/
theorem mapM_group_column (h : Csv.IsColumn rows) :
    (Csv.tableItems rows).zipIdx.mapM (group id) = fail (.notGroup 0) id := by
  obtain ⟨row, rest, rfl⟩ := List.exists_cons_of_ne_nil h.1
  obtain ⟨k, rfl⟩ := List.length_eq_one_iff.mp (h.2 row List.mem_cons_self)
  unfold Csv.tableItems
  rw [if_pos h, List.flatten_cons, List.singleton_append, List.map_cons, List.zipIdx_cons,
    List.mapM_cons]
  rfl

/-- Only a column in a table does not come as groups. -/
theorem mapM_group (h : ∀ row ∈ rows, row.Nodup) (route : Route) :
    (deliveredItems rows route).zipIdx.mapM (group id) =
      if route = .csv ∧ Csv.IsColumn rows then fail (.notGroup 0) id else .ok rows := by
  have hnested : (rows.map Value.ints).zipIdx.mapM (group id) = .ok rows := mapM_group_rows h 0
  by_cases hcolumn : route = .csv ∧ Csv.IsColumn rows
  · rw [if_pos hcolumn, hcolumn.1]
    exact mapM_group_column hcolumn.2
  · rw [if_neg hcolumn]
    cases route with
    | csv =>
      have hwide : ¬ Csv.IsColumn rows := fun h => hcolumn ⟨rfl, h⟩
      unfold deliveredItems Csv.tableItems
      rw [if_neg hwide, hnested]
    | _ => exact hnested

/-! ## Resolution -/

theorem checkWidth_self (symbols : List String) : checkWidth id symbols symbols.length = .ok () :=
  if_pos rfl

theorem resolveDomain_delivered {route : Route} {domain : Domain}
    (hstands : StandsFor d rows symbols domain) (hrows : ∀ row ∈ rows, row ≠ [])
    (hfits : ∀ row ∈ rows, ∀ k ∈ row, Payload.Fits k) (hdata : HasData s declared)
    (hdelivers : Delivers s declared d rows route) :
    resolveDomain s d =
      if d.kind = .groups ∧ route = .csv ∧ Csv.IsColumn rows then fail (.notGroup 0) d.id
      else .ok (symbols, domain) := by
  obtain ⟨found, hfound, hitems⟩ := delivery_rows hrows hfits hdata hdelivers
  unfold resolveDomain
  cases hstands with
  | tuples hkind hbind hwidth =>
    obtain ⟨hcommon, hsymbols⟩ := symbols_of_binds hbind hwidth
    rw [hkind] at hfound ⊢
    rw [if_neg (by simp)]
    show resolveTuples s d = _
    unfold resolveTuples
    rw [show delivery s d ["pairs", "tuples"] = .ok found from hfound, ok_bind, hitems, ok_bind,
      mapM_tuple, ok_bind, hcommon, ok_bind, hsymbols, ok_bind, checkWidth_self, ok_bind]
  | groups hkind hbind hwidth hnodup =>
    rw [hkind] at hfound ⊢
    show resolveGroups s d = _
    unfold resolveGroups
    rw [show delivery s d ["groups", "members"] = .ok found from hfound, ok_bind, hitems, ok_bind,
      mapM_group hnodup]
    by_cases hcolumn : route = .csv ∧ Csv.IsColumn rows
    · rw [if_pos hcolumn, if_pos ⟨rfl, hcolumn⟩]
      rfl
    · rw [if_neg hcolumn, if_neg fun h => hcolumn h.2, ok_bind]
      dsimp only
      rw [hbind, ← hwidth, checkWidth_self, ok_bind]

/-- What is told of a declaration is under its path already. -/
theorem mapError_fail {α : Type} (f : Fault) (hf : (f.diagnostic id []).path = path id []) :
    (fail f id : Except Failure α).mapError (locatedFailure id) = fail f id := by
  have hlocated : located id (f.diagnostic id []) = f.diagnostic id [] := by
    unfold located
    rw [hf]
    exact if_pos rfl
  show Except.error (Failure.diagnostic (located id (f.diagnostic id []))) = _
  rw [hlocated]
  rfl

/-- However rows are delivered, the interaction has exactly these rows in their order, with one
exception: groups of one index each in a table. The table is read as a single list, and what is
told is that its first item is no group. -/
theorem resolve_delivered {route : Route} {domain : Domain}
    (hstands : StandsFor d rows symbols domain) (hrows : ∀ row ∈ rows, row ≠ [])
    (hfits : ∀ row ∈ rows, ∀ k ∈ row, Payload.Fits k) (hdata : HasData s declared)
    (hdelivers : Delivers s declared d rows route) :
    resolve s d =
      if d.kind = .groups ∧ route = .csv ∧ Csv.IsColumn rows then fail (.notGroup 0) d.id
      else .ok ⟨d.id, symbols, domain, s.base⟩ := by
  unfold resolve
  rw [resolveDomain_delivered hstands hrows hfits hdata hdelivers]
  split
  · rw [mapError_fail _ rfl]
    rfl
  · rfl

end

/-- Two groups of one index each, in two data files and under a name. -/
def groupFiles : Files :=
  ⟨[], [(["g.csv"], "0\n1\n".toUTF8), (["g.json"], "[[0], [1]]".toUTF8)]⟩

def groupData : List DataSource := [⟨"g", none, nestedRows [[0], [1]]⟩]

/-- The store of these data. -/
def groupStore : Store := ⟨[("g", .array ⟨[2, 1], .ints #[0, 1], rfl⟩)], [], none, .standard⟩

def groupSurroundings : Surroundings := ⟨groupStore.lookup groupFiles, [], 0, groupFiles, none⟩

def groupsUnder (field : String) (v : Value) : InteractionDecl :=
  ⟨"it", .groups, none, [(field, v)], false⟩

/-- In the declaration, as named data and as a JSON text they are groups; as a table they are
not. -/
theorem resolve_delivered_column :
    resolve groupSurroundings (groupsUnder "groups" (nestedRows [[0], [1]])) =
      .ok ⟨"it", ["i"], .groups [[0], [1]], 0⟩ ∧
    resolve groupSurroundings (groupsUnder "source" (.text "data:g")) =
      .ok ⟨"it", ["i"], .groups [[0], [1]], 0⟩ ∧
    resolve groupSurroundings (groupsUnder "source" (.text "g.json")) =
      .ok ⟨"it", ["i"], .groups [[0], [1]], 0⟩ ∧
    resolve groupSurroundings (groupsUnder "source" (.text "g.csv")) =
      fail (.notGroup 0) "it" := by
  have hstands (field : String) (v : Value) :
      StandsFor (groupsUnder field v) [[0], [1]] ["i"] (.groups [[0], [1]]) :=
    .groups rfl rfl rfl (by decide)
  have hsource (source : String) : HasSource (groupsUnder "source" (.text source)) source :=
    ⟨rfl, rfl⟩
  have hrows : ∀ row ∈ ([[0], [1]] : List (List Int)), row ≠ [] := by decide
  have hfits : ∀ row ∈ ([[0], [1]] : List (List Int)), ∀ k ∈ row, Payload.Fits k := by
    unfold Payload.Fits
    decide
  have hdata : HasData groupSurroundings groupData :=
    ⟨by decide, none, .standard, groupStore, rfl, rfl⟩
  have hjson : HasFile groupSurroundings groupData "g.json" "json" "[[0], [1]]".toUTF8 :=
    ⟨by decide, by decide, by decide +kernel,
      (Files.contents_name (by decide +kernel) (by decide) (by decide) (by decide)).trans rfl⟩
  have hends (c : Char) (after : List Char) (h : c = ']') : Json.NumberEnds (c :: after) := by
    rintro _ _ ⟨⟩
    subst h
    decide
  have hspelled : Json.IsText (nestedRows [[0], [1]]) "[[0], [1]]" :=
    ⟨[], .list rfl (.cons (.list rfl (.last (.int 0 rfl (hends _ _ rfl)) rfl)) rfl
      (.last (.list rfl (.last (.int 1 rfl (hends _ _ rfl)) rfl)) rfl)), rfl⟩
  have hcsv : HasFile groupSurroundings groupData "g.csv" "csv" "0\n1\n".toUTF8 :=
    ⟨by decide, by decide, by decide +kernel,
      (Files.contents_name (by decide +kernel) (by decide) (by decide) (by decide)).trans rfl⟩
  have htable : Csv.IsTable (Csv.numerals [[0], [1]]) "0\n1\n".toList :=
    .cons [['0']] List.mem_cons_self (.cons [['1']] List.mem_cons_self .nil)
  refine ⟨?_, ?_, ?_, ?_⟩
  · exact resolve_delivered (hstands _ _) hrows hfits hdata (.inline rfl)
  · exact resolve_delivered (hstands _ _) hrows hfits hdata
      (.named (hsource "data:g") rfl (List.mem_singleton.mpr rfl) rfl)
  · exact resolve_delivered (hstands _ _) hrows hfits hdata (.json (hsource _) hjson rfl hspelled)
  · exact resolve_delivered (hstands _ _) hrows hfits hdata (.csv (hsource _) hcsv rfl htable)

end Interaction

end EnergyGraph
