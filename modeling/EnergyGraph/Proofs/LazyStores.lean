-- Stores under calls and changes of the files. What a call does depends on what is known of its
-- name: a payload that is known is the answer for good, whatever the files hold; otherwise the
-- file of the name is read as it is at that time, and a payload that comes of it is known from
-- then on. Calls that fail leave no trace, and no call changes which names there are.
import EnergyGraph.Proofs.Deliveries

namespace EnergyGraph

namespace Store

/-! ## Calls -/

/-- What is asked of a name. -/
inductive Request where
  | payload
  | shape
deriving DecidableEq

inductive Answer where
  | payload (p : Payload)
  | shape (s : Shape)

/-- The answer to a request where the payload of the name is there. -/
def Request.answer : Request → Payload → Answer
  | .payload, p => .payload p
  | .shape, p => .shape p.shape

/-- A call, and the files as they are when it is made. -/
structure Call where
  name : String
  request : Request
  files : Files

def call (s : Store) (c : Call) : Except Failure Answer × Store :=
  match c.request with
  | .payload =>
    let (result, s) := s.get c.files c.name
    (result.map .payload, s)
  | .shape =>
    let (result, s) := s.getShape c.files c.name
    (result.map .shape, s)

/-- The store after some calls. -/
def after (s : Store) (calls : List Call) : Store := calls.foldl (fun s c => (s.call c).2) s

/-- Some call on a name has been answered. -/
def Answered (s : Store) (calls : List Call) (name : String) : Prop :=
  ∃ before c later, calls = before ++ c :: later ∧ c.name = name ∧
    ∃ a, ((s.after before).call c).1 = .ok a

/-- The path of a source file. -/
def pathOf (s : Store) (source : String) : Path :=
  match s.baseDir with
  | some base => (Path.ofText base).below (Path.ofText source)
  | none => Path.ofText source

/-- The file that a call on a name reads, if it reads one. -/
def opens (s : Store) (name : String) : Option Path :=
  match s.known.lookup name with
  | some _ => none
  | none => (s.sources.lookup name).join.map s.pathOf

/-- What there is to find out about a name whose payload is not known yet. -/
def reading (s : Store) (files : Files) (name : String) : Except Failure Payload :=
  match s.sources.lookup name with
  | none => s.unknown name
  | some source => s.readSource files name source

section

variable {s : Store} {c : Call} {name : String} {p : Payload}

/-! ### One call -/

theorem call_eq : s.call c =
    ((s.get c.files c.name).1.map c.request.answer, (s.get c.files c.name).2) := by
  obtain ⟨name, request, files⟩ := c
  cases request with
  | payload => rfl
  | shape =>
    unfold call getShape
    dsimp only
    cases (s.get files name).1 <;> rfl

/-- A payload that is known is the answer, and no file is looked at. -/
theorem call_known (h : s.known.lookup c.name = some p) :
    s.call c = (.ok (c.request.answer p), s) := by
  rw [call_eq, get, h]
  rfl

/-- A payload that is not known is looked for, and kept if it is found. -/
theorem call_unknown (h : s.known.lookup c.name = none) : s.call c =
    match s.reading c.files c.name with
    | .ok p => (.ok (c.request.answer p), { s with known := s.known ++ [(c.name, p)] })
    | .error e => (.error e, s) := by
  rw [call_eq, get, reading, h]
  dsimp only
  cases hsource : s.sources.lookup c.name with
  | none => rfl
  | some source =>
    dsimp only
    cases s.readSource c.files c.name source <;> rfl

theorem call_failed {e : Failure} (h : (s.call c).1 = .error e) : (s.call c).2 = s := by
  cases hknown : s.known.lookup c.name with
  | some p => rw [call_known hknown]
  | none =>
    rw [call_unknown hknown] at h ⊢
    cases hread : s.reading c.files c.name with
    | error e => rfl
    | ok p =>
      rw [hread] at h
      cases h

/-- The payload of an answered call is known after it. -/
theorem call_answered {a : Answer} (h : (s.call c).1 = .ok a) :
    ∃ p, a = c.request.answer p ∧ (s.call c).2.known.lookup c.name = some p := by
  cases hknown : s.known.lookup c.name with
  | some p =>
    rw [call_known hknown] at h ⊢
    cases h
    exact ⟨p, rfl, hknown⟩
  | none =>
    rw [call_unknown hknown] at h ⊢
    cases hread : s.reading c.files c.name with
    | error e =>
      rw [hread] at h
      cases h
    | ok p =>
      rw [hread] at h
      cases h
      refine ⟨p, rfl, ?_⟩
      dsimp only
      rw [List.lookup_append, hknown, List.lookup_cons_self]
      rfl

/-- What is known stays known, and nothing is learnt of other names. -/
theorem lookup_call (h : s.known.lookup name ≠ none ∨ c.name ≠ name) :
    (s.call c).2.known.lookup name = s.known.lookup name := by
  cases hknown : s.known.lookup c.name with
  | some p => rw [call_known hknown]
  | none =>
    rw [call_unknown hknown]
    cases s.reading c.files c.name with
    | error e => rfl
    | ok p =>
      dsimp only
      rw [List.lookup_append]
      rcases h with h | h
      · exact Option.or_of_isSome (Option.isSome_iff_ne_none.mpr h)
      · rw [lookup_cons_of_ne (Ne.symm h)]
        exact Option.or_none

/-- What calls leave as it is: where the payloads come from, and which names there are. -/
structure SameSources (s s' : Store) : Prop where
  sources : s'.sources = s.sources
  baseDir : s'.baseDir = s.baseDir
  readers : s'.readers = s.readers
  contains : ∀ name, s'.contains name = s.contains name

theorem sameSources_call (s : Store) (c : Call) : SameSources s (s.call c).2 := by
  cases hknown : s.known.lookup c.name with
  | some p =>
    rw [call_known hknown]
    exact ⟨rfl, rfl, rfl, fun _ => rfl⟩
  | none =>
    rw [call_unknown hknown]
    cases hread : s.reading c.files c.name with
    | error e => exact ⟨rfl, rfl, rfl, fun _ => rfl⟩
    | ok p =>
      refine ⟨rfl, rfl, rfl, fun name => ?_⟩
      unfold contains
      dsimp only
      rw [List.lookup_append, List.lookup_cons]
      by_cases hname : name = c.name
      · subst hname
        have hsource : (s.sources.lookup c.name).isSome = true := by
          unfold reading at hread
          split at hread
          · cases hread
          · rename_i source hsource
            rw [hsource]
            rfl
        rw [hsource, Bool.or_true, Bool.or_true]
      · rw [beq_eq_false_iff_ne.mpr hname]
        simp

/-! ### Runs -/

theorem after_append (s : Store) (calls more : List Call) :
    s.after (calls ++ more) = (s.after calls).after more := List.foldl_append

theorem sameSources_after (s : Store) (calls : List Call) : SameSources s (s.after calls) := by
  induction calls using List.reverseRecOn with
  | nil => exact ⟨rfl, rfl, rfl, fun _ => rfl⟩
  | append_singleton calls c ih =>
    rw [after_append]
    have hstep : SameSources (s.after calls) ((s.after calls).after [c]) := sameSources_call _ c
    exact ⟨hstep.sources.trans ih.sources, hstep.baseDir.trans ih.baseDir,
      hstep.readers.trans ih.readers, fun name => (hstep.contains name).trans (ih.contains name)⟩

theorem lookup_after {calls : List Call} (h : s.known.lookup name = some p) :
    (s.after calls).known.lookup name = some p := by
  induction calls using List.reverseRecOn with
  | nil => exact h
  | append_singleton calls c ih =>
    rw [after_append]
    exact (lookup_call (.inl (by simp [ih]))).trans ih

/-- The payload of an answered call is known for good. -/
theorem lookup_of_answered {before : List Call} {a : Answer}
    (h : ((s.after before).call c).1 = .ok a) (later : List Call) :
    ∃ p, a = c.request.answer p ∧
      (s.after (before ++ c :: later)).known.lookup c.name = some p := by
  obtain ⟨p, ha, hp⟩ := call_answered h
  refine ⟨p, ha, ?_⟩
  rw [after_append]
  exact lookup_after (s := ((s.after before).call c).2) hp

/-- A payload is not known as long as it was not given and no call on its name was answered. -/
theorem lookup_after_eq_none {calls : List Call} :
    (s.after calls).known.lookup name = none ↔
      s.known.lookup name = none ∧ ¬ s.Answered calls name := by
  constructor
  · intro h
    refine ⟨?_, ?_⟩
    · cases hknown : s.known.lookup name with
      | none => rfl
      | some p =>
        rw [lookup_after hknown] at h
        cases h
    · rintro ⟨before, c, later, rfl, rfl, a, ha⟩
      obtain ⟨p, -, hp⟩ := lookup_of_answered ha later
      rw [hp] at h
      cases h
  · rintro ⟨hgiven, hanswered⟩
    induction calls using List.reverseRecOn with
    | nil => exact hgiven
    | append_singleton calls c ih =>
      have hnone : (s.after calls).known.lookup name = none := by
        refine ih fun ⟨before, e, later, hcalls, hname, hok⟩ => hanswered ?_
        exact ⟨before, e, later ++ [c], by rw [hcalls]; simp, hname, hok⟩
      rw [after_append]
      change ((s.after calls).call c).2.known.lookup name = none
      by_cases hname : c.name = name
      · cases hcall : ((s.after calls).call c).1 with
        | error e => rwa [call_failed hcall]
        | ok a => exact absurd ⟨calls, c, [], rfl, hname, a, hcall⟩ hanswered
      · exact (lookup_call (.inr hname)).trans hnone

/-! ### Files -/

/-- A source is read from its own file. -/
theorem readSource_congr {files files' : Files} {source : String}
    (h : files.contents (s.pathOf source) = files'.contents (s.pathOf source)) :
    s.readSource files name (some source) = s.readSource files' name (some source) := by
  have hread : s.readers.read files source none s.baseDir =
      s.readers.read files' source none s.baseDir := by
    unfold Readers.read
    unfold pathOf at h
    cases hbase : s.baseDir with
    | none =>
      rw [hbase] at h
      dsimp only at h ⊢
      rw [h]
    | some base =>
      rw [hbase] at h
      dsimp only at h ⊢
      rw [h]
  unfold readSource
  simp only [hread]

theorem reading_congr {files files' : Files} (hknown : s.known.lookup name = none)
    (h : ∀ path, s.opens name = some path → files.contents path = files'.contents path) :
    s.reading files name = s.reading files' name := by
  unfold reading
  cases hsource : s.sources.lookup name with
  | none => rfl
  | some source =>
    cases source with
    | none => rfl
    | some source =>
      refine readSource_congr (h _ ?_)
      rw [opens, hknown, hsource]
      rfl

/-- A call depends on the file that it opens and on no other. -/
theorem call_congr {files : Files}
    (h : ∀ path, s.opens c.name = some path → files.contents path = c.files.contents path) :
    s.call { c with files } = s.call c := by
  cases hknown : s.known.lookup c.name with
  | some p => rw [call_known (c := { c with files }) hknown, call_known hknown]
  | none =>
    rw [call_unknown (c := { c with files }) hknown, call_unknown hknown]
    dsimp only
    rw [reading_congr hknown h]

theorem mem_names : name ∈ s.names ↔ s.contains name = true := by
  unfold names contains
  rw [Bool.or_eq_true, Option.isSome_iff_ne_none, Option.isSome_iff_ne_none, Ne, Ne,
    lookup_eq_none_iff, lookup_eq_none_iff, not_not, not_not]
  dsimp only
  rw [List.mem_append, List.mem_filter]
  by_cases hknown : name ∈ s.known.map (·.1)
  · simp [hknown]
  · simp [hknown]

end

/-! ## Stores of documents -/

section

variable {declared : List DataSource} {baseDir : Option String} {readers : Readers} {s : Store}
  {name : String}

theorem exists_given (h : ofDeclarations declared baseDir readers = .ok s) {p : Payload}
    (hp : s.known.lookup name = some p) :
    ∃ x ∈ declared, x.name = name ∧ x.values.isNull = false ∧ Payload.ofValue x.values = .ok p := by
  obtain ⟨x, hx, hname, hvalues⟩ :=
    exists_of_mem_right (ofDeclarations_eq_ok h).1 (mem_of_lookup hp)
  obtain ⟨hmem, hgiven⟩ := List.mem_filter.mp hx
  exact ⟨x, hmem, hname.symm, by simpa using hgiven, hvalues⟩

theorem lookup_known_eq_none (h : ofDeclarations declared baseDir readers = .ok s) :
    s.known.lookup name = none ↔ ∀ x ∈ declared, x.name = name → x.values.isNull = true := by
  rw [lookup_eq_none_iff, known_names h, List.mem_map]
  constructor
  · intro hnone x hx hname
    by_contra hvalues
    exact hnone ⟨x, List.mem_filter.mpr ⟨hx, by simpa using hvalues⟩, hname⟩
  · rintro hnull ⟨x, hx, hname⟩
    obtain ⟨hmem, hgiven⟩ := List.mem_filter.mp hx
    rw [hnull x hmem hname] at hgiven
    cases hgiven

theorem exists_source (h : ofDeclarations declared baseDir readers = .ok s)
    {source : Option String} (hsource : s.sources.lookup name = some source) :
    ∃ x ∈ declared, x.name = name ∧ x.values.isNull = true ∧ x.source = source := by
  have hmem := mem_of_lookup hsource
  rw [(ofDeclarations_eq_ok h).2] at hmem
  obtain ⟨x, hx, heq⟩ := List.mem_map.mp hmem
  obtain ⟨hdeclared, hnull⟩ := List.mem_filter.mp hx
  cases heq
  exact ⟨x, hdeclared, rfl, hnull, rfl⟩

theorem lookup_sources_eq_none (h : ofDeclarations declared baseDir readers = .ok s) :
    s.sources.lookup name = none ↔ ∀ x ∈ declared, x.name = name → x.values.isNull = false := by
  rw [lookup_eq_none_iff, (ofDeclarations_eq_ok h).2, List.map_map, List.mem_map]
  constructor
  · intro hnone x hx hname
    by_contra hvalues
    exact hnone ⟨x, List.mem_filter.mpr ⟨hx, by simpa using hvalues⟩, hname⟩
  · rintro hgiven ⟨x, hx, hname⟩
    obtain ⟨hmem, hnull⟩ := List.mem_filter.mp hx
    rw [hgiven x hmem hname] at hnull
    cases hnull

theorem contains_iff (h : ofDeclarations declared baseDir readers = .ok s) :
    s.contains name = true ↔ name ∈ declared.map (·.name) := by
  unfold contains
  rw [Bool.or_eq_true, Option.isSome_iff_ne_none, Option.isSome_iff_ne_none, List.mem_map]
  constructor
  · rintro (hknown | hsource)
    · obtain ⟨p, hp⟩ := Option.ne_none_iff_exists'.mp hknown
      obtain ⟨x, hx, hname, -⟩ := exists_given h hp
      exact ⟨x, hx, hname⟩
    · obtain ⟨source, hsource⟩ := Option.ne_none_iff_exists'.mp hsource
      obtain ⟨x, hx, hname, -⟩ := exists_source h hsource
      exact ⟨x, hx, hname⟩
  · rintro ⟨x, hx, hname⟩
    rw [Ne, Ne, lookup_known_eq_none h, lookup_sources_eq_none h]
    by_cases hnull : x.values.isNull = true
    · exact Or.inr fun hall => by simp [hall x hx hname] at hnull
    · exact Or.inl fun hall => hnull (hall x hx hname)

end

/-- What a store does with a call, after all the calls before it. -/
structure Serves (declared : List DataSource) (s₀ : Store) (earlier : List Call) (c : Call) :
    Prop where
  /-- Inline values are the answer, and no file is opened for them. -/
  inline : (∃ x ∈ declared, x.name = c.name ∧ x.values.isNull = false) →
    (s₀.after earlier).opens c.name = none ∧
      ∃ x ∈ declared, x.name = c.name ∧ ∃ p, Payload.ofValue x.values = .ok p ∧
        (s₀.after earlier).call c = (.ok (c.request.answer p), s₀.after earlier)
  /-- A file that is opened is the source of the name, and no call on the name was answered. -/
  own : ∀ path, (s₀.after earlier).opens c.name = some path →
    ¬ s₀.Answered earlier c.name ∧
      ∃ x ∈ declared, x.name = c.name ∧ x.values.isNull = true ∧
        x.source.map s₀.pathOf = some path
  /-- As long as no call on the name was answered, the source is read, as it is by now. -/
  again : (∃ x ∈ declared, x.name = c.name) →
    (∀ x ∈ declared, x.name = c.name → x.values.isNull = true) → ¬ s₀.Answered earlier c.name →
    ∃ x ∈ declared, x.name = c.name ∧
      (s₀.after earlier).opens c.name = x.source.map s₀.pathOf ∧
      ((s₀.after earlier).call c).1 =
        (s₀.readSource c.files c.name x.source).map c.request.answer
  /-- No other file plays a part. -/
  unaffected : ∀ files : Files, (∀ path, (s₀.after earlier).opens c.name = some path →
      files.contents path = c.files.contents path) →
    (s₀.after earlier).call { c with files } = (s₀.after earlier).call c
  /-- An answer is given again to each later call on the name, and nothing changes any more. -/
  stable : ∀ a, ((s₀.after earlier).call c).1 = .ok a → ∃ p, a = c.request.answer p ∧
    ∀ (between : List Call) (later : Call), later.name = c.name →
      (s₀.after (earlier ++ c :: between)).opens later.name = none ∧
        (s₀.after (earlier ++ c :: between)).call later =
          (.ok (later.request.answer p), s₀.after (earlier ++ c :: between))
  /-- A call that fails leaves no trace. -/
  failed : ∀ e, ((s₀.after earlier).call c).1 = .error e →
    ((s₀.after earlier).call c).2 = s₀.after earlier
  /-- The names are those of the declarations. -/
  names : ∀ name, (((s₀.after earlier).call c).2.contains name = true ↔
      name ∈ declared.map (·.name)) ∧
    (name ∈ ((s₀.after earlier).call c).2.names ↔ name ∈ declared.map (·.name))

section

variable {declared : List DataSource} {baseDir : Option String} {readers : Readers} {s₀ : Store}
  {earlier : List Call} {c : Call}

theorem opens_of_known {s : Store} {name : String} {p : Payload}
    (h : s.known.lookup name = some p) : s.opens name = none := by
  rw [opens, h]

theorem pathOf_after : (s₀.after earlier).pathOf = s₀.pathOf := by
  funext source
  unfold pathOf
  rw [(sameSources_after s₀ earlier).baseDir]

theorem readSource_after {files : Files} {name : String} {source : Option String} :
    (s₀.after earlier).readSource files name source = s₀.readSource files name source := by
  unfold readSource
  rw [(sameSources_after s₀ earlier).baseDir, (sameSources_after s₀ earlier).readers]

theorem serves_of_ofDeclarations (h : ofDeclarations declared baseDir readers = .ok s₀)
    (earlier : List Call) (c : Call) : Serves declared s₀ earlier c := by
  have hsame := sameSources_after s₀ earlier
  refine ⟨?_, ?_, ?_, fun _ => call_congr, ?_, fun _ => call_failed, ?_⟩
  · rintro ⟨x, hx, hname, hvalues⟩
    have hgiven : s₀.known.lookup c.name ≠ none := fun hnone => by
      simp [(lookup_known_eq_none h).mp hnone x hx hname] at hvalues
    obtain ⟨p, hp⟩ := Option.ne_none_iff_exists'.mp hgiven
    obtain ⟨y, hy, hyname, -, hpayload⟩ := exists_given h hp
    have hknown : (s₀.after earlier).known.lookup c.name = some p := lookup_after hp
    exact ⟨opens_of_known hknown, y, hy, hyname, p, hpayload, call_known hknown⟩
  · intro path hopens
    cases hknown : (s₀.after earlier).known.lookup c.name with
    | some p =>
      rw [opens_of_known hknown] at hopens
      cases hopens
    | none =>
      refine ⟨(lookup_after_eq_none.mp hknown).2, ?_⟩
      rw [opens, hknown, hsame.sources, pathOf_after] at hopens
      obtain ⟨source, hsource, hpath⟩ := Option.map_eq_some_iff.mp hopens
      obtain ⟨x, hx, hname, hnull, hxsource⟩ := exists_source h (Option.join_eq_some_iff.mp hsource)
      exact ⟨x, hx, hname, hnull, by rw [hxsource, ← hpath]; rfl⟩
  · rintro ⟨x, hx, hname⟩ hnull hanswered
    have hgiven : s₀.known.lookup c.name = none := (lookup_known_eq_none h).mpr hnull
    have hknown : (s₀.after earlier).known.lookup c.name = none :=
      lookup_after_eq_none.mpr ⟨hgiven, hanswered⟩
    have hsource : s₀.sources.lookup c.name ≠ none := fun hnone => by
      simpa [hnull x hx hname] using (lookup_sources_eq_none h).mp hnone x hx hname
    obtain ⟨source, hsource⟩ := Option.ne_none_iff_exists'.mp hsource
    obtain ⟨y, hy, hyname, -, rfl⟩ := exists_source h hsource
    refine ⟨y, hy, hyname, ?_, ?_⟩
    · rw [opens, hknown, hsame.sources, pathOf_after, hsource]
      rfl
    · rw [call_unknown hknown, reading, hsame.sources, hsource]
      dsimp only
      rw [readSource_after]
      cases s₀.readSource c.files c.name y.source <;> rfl
  · intro a ha
    obtain ⟨p, hp, hfirst⟩ := lookup_of_answered ha []
    refine ⟨p, hp, fun between later hlater => ?_⟩
    have hknown : (s₀.after (earlier ++ c :: between)).known.lookup later.name = some p := by
      rw [hlater, List.append_cons, after_append]
      exact lookup_after hfirst
    exact ⟨opens_of_known hknown, call_known hknown⟩
  · intro name
    have hcontains : ((s₀.after earlier).call c).2.contains name = true ↔
        name ∈ declared.map (·.name) := by
      rw [(sameSources_call _ c).contains, hsame.contains, contains_iff h]
    exact ⟨hcontains, by rw [mem_names, hcontains]⟩

end

end Store

namespace Document

/-- The store of a document, after any calls and whatever has become of the files: inline values
are answered without a file; a source is read by calls on its own name, as it is at the time, until
one of them is answered; that answer is for good. Calls that fail leave the store as it was, and
none changes its names. -/
theorem store_serves {d : Document} {baseDir : Option String} {s₀ : Store}
    (h : d.store baseDir = .ok s₀) (earlier : List Store.Call) (c : Store.Call) :
    Store.Serves d.dataSources s₀ earlier c :=
  Store.serves_of_ofDeclarations h earlier c

/-- A document with inline numbers and with a table in a file. -/
def tabled : Document where
  version := "1.0.0"
  name := "tabled"
  indexBase := 0
  exprLang := exprLanguage
  parameters := []
  vars := []
  data := [⟨"given", none, .list [.int 1], none⟩, ⟨"rows", some "rows.csv", .null, none⟩]
  functions := []
  interactions := []
  terms := []
  components := []
  hamiltonians := []
  ensemble := []

def tabledStore : Store where
  known := [("given", .array ⟨[1], .ints #[1], rfl⟩)]
  sources := [("rows", some "rows.csv")]
  baseDir := none
  readers := .standard

/-- The files without and with the table. -/
def filesBefore : Files := ⟨[], []⟩
def filesWritten : Files := ⟨[], [(["rows.csv"], "1\n2\n".toUTF8)]⟩

def table : Payload := .array ⟨[2], .ints #[1, 2], rfl⟩

theorem contents_before :
    filesBefore.contents (Path.ofText "rows.csv") = Failure.refuse .missingFile :=
  (Files.contents_name (by decide +kernel) (by decide) (by decide) (by decide)).trans rfl

theorem contents_written :
    filesWritten.contents (Path.ofText "rows.csv") = .ok "1\n2\n".toUTF8 :=
  (Files.contents_name (by decide +kernel) (by decide) (by decide) (by decide)).trans rfl

theorem reading_before : ∃ e, tabledStore.reading filesBefore "rows" = .error e := by
  have hread : ∃ e, Readers.standard.read filesBefore "rows.csv" none none =
      .error (.refusal ⟨.missingFile, e⟩) := by
    unfold Readers.read
    dsimp only
    rw [contents_before]
    exact ⟨_, rfl⟩
  obtain ⟨e, hread⟩ := hread
  refine ⟨.diagnostic (Store.unreadable "rows" "rows.csv" ⟨.missingFile, e⟩), ?_⟩
  change tabledStore.readSource filesBefore "rows" (some "rows.csv") = _
  unfold Store.readSource tabledStore
  simp only [hread]
  rfl

theorem reading_written : tabledStore.reading filesWritten "rows" = .ok table := by
  have hkey : Readers.key ".csv" = "csv" := by decide +kernel
  have hsuffix : (Path.ofText "rows.csv").suffix = ".csv" := by decide +kernel
  have htext : Reader.textOf "1\n2\n".toUTF8 = .ok "1\n2\n" := rfl
  have hlines : Csv.IsTable (Csv.numerals [[1], [2]]) "1\n2\n".toList :=
    .cons [['1']] List.mem_cons_self (.cons [['2']] List.mem_cons_self .nil)
  have hfits : ∀ row ∈ ([[1], [2]] : List (List ℤ)), ∀ k ∈ row, Payload.Fits k := by
    unfold Payload.Fits
    decide
  have hcsv : Reader.csv (Path.ofText "rows.csv") "1\n2\n".toUTF8 = .ok table := by
    unfold Reader.csv
    rw [htext, ok_bind, Csv.read_table hlines (by decide) hfits]
    rfl
  have hget : Readers.standard.get ".csv" = .ok Reader.csv := by
    unfold Readers.get
    rw [hkey]
    rfl
  have hread : Readers.standard.read filesWritten "rows.csv" none none = .ok table := by
    unfold Readers.read
    dsimp only
    rw [contents_written]
    dsimp only [Option.getD_none]
    rw [hsuffix, hget, ok_bind, hcsv]
  change tabledStore.readSource filesWritten "rows" (some "rows.csv") = _
  unfold Store.readSource tabledStore
  simp only [hread]

/-- The table is asked for before it is there, and read when it is. -/
theorem store_serves_table :
    tabled.store none = .ok tabledStore ∧
    (tabledStore.after [⟨"rows", .payload, filesBefore⟩]).opens "rows" =
      some (Path.ofText "rows.csv") ∧
    ((tabledStore.after [⟨"rows", .payload, filesBefore⟩]).call
      ⟨"rows", .shape, filesWritten⟩).1 = .ok (.shape [2]) ∧
    Store.Serves tabled.dataSources tabledStore [⟨"rows", .payload, filesBefore⟩]
      ⟨"rows", .shape, filesWritten⟩ := by
  have hunknown : tabledStore.known.lookup "rows" = none := by decide
  have hfirst : tabledStore.after [⟨"rows", .payload, filesBefore⟩] = tabledStore := by
    obtain ⟨e, he⟩ := reading_before
    change (tabledStore.call ⟨"rows", .payload, filesBefore⟩).2 = tabledStore
    rw [Store.call_unknown hunknown, he]
  refine ⟨rfl, ?_, ?_, store_serves rfl _ _⟩
  · rw [hfirst]
    decide +kernel
  · rw [hfirst, Store.call_unknown hunknown, reading_written]
    rfl

end Document

end EnergyGraph
