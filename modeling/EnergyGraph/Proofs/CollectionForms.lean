-- A collection of a document is a mapping from keys to bodies, or a list of bodies that hold
-- their keys. Both are the same document: what a reader is handed differs in the member that
-- holds the key only, and no reader looks at it. That is shown reader by reader, and for the
-- pass over the entries in front of them; what gathers the reports is left open.
import EnergyGraph.Document.Parser
import EnergyGraph.Proofs.Steps

namespace EnergyGraph.Document

/-! ## Two forms of a collection -/

/-- The names of the members that may hold the key of an entry. -/
def keyFields : List String := ["id", "name"]

/-- The collections of a document. -/
def collections : List String :=
  ["parameters", "variables", "data", "functions", "interactions", "terms", "components",
    "hamiltonians"]

/-- A body that is a mapping and does not hold a key. -/
def IsUnkeyed (body : Value) : Prop :=
  ∃ o : Object, body = .object o ∧ ∀ field ∈ keyFields, field ∉ Object.names o

/-- The body of an entry with its key in front of the other members. -/
def keyed (field : String) (entry : String × Value) : Value :=
  .object ((field, .text entry.1) :: entry.2.members)

/-- A list in place of a mapping. The keys of its entries are members of their bodies. -/
inductive Listed : Value → Value → Prop
  | intro {field : String} {entries : Object} (hfield : field ∈ keyFields)
    (hbodies : ∀ e ∈ entries, IsUnkeyed e.2) :
    Listed (.object entries) (.list (entries.map (keyed field)))

/-- The same members, some collections as lists in place of mappings. -/
def Restyled (o o' : Object) : Prop :=
  List.Forall₂ (fun p p' => p'.1 = p.1 ∧ (p'.2 = p.2 ∨ p.1 ∈ collections ∧ Listed p.2 p'.2)) o o'

/-! ## Members beside the key -/

section

variable {o : Object} {field name : String} {v : Value}

theorem member?_beside (hfield : field ∈ keyFields) (h : name ∉ keyFields) :
    member? ((field, v) :: o) name = member? o name := by
  have hne : name ≠ field := fun heq => h (heq ▸ hfield)
  unfold member? Object.get?
  rw [lookup_cons_of_ne hne]

theorem member_beside (hfield : field ∈ keyFields) (h : name ∉ keyFields) :
    member ((field, v) :: o) name = member o name := by
  unfold member
  rw [member?_beside hfield h]

theorem memberOr_beside {other : String} (hfield : field ∈ keyFields) (h : name ∉ keyFields)
    (hother : other ∉ keyFields) :
    memberOr ((field, v) :: o) name other = memberOr o name other := by
  unfold memberOr
  rw [member?_beside hfield h, member_beside hfield hother]

theorem hasMember_beside (hfield : field ∈ keyFields) (h : name ∉ keyFields) :
    hasMember ((field, v) :: o) name = hasMember o name := by
  unfold hasMember
  rw [member?_beside hfield h]

theorem member?_eq_none (h : name ∉ Object.names o) : member? o name = none := by
  unfold member? Object.get?
  rw [lookup_eq_none_iff.mpr h]

end

variable {m : Type → Type} [Monad m] [Reports m] {α β : Type}

/-! ## Readers that do not look at the key -/

/-- A reader makes the same of a body whether or not it holds its key. -/
def Overlooks (read : String → Value → List String → m (Option α)) : Prop :=
  ∀ field ∈ keyFields, ∀ key (o : Object) v path,
    read key (.object ((field, v) :: o)) path = read key (.object o) path

theorem overlooks_readParameter : Overlooks (m := m) readParameter := by
  intro field hfield key o v path
  unfold readParameter
  simp (disch := decide) only [member?_beside hfield, member_beside hfield]

theorem overlooks_readVariable : Overlooks (m := m) readVariable := by
  intro field hfield key o v path
  unfold readVariable
  simp (disch := decide) only [member?_beside hfield, member_beside hfield]

theorem overlooks_readData : Overlooks (m := m) readData := by
  intro field hfield key o v path
  unfold readData
  simp (disch := decide) only [member?_beside hfield, member_beside hfield,
    hasMember_beside hfield]

theorem overlooks_readFunction : Overlooks (m := m) readFunction := by
  intro field hfield key o v path
  unfold readFunction
  simp (disch := decide) only [member?_beside hfield, member_beside hfield, List.findSome?]

/-- The key is a field that all interactions have, and none of their own. -/
theorem overlooks_readInteraction :
    Overlooks (m := m) fun id body path => readInteraction id body path false := by
  intro field hfield key o v path
  have hcommon : field ∈ commonInteractionFields := by
    rcases List.mem_cons.mp hfield with rfl | hname
    · decide
    · rw [List.mem_singleton.mp hname]
      decide
  unfold readInteraction
  simp (disch := decide) only [memberOr_beside hfield, member_beside hfield, List.filter_cons,
    List.contains_eq_mem, hcommon, decide_true, Bool.not_true, Bool.false_eq_true, if_false]

theorem overlooks_readTerm :
    Overlooks (m := m) fun id body path => readTerm id body path false := by
  intro field hfield key o v path
  unfold readTerm impliedKind
  simp (disch := decide) only [member?_beside hfield, member_beside hfield,
    memberOr_beside hfield, hasMember_beside hfield]

theorem overlooks_readComponent : Overlooks (m := m) readComponent := by
  intro field hfield key o v path
  unfold readComponent
  simp (disch := decide) only [member?_beside hfield, member_beside hfield,
    memberOr_beside hfield]

theorem overlooks_readHamiltonian : Overlooks (m := m) readHamiltonian := by
  intro field hfield key o v path
  unfold readHamiltonian
  simp (disch := decide) only [member_beside hfield]

/-! ## Entries -/

variable [LawfulMonad m]

/-- The key of a body in a list is found, under either name. -/
theorem entryKey?_keyed {field : String} (hfield : field ∈ keyFields) {key : String} {o : Object}
    (h : ∀ field ∈ keyFields, field ∉ Object.names o) :
    entryKey? ((field, .text key) :: o) = some (.text key) := by
  unfold entryKey?
  rcases List.mem_cons.mp hfield with rfl | hname
  · rfl
  · rw [List.mem_singleton.mp hname]
    have hid : member? (("name", .text key) :: o) "id" = none :=
      member?_eq_none (o := o) (h "id" (by decide))
    rw [hid]
    rfl

/-- A list of bodies that hold their keys has the entries of the mapping. -/
theorem listEntries_keyed {field : String} (hfield : field ∈ keyFields) (part : String)
    {entries : Object} (h : ∀ e ∈ entries, IsUnkeyed e.2) (place : Nat) :
    (listEntries part place (entries.map (keyed field)) : m Object) =
      pure (entries.map fun e => (e.1, keyed field e)) := by
  induction entries generalizing place with
  | nil => rfl
  | cons e rest ih =>
    obtain ⟨key, body⟩ := e
    obtain ⟨o, rfl, ho⟩ := h (key, body) List.mem_cons_self
    have hkeyed : keyed field (key, .object o) = .object ((field, .text key) :: o) := rfl
    rw [List.map_cons, hkeyed, listEntries, entryKey?_keyed hfield ho]
    dsimp only
    rw [ih (fun e he => h e (List.mem_cons_of_mem _ he)), pure_bind]
    rfl

/-- Dropping entries goes by their keys, so that the same entries are left of both forms. -/
theorem distinctEntries_bind {field : String} {part : String} {entries : Object}
    {next next' : Object → m β}
    (h : ∀ found : Object, (∀ e ∈ found, e ∈ entries) →
      next' (found.map fun e => (e.1, keyed field e)) = next found) (seen : List String) :
    (distinctEntries part seen (entries.map fun e => (e.1, keyed field e)) >>= next') =
      distinctEntries part seen entries >>= next := by
  induction entries generalizing seen next next' with
  | nil =>
    simp only [List.map_nil, distinctEntries, pure_bind]
    exact h [] (fun _ he => he)
  | cons e rest ih =>
    obtain ⟨key, body⟩ := e
    rw [List.map_cons, distinctEntries, distinctEntries]
    dsimp only
    by_cases hseen : key ∈ seen
    · rw [if_pos hseen, if_pos hseen, bind_assoc, bind_assoc]
      refine bind_congr fun _ => ih (fun found hfound => ?_) seen
      exact h found fun e he => List.mem_cons_of_mem _ (hfound e he)
    · rw [if_neg hseen, if_neg hseen, bind_assoc, bind_assoc]
      simp only [pure_bind]
      refine ih (fun found hfound => ?_) (key :: seen)
      refine h ((key, body) :: found) fun e he => ?_
      rcases List.mem_cons.mp he with rfl | he
      · exact List.mem_cons_self
      · exact List.mem_cons_of_mem _ (hfound e he)

/-- A section reads the same in both forms, if its reader does not look at the keys. -/
theorem readSection_listed {read : String → Value → List String → m (Option α)}
    (hread : Overlooks read) {raw raw' : Value} (h : Listed raw raw') (part : String) :
    readSection raw' part read = readSection raw part read := by
  obtain ⟨hfield, hbodies⟩ := h
  unfold readSection entries
  dsimp only
  rw [listEntries_keyed hfield part hbodies, pure_bind]
  refine distinctEntries_bind (fun found hfound => ?_) []
  refine filterMapM_map fun e he => ?_
  obtain ⟨key, body⟩ := e
  obtain ⟨o, rfl, -⟩ := hbodies _ (hfound _ he)
  exact hread _ hfield key o (.text key) [part, key]

/-! ## Documents -/

section

variable {o o' : Object}

/-- A member is the same in both documents, or it is a collection in two forms. -/
theorem member_restyled (h : Restyled o o') (name : String) :
    member o' name = member o name ∨
      name ∈ collections ∧ Listed (member o name) (member o' name) := by
  unfold member member? Object.get?
  induction h with
  | nil => exact Or.inl rfl
  | @cons p p' rest rest' hp _ ih =>
    obtain ⟨n, v⟩ := p
    obtain ⟨n', v'⟩ := p'
    obtain ⟨hn, hv⟩ := hp
    dsimp only at hn hv
    subst hn
    rw [List.lookup_cons, List.lookup_cons]
    by_cases hname : name = n'
    · subst hname
      rw [beq_self_eq_true]
      exact hv
    · rw [beq_eq_false_iff_ne.mpr hname]
      exact ih

theorem member_eq_of_restyled (h : Restyled o o') {name : String} (hname : name ∉ collections) :
    member o' name = member o name :=
  (member_restyled h name).resolve_right fun hlisted => hname hlisted.1

theorem readSection_restyled {read : String → Value → List String → m (Option α)}
    (hread : Overlooks read) (h : Restyled o o') (part : String) :
    readSection (member o' part) part read = readSection (member o part) part read := by
  rcases member_restyled h part with heq | ⟨-, hlisted⟩
  · rw [heq]
  · exact readSection_listed hread hlisted part

omit [LawfulMonad m] in
theorem checkHeader_restyled (h : Restyled o o') : (checkHeader o' : m Unit) = checkHeader o := by
  unfold checkHeader
  rw [member_eq_of_restyled h (by decide), member_eq_of_restyled h (by decide)]
  congr 1
  induction h with
  | nil => rfl
  | @cons p p' rest rest' hp _ ih =>
    obtain ⟨name, v⟩ := p
    obtain ⟨name', v'⟩ := p'
    obtain ⟨rfl, -⟩ := hp
    rw [List.forIn_cons, List.forIn_cons]
    refine bind_congr fun step => ?_
    cases step with
    | done b => rfl
    | yield b => exact ih

/-- What is found in a document does not depend on the forms of its collections. -/
theorem check_restyled (h : Restyled o o') :
    (check (.object o') : m Document) = check (.object o) := by
  unfold check
  dsimp only
  have hkept : ∀ name ∉ collections, member o' name = member o name := fun _ =>
    member_eq_of_restyled h
  rw [checkHeader_restyled h]
  simp only [hkept "conventions" (by decide), hkept "ensemble" (by decide),
    hkept "version" (by decide), hkept "name" (by decide),
    readSection_restyled overlooks_readParameter h, readSection_restyled overlooks_readVariable h,
    readSection_restyled overlooks_readData h, readSection_restyled overlooks_readFunction h,
    readSection_restyled overlooks_readInteraction h, readSection_restyled overlooks_readTerm h,
    readSection_restyled overlooks_readComponent h,
    readSection_restyled overlooks_readHamiltonian h]

/-- A document in which collections are lists in place of mappings is the same document, or has
the same mistakes in the same order, whether the first of them is told or all are. -/
theorem parse_restyled (h : Restyled o o') (collect : Bool) :
    parse (.object o') collect = parse (.object o) collect := by
  unfold parse Findings.settle
  dsimp only
  rw [check_restyled h, check_restyled h]

end

/-- Interactions by their ids, and a parameter without a name that it could have. -/
def mappedSample : Object :=
  [("version", .text "1.0.0"), ("name", .text "toy"),
    ("parameters", .object [("2n", .object [("default", .int 3)])]),
    ("interactions", .object [("all", .object [("type", .text "none")])])]

/-- The same with lists. -/
def listedSample : Object :=
  [("version", .text "1.0.0"), ("name", .text "toy"),
    ("parameters", .list [.object [("name", .text "2n"), ("default", .int 3)]]),
    ("interactions", .list [.object [("id", .text "all"), ("type", .text "none")]])]

/-- Both tell the same mistake. -/
theorem parse_restyled_sample : Restyled mappedSample listedSample ∧
    parse (.object listedSample) true = parse (.object mappedSample) true := by
  have hrestyled : Restyled mappedSample listedSample := by
    refine .cons ⟨rfl, Or.inl rfl⟩ (.cons ⟨rfl, Or.inl rfl⟩ (.cons ⟨rfl, Or.inr ⟨by decide, ?_⟩⟩
      (.cons ⟨rfl, Or.inr ⟨by decide, ?_⟩⟩ .nil)))
    · exact @Listed.intro "name" [("2n", .object [("default", .int 3)])] (by decide) fun e he =>
        ⟨[("default", .int 3)], by rw [List.mem_singleton.mp he], by decide⟩
    · exact @Listed.intro "id" [("all", .object [("type", .text "none")])] (by decide) fun e he =>
        ⟨[("type", .text "none")], by rw [List.mem_singleton.mp he], by decide⟩
  exact ⟨hrestyled, parse_restyled hrestyled true⟩

end EnergyGraph.Document
