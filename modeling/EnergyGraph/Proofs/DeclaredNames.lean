-- The names that a document declares. Parameters and variables whose names are no identifiers are
-- reported, and so are symbols of interactions; where nothing is reported, all of them are.
import EnergyGraph.Proofs.Denotation
import EnergyGraph.Proofs.ParserModes

namespace EnergyGraph

/-! ## Declarations as they are read -/

/-- The symbols that an interaction declares are identifiers. -/
def InteractionDecl.BindsIdentifiers (i : InteractionDecl) : Prop :=
  ∀ symbols, i.bind = some symbols → ∀ s ∈ symbols, Text.isIdentifier s = true

namespace Document

structure DeclaresIdentifiers (d : Document) : Prop where
  parameters : ∀ p ∈ d.parameters, Text.isIdentifier p.name = true
  vars : ∀ v ∈ d.vars, Text.isIdentifier v.name = true
  interactions : ∀ i ∈ d.interactions, i.BindsIdentifiers
  inline : ∀ c ∈ d.components, ∀ i, c.interaction = .inline i → i.BindsIdentifiers

section

variable {α β : Type} {P : α → Prop} {Q : β → Prop}

/-- What a reading leaves, if it leaves anything, fulfils a condition. -/
def Leaves (P : α → Prop) (x : Except Failure (Option α)) : Prop :=
  Yields (fun found => ∀ a ∈ found, P a) x

theorem leaves_none : Leaves P (pure none) := yields_ok nofun

theorem leaves_some {a : α} (h : P a) : Leaves P (pure (some a)) := by
  apply yields_ok
  rintro _ ⟨⟩
  exact h

/-- The reading ends at what is reported. -/
theorem yields_report {fault : Fault} {path : List String} {f : Unit → Except Failure α} :
    Yields P (report (m := Except Failure) fault path >>= f) := nofun

theorem leaves_bindSome {x : Except Failure (Option α)}
    {f : Option α → Except Failure (Option β)} (hx : Leaves P x) (hnone : f none = pure none)
    (hsome : ∀ a, P a → Leaves Q (f (some a))) : Leaves Q (x >>= f) := by
  refine yields_bind hx fun found hfound => ?_
  cases found with
  | none =>
    rw [hnone]
    exact leaves_none
  | some a => exact hsome a (hfound a rfl)

/-- The same where nothing is known of what the first step leaves. -/
theorem leaves_afterSome {x : Except Failure (Option α)}
    {f : Option α → Except Failure (Option β)} (hnone : f none = pure none)
    (hsome : ∀ a, Leaves Q (f (some a))) : Leaves Q (x >>= f) :=
  leaves_bindSome (P := fun _ => True) (fun _ _ _ _ => trivial) hnone fun a _ => hsome a

theorem yields_readSection {read : String → Value → List String → Except Failure (Option α)}
    (raw : Value) (part : String) (h : ∀ key body path, Leaves P (read key body path)) :
    Yields (fun as => ∀ a ∈ as, P a) (readSection raw part read) :=
  yields_after fun _ => yields_filterMapM _ fun _ => h _ _ _

end

theorem leaves_readParameter (name : String) (body : Value) (path : List String) :
    Leaves (fun p : Parameter => Text.isIdentifier p.name = true)
      (readParameter name body path) := by
  unfold readParameter
  split
  · exact yields_report
  · rename_i hname
    have hname : Text.isIdentifier name = true := by simpa using hname
    split
    · dsimp only
      split
      · exact yields_report
      · exact yields_after fun _ => leaves_some hname
    · exact leaves_some hname

theorem leaves_readVariable (name : String) (body : Value) (path : List String) :
    Leaves (fun v : Variable => Text.isIdentifier v.name = true)
      (readVariable name body path) := by
  unfold readVariable
  split
  · exact yields_report
  · rename_i hname
    have hname : Text.isIdentifier name = true := by simpa using hname
    refine leaves_afterSome rfl fun type => ?_
    refine leaves_afterSome rfl fun shape => ?_
    exact yields_after fun _ => leaves_some hname

theorem isIdentifier_of_symbol? {v : Value} {s : String} (h : symbol? v = some s) :
    Text.isIdentifier s = true := by
  unfold symbol? at h
  split at h
  · split at h
    · cases h
      assumption
    · cases h
  · cases h

theorem isIdentifier_of_symbols {items : List Value} {symbols : List String}
    (h : items.mapM symbol? = some symbols) : ∀ s ∈ symbols, Text.isIdentifier s = true := by
  induction items generalizing symbols with
  | nil =>
    cases h
    exact List.forall_mem_nil _
  | cons v rest ih =>
    rw [List.mapM_cons] at h
    obtain ⟨s, hs, h⟩ := Option.bind_eq_some_iff.mp h
    obtain ⟨others, hothers, h⟩ := Option.bind_eq_some_iff.mp h
    cases h
    exact List.forall_mem_cons.mpr ⟨isIdentifier_of_symbol? hs, ih hothers⟩

theorem leaves_readBind (raw : Value) (path : List String) :
    Leaves (fun symbols : List String => ∀ s ∈ symbols, Text.isIdentifier s = true)
      (readBind raw path) := by
  unfold readBind
  dsimp only
  split
  · exact leaves_none
  · split
    · exact yields_report
    · rename_i symbols hsymbols
      have hall : ∀ s ∈ symbols, Text.isIdentifier s = true := by
        obtain ⟨items, -, hitems⟩ := Option.bind_eq_some_iff.mp hsymbols
        exact isIdentifier_of_symbols hitems
      split
      · exact leaves_some hall
      · exact yields_report

theorem leaves_readInteraction (id : String) (body : Value) (path : List String) (inline : Bool) :
    Leaves InteractionDecl.BindsIdentifiers (readInteraction id body path inline) := by
  unfold readInteraction
  split
  · dsimp only
    split
    · exact yields_report
    · refine leaves_afterSome rfl fun kind => ?_
      exact yields_bind (leaves_readBind _ _) fun bind hbind => leaves_some hbind
  · exact yields_report

theorem leaves_readReference {α : Type} {P : α → Prop}
    {read : String → Value → List String → Bool → Except Failure (Option α)} (raw : Value)
    (owner role : String) (path : List String)
    (h : ∀ key body path inline, Leaves P (read key body path inline)) :
    Leaves (fun r : Reference α => ∀ a, r = .inline a → P a)
      (readReference raw owner role path read) := by
  unfold readReference
  split
  · refine yields_bind (h _ _ _ _) fun decl hdecl => yields_ok ?_
    rintro _ hr a rfl
    obtain ⟨b, hb, hinline⟩ := Option.map_eq_some_iff.mp hr
    cases hinline
    exact hdecl a hb
  · exact leaves_some nofun

theorem leaves_readComponent (id : String) (body : Value) (path : List String) :
    Leaves (fun c : ComponentDecl => ∀ i, c.interaction = .inline i → i.BindsIdentifiers)
      (readComponent id body path) := by
  unfold readComponent
  split
  · dsimp only
    split
    · refine leaves_afterSome rfl fun term => ?_
      refine leaves_bindSome (leaves_readReference _ _ _ _ leaves_readInteraction) rfl
        fun interaction hinteraction => ?_
      dsimp only
      split
      · exact leaves_some hinteraction
      · exact leaves_afterSome rfl fun _ => leaves_some hinteraction
    · exact yields_report
  · exact yields_report

theorem yields_check (v : Value) :
    Yields DeclaresIdentifiers (check (m := Except Failure) v) := by
  unfold check
  split
  · refine yields_after fun _ => yields_after fun ⟨_, _⟩ => ?_
    refine yields_bind (yields_readSection _ _ leaves_readParameter) fun _ hparameters => ?_
    refine yields_bind (yields_readSection _ _ leaves_readVariable) fun _ hvars => ?_
    refine yields_after fun _ => yields_after fun _ => yields_after fun _ => ?_
    refine yields_bind (yields_readSection _ _ fun _ _ _ => leaves_readInteraction _ _ _ _)
      fun _ hinteractions => yields_after fun _ => ?_
    refine yields_bind (yields_readSection _ _ leaves_readComponent) fun _ hcomponents => ?_
    refine yields_after fun _ => yields_after fun _ => ?_
    exact yields_ok ⟨hparameters, hvars, hinteractions, hcomponents⟩
  · exact yields_report

/-- What is parsed in either mode is what a check comes to that ends at the first mistake. -/
theorem check_of_parse {v : Value} {collect : Bool} {d : Document} (h : parse v collect = .ok d) :
    check (m := Except Failure) v = .ok d := by
  have hagrees : Findings.Agrees False (check v) (check v) := agrees_check v
  have hclean : Findings.Clean (check v) d := (Findings.settle_eq_ok hagrees).mp h
  have hfirst : parse v false = .ok d := (Findings.settle_eq_ok hagrees).mpr hclean
  exact hfirst

theorem declaresIdentifiers_of_parse {v : Value} {collect : Bool} {d : Document}
    (h : parse v collect = .ok d) : DeclaresIdentifiers d :=
  yields_check v d (check_of_parse h)

/-! ## All declared names -/

/-- The names that stand for numbers and arrays. -/
def declaredNames (d : Document) : List String :=
  d.parameters.map (·.name) ++ d.vars.map (·.name)

/-- The symbols that interactions bind, those inside of components among them. -/
def boundSymbols (d : Document) : List String :=
  (Graph.declaredInteractions d).flatMap fun i => i.bind.getD []

section

variable {d : Document} (h : d.DeclaresIdentifiers)

include h

theorem DeclaresIdentifiers.names : ∀ n ∈ d.declaredNames, Text.isIdentifier n = true := by
  intro n hn
  rcases List.mem_append.mp hn with hn | hn
  · obtain ⟨p, hp, rfl⟩ := List.mem_map.mp hn
    exact h.parameters p hp
  · obtain ⟨v, hv, rfl⟩ := List.mem_map.mp hn
    exact h.vars v hv

theorem DeclaresIdentifiers.symbols : ∀ s ∈ d.boundSymbols, Text.isIdentifier s = true := by
  intro s hs
  obtain ⟨i, hi, hs⟩ := List.mem_flatMap.mp hs
  have hbinds : i.BindsIdentifiers := by
    rcases List.mem_append.mp hi with hi | hi
    · exact h.interactions i hi
    · obtain ⟨c, hc, hi⟩ := List.mem_filterMap.mp hi
      split at hi
      · rename_i hinline
        cases hi
        exact h.inline c hc _ hinline
      · cases hi
  cases hbind : i.bind with
  | none =>
    rw [hbind] at hs
    cases hs
  | some symbols =>
    rw [hbind] at hs
    exact hbinds symbols hbind s hs

end

end Document

end EnergyGraph
