-- Which data a document reads. Data are asked for in five places, and each has its own
-- notion of the names that it needs; all of them stay within the footprint of the
-- document. Two stores that answer alike there build the same graph and give it the same
-- energies, so what else a store holds is never seen.
import EnergyGraph.Energy.Evaluate
import EnergyGraph.Proofs.Completeness
import EnergyGraph.Proofs.Walking

namespace EnergyGraph

/-! ## Answers -/

/-- The same payload or the same failure. Where the name is not known to either store only the
words may differ, which tell what other names there are. -/
def Alike (x y : Except Failure Payload) : Prop :=
  x = y ∨ ∃ e f, x = .error e ∧ y = .error f ∧ e.isUnknownName = true ∧ f.isUnknownName = true

/-- Two stores answer alike for all of these names. -/
def Lookup.AlikeOn (names : List String) (x y : Lookup) : Prop := ∀ n ∈ names, Alike (x n) (y n)

/-- What is made of an answer where the words of a failed look-up are left out. -/
def ofAnswer {β : Type} (known : Payload → Except Failure β) (unknown : Except Failure β) :
    Except Failure Payload → Except Failure β
  | .ok p => known p
  | .error e => if e.isUnknownName then unknown else .error e

theorem Alike.ofAnswer_eq {β : Type} {x y : Except Failure Payload} (h : Alike x y)
    (known : Payload → Except Failure β) (unknown : Except Failure β) :
    ofAnswer known unknown x = ofAnswer known unknown y := by
  rcases h with rfl | ⟨e, f, rfl, rfl, he, hf⟩
  · rfl
  · simp only [ofAnswer, he, hf, if_true]

namespace Graph

/-! ## The footprint -/

/-- Every formula of a term, of whatever kind the term is. -/
def termFormulas (t : TermDecl) : List Formula := t.expr.toList ++ t.args

/-- The formulas of the terms that components use, and the weights. -/
def readFormulas (d : Document) : List Formula :=
  (d.components.filterMap (termOf? d)).flatMap termFormulas ++
    d.hamiltonians.flatMap (fun h => h.components.map (·.weight)) ++
    d.ensemble.map (·.weight)

/-- The name that a source is looked up by: its text without the mark. -/
def sourceName? (i : InteractionDecl) : Option String :=
  match Object.get? i.spec "source" with
  | none | some .null => none
  | some v => some ((Interaction.dataName? v.plain).getD v.plain)

/-- The names in the fields of an interaction that data can be named in. -/
def fieldNames (i : InteractionDecl) : List String :=
  (sourceName? i).toList ++
    ["factor", "U"].filterMap fun field => (Object.get? i.spec field).bind dataReference?

/-- The names of data that a document can read. -/
def footprint (d : Document) : List String :=
  (readFormulas d).flatMap (fun f => f.body.mentioned) ++
    (d.components.filterMap (interactionOf? d)).flatMap fieldNames ++
    d.vars.flatMap boundNames

variable {d : Document} {name : String}

theorem mentioned_footprint {f : Formula} (hf : f ∈ readFormulas d) (h : name ∈ f.body.mentioned) :
    name ∈ footprint d := by
  unfold footprint
  simp only [List.mem_append, List.mem_flatMap]
  exact Or.inl (Or.inl ⟨f, hf, h⟩)

theorem fieldNames_footprint {c : ComponentDecl} {i : InteractionDecl} (hc : c ∈ d.components)
    (hi : interactionOf? d c = some i) (h : name ∈ fieldNames i) : name ∈ footprint d := by
  unfold footprint
  simp only [List.mem_append, List.mem_flatMap, List.mem_filterMap]
  exact Or.inl (Or.inr ⟨i, ⟨c, hc, hi⟩, h⟩)

theorem boundNames_footprint {v : Variable} (hv : v ∈ d.vars) (h : name ∈ boundNames v) :
    name ∈ footprint d := by
  unfold footprint
  simp only [List.mem_append, List.mem_flatMap]
  exact Or.inr ⟨v, hv, h⟩

/-! ## Formulas -/

theorem formulas_subset (t : TermDecl) : t.formulas ⊆ termFormulas t := by
  intro f hf
  unfold TermDecl.formulas at hf
  unfold termFormulas
  split at hf
  · exact List.mem_append_right _ hf
  · exact List.mem_append_left _ hf

theorem usedFormulas_subset : usedFormulas d ⊆ readFormulas d := by
  intro f hf
  unfold usedFormulas at hf
  unfold readFormulas
  simp only [List.mem_append, List.mem_flatMap] at hf ⊢
  rcases hf with (⟨t, ht, hf⟩ | hf) | hf
  · exact Or.inl (Or.inl ⟨t, ht, formulas_subset t hf⟩)
  · exact Or.inl (Or.inr hf)
  · exact Or.inr hf

theorem sourceNames_subset (i : InteractionDecl) : sourceNames i ⊆ fieldNames i := by
  intro n hn
  unfold sourceNames at hn
  obtain ⟨field, hfield, hn⟩ := List.mem_filterMap.mp hn
  unfold fieldNames
  by_cases hsource : field = "source"
  · apply List.mem_append_left
    subst hsource
    unfold sourceName?
    cases hget : Object.get? i.spec "source" with
    | none => simp [hget] at hn
    | some v =>
      rw [hget] at hn
      cases v <;> simp_all [dataReference?, Value.plain]
  · apply List.mem_append_right
    refine List.mem_filterMap.mpr ⟨field, ?_, hn⟩
    simpa [sourceFields, hsource] using hfield

/-- What the build takes for the names of data is in the footprint. -/
theorem referencedNames_subset : referencedNames d ⊆ footprint d := by
  intro n hn
  unfold referencedNames at hn
  simp only [List.mem_append, List.mem_flatMap, List.mem_filterMap] at hn
  rcases hn with (⟨f, hf, hn⟩ | ⟨i, ⟨c, hc, hi⟩, hn⟩) | ⟨v, hv, hn⟩
  · exact mentioned_footprint (usedFormulas_subset hf) hn
  · exact fieldNames_footprint hc hi (sourceNames_subset i hn)
  · exact boundNames_footprint hv hn

end Graph

/-! ## Interactions -/

namespace Interaction

variable {s : Surroundings} {y : Lookup} {name id : String}

theorem lookUp_alike (h : Alike (s.data name) (y name)) (unknown : Fault) :
    lookUp s name id unknown = lookUp { s with data := y } name id unknown := by
  have hof : ∀ t : Surroundings,
      lookUp t name id unknown = ofAnswer .ok (fail unknown id) (t.data name) := by
    intro t
    unfold lookUp
    cases t.data name <;> rfl
  rw [hof, hof]
  exact h.ofAnswer_eq _ _

theorem payloadOf_alike {source : String}
    (h : Alike (s.data ((dataName? source).getD source)) (y ((dataName? source).getD source))) :
    payloadOf s source id = payloadOf { s with data := y } source id := by
  unfold payloadOf
  cases hmark : dataName? source with
  | some name =>
    rw [hmark] at h
    exact lookUp_alike h _
  | none =>
    rw [hmark] at h
    exact h.ofAnswer_eq Except.ok (readFile s source id)

variable {d : InteractionDecl}

/-- The answers that an interaction asks for are alike. -/
def FieldsAlike (s : Surroundings) (y : Lookup) (d : InteractionDecl) : Prop :=
  Lookup.AlikeOn (Graph.fieldNames d) s.data y

theorem delivery_alike (h : FieldsAlike s y d) (fields : List String) :
    delivery s d fields = delivery { s with data := y } d fields := by
  unfold delivery
  split
  · rfl
  · cases hsource : Object.get? d.spec "source" with
    | none => rfl
    | some v =>
      by_cases hnull : v = .null
      · rw [hnull]
        rfl
      · have hname : Graph.sourceName? d = some ((dataName? v.plain).getD v.plain) := by
          unfold Graph.sourceName?
          rw [hsource]
          cases v <;> first | rfl | exact absurd rfl hnull
        have hpayload : payloadOf s v.plain d.id = payloadOf { s with data := y } v.plain d.id := by
          apply payloadOf_alike
          apply h
          exact List.mem_append_left _ (by rw [hname]; exact List.mem_singleton.mpr rfl)
        simp only [Option.getD_some]
        rw [hpayload]

theorem text_of_getD {a b : Option Value} {t : String} (h : a.getD (b.getD .null) = .text t) :
    a = some (.text t) ∨ b = some (.text t) := by
  cases a with
  | some v => exact Or.inl (congrArg some h)
  | none =>
    cases b with
    | some v => exact Or.inr (congrArg some h)
    | none => cases h

theorem matrix_alike (h : FieldsAlike s y d) : matrix s d = matrix { s with data := y } d := by
  unfold matrix
  split
  · rename_i given hgiven
    have hname : (dataName? given).getD given ∈ Graph.fieldNames d := by
      apply List.mem_append_right
      rcases text_of_getD hgiven with hfield | hfield
      · exact List.mem_filterMap.mpr ⟨"factor", by simp, by rw [hfield]; rfl⟩
      · exact List.mem_filterMap.mpr ⟨"U", by simp, by rw [hfield]; rfl⟩
    dsimp only
    rw [lookUp_alike (h _ hname)]
  · rw [delivery_alike h]
  · rfl

/-- An interaction is resolved to the same where the names in its fields are answered alike. -/
theorem resolve_alike (h : FieldsAlike s y d) :
    resolve s d = resolve { s with data := y } d := by
  have hdomain : resolveDomain s d = resolveDomain { s with data := y } d := by
    unfold resolveDomain
    split
    · rfl
    · rfl
    · unfold resolveTuples
      rw [delivery_alike h]
    · unfold resolveGroups
      rw [delivery_alike h]
    · rfl
    · unfold resolveFactor
      rw [matrix_alike h]
  unfold resolve
  rw [hdomain]

end Interaction

/-! ## The build -/

namespace Graph

variable {d : Document} {s : Surroundings} {y : Lookup}

theorem dataBound_alike {owner data : String} (h : Alike (s.data data) (y data)) (shape : Shape) :
    dataBound s owner data shape = dataBound { s with data := y } owner data shape := by
  have hof : ∀ t : Surroundings, dataBound t owner data shape =
      ofAnswer (fun p => do
        let a ← p.floats
        if a.rank ≠ 0 ∧ a.shape ≠ shape then fail (.wrongBoundShape owner data shape a.shape)
        else .ok (.array a)) (fail (.unknownBound owner data)) (t.data data) := by
    intro t
    unfold dataBound
    cases t.data data <;> rfl
  rw [hof, hof]
  exact h.ofAnswer_eq _ _

theorem bound_alike {owner : String} {raw : Value} (unbounded : Float) (shape : Shape)
    (h : ∀ text data, raw = .text text → Interaction.dataName? text = some data →
      Alike (s.data data) (y data)) :
    bound s owner raw unbounded shape = bound { s with data := y } owner raw unbounded shape := by
  unfold bound
  cases raw with
  | text t =>
    cases hdata : Interaction.dataName? t with
    | some data =>
      simp only [hdata]
      exact dataBound_alike (h t data rfl hdata) shape
    | none => simp only [hdata]
  | _ => rfl

theorem resolveVariable_alike {v : Variable} (h : Lookup.AlikeOn (boundNames v) s.data y) :
    resolveVariable s v = resolveVariable { s with data := y } v := by
  have hbound : ∀ raw ∈ [v.lower, v.upper], ∀ unbounded shape,
      bound s v.name raw unbounded shape =
        bound { s with data := y } v.name raw unbounded shape := by
    intro raw hraw unbounded shape
    apply bound_alike
    rintro text data rfl hdata
    apply h
    exact List.mem_filterMap.mpr ⟨_, hraw, hdata⟩
  unfold resolveVariable
  simp only [hbound v.lower (by simp), hbound v.upper (by simp)]
  rfl

theorem dataShape_alike {x : DataDecl} (h : Alike (s.data x.name) (y x.name)) :
    dataShape s x = dataShape { s with data := y } x := by
  have hof : ∀ z : Lookup, dataShape { s with data := z } x =
      ofAnswer (fun p => do
        checkDataShape s x p.shape
        .ok (x.name, p.shape)) (fail (.unavailable x.name)) (z x.name) := by
    intro z
    unfold dataShape
    dsimp only
    cases z x.name <;> rfl
  exact (hof s.data).trans ((h.ofAnswer_eq _ _).trans (hof y).symm)

section

variable {m : Type → Type} [Monad m] [Reports m]

theorem addComponent_alike (h : Lookup.AlikeOn (footprint d) s.data y) {c : ComponentDecl}
    (hc : c ∈ d.components) (scope : Scope) (a : Assembly) :
    addComponent (m := m) d s scope a c = addComponent d { s with data := y } scope a c := by
  have hplace : placeFor (m := m) d s a c = placeFor d { s with data := y } a c := by
    unfold placeFor
    cases hi : interactionOf? d c with
    | none => rfl
    | some i =>
      have hfields : Interaction.FieldsAlike s y i :=
        fun n hn => h n (fieldNames_footprint hc hi hn)
      simp only [placeInteraction]
      rw [Interaction.resolve_alike hfields]
  unfold addComponent
  rw [hplace]

/-- Every part of a document becomes the same, in whatever way mistakes are told. -/
theorem putTogether_alike [LawfulMonad m] (h : Lookup.AlikeOn (footprint d) s.data y)
    (parameters : ResolvedParameters) :
    putTogether (m := m) d parameters s = putTogether d parameters { s with data := y } := by
  have hvars : (d.vars.filterMapM fun v => Findings.attempt (m := m) (resolveVariable s v)) =
      d.vars.filterMapM fun v => Findings.attempt (resolveVariable { s with data := y } v) := by
    apply filterMapM_congr
    intro v hv
    rw [resolveVariable_alike fun n hn => h n (boundNames_footprint hv hn)]
  have hshapes : ((d.data.filter fun x => (referencedNames d).contains x.name).filterMapM fun x =>
        Findings.attempt (m := m) (dataShape s x)) =
      (d.data.filter fun x => (referencedNames d).contains x.name).filterMapM fun x =>
        Findings.attempt (dataShape { s with data := y } x) := by
    apply filterMapM_congr
    intro x hx
    have hname : x.name ∈ referencedNames d := by simpa using (List.mem_filter.mp hx).2
    rw [dataShape_alike (h _ (referencedNames_subset hname))]
  have hcomponents : ∀ scope, d.components.foldlM (addComponent (m := m) d s scope) .empty =
      d.components.foldlM (addComponent d { s with data := y } scope) .empty :=
    fun scope => foldlM_congr (fun c hc a => addComponent_alike h hc scope a) _
  unfold putTogether
  simp only [hvars, hshapes, hcomponents]
  rfl

end

theorem settle_congr {β : Type} {f g : (m : Type → Type) → [Monad m] → [Reports m] → m β}
    (h : ∀ (m : Type → Type) [Monad m] [LawfulMonad m] [Reports m], f m = g m) (collect : Bool) :
    Findings.settle collect f = Findings.settle collect g := by
  unfold Findings.settle
  rw [h Findings, h (Except Failure)]

/-- The same graph is built, or the same is found to be wrong. -/
theorem build_alike {x : Lookup} (h : Lookup.AlikeOn (footprint d) x y) (o : BuildOptions) :
    build d { o with data := some x } = build d { o with data := some y } := by
  have hput : ∀ parameters, Findings.settle o.collect (fun _ =>
      putTogether d parameters (o.surroundings d parameters x)) =
      Findings.settle o.collect fun _ =>
        putTogether d parameters (o.surroundings d parameters y) := by
    intro parameters
    apply settle_congr
    intro m _ _ _
    exact putTogether_alike (s := o.surroundings d parameters x) h parameters
  exact congrArg (o.parametersFor d >>= ·) (funext hput)

/-! ## The graph and its energies -/

/-- Substitution brings in no name. -/
theorem names_substitute {f : Formula} {values : Numbers} {kept : List String} {name : String}
    (h : name ∈ (f.substitute values kept).body.names) : name ∈ f.body.mentioned := by
  obtain ⟨indices, span, hpart⟩ := Expr.mem_names.mp h
  change Expr.Part.expr _ ∈ (f.body.replace values _).walk at hpart
  rw [Expr.walk_replace, List.mem_map] at hpart
  obtain ⟨p, hp, hreplaced⟩ := hpart
  refine List.mem_filterMap.mpr ⟨p, hp, ?_⟩
  cases p with
  | index i => cases hreplaced
  | expr e =>
    cases e with
    | ref n is span' =>
      cases is with
      | nil =>
        simp only [Expr.Part.replace, Expr.replace] at hreplaced
        split at hreplaced <;> cases hreplaced
        rfl
      | cons i rest =>
        cases hreplaced
        rfl
    | _ => cases hreplaced

/-- The nodes of terms are those of terms that components use. -/
def TermsUsed (d : Document) (numbers : Numbers) (a : Assembly) : Prop :=
  ∀ node ∈ a.terms, ∃ c ∈ d.components, ∃ t bound,
    termOf? d c = some t ∧ node = termNode numbers t bound

theorem termsUsed_placeTerm {numbers : Numbers} {a : Assembly} {c : ComponentDecl} {t : TermDecl}
    (hc : c ∈ d.components) (ht : termOf? d c = some t) (bound : List String)
    (ha : TermsUsed d numbers a) : TermsUsed d numbers (placeTerm numbers a t bound).2.2 := by
  have hnew : TermsUsed d numbers { a with
      terms := a.terms ++ [termNode numbers t bound]
      termPlaces := a.termPlaces ++ [((t.id, symbolSet bound), a.terms.length)] } := by
    intro node hnode
    rcases List.mem_append.mp hnode with hnode | hnode
    · exact ha node hnode
    · exact ⟨c, hc, t, bound, ht, List.mem_singleton.mp hnode⟩
  unfold placeTerm
  cases hplace : a.termPlaces.lookup (t.id, symbolSet bound) with
  | none => simpa [hplace] using hnew
  | some k =>
    cases hnode : a.terms[k]? with
    | none => simpa [hplace, hnode] using hnew
    | some node => simpa [hplace, hnode] using ha

/-- One component that is added without a mistake brings in a node of its own term only. -/
theorem termsUsed_addComponent {done : List ComponentDecl} {scope : Scope} {a b : Assembly}
    {c : ComponentDecl} {t : TermDecl} {i : InteractionDecl} (hc : c ∈ d.components)
    (ht : termOf? d c = some t) (hi : interactionOf? d c = some i)
    (hsound : Sound d s scope done a) (ha : TermsUsed d scope.numbers a)
    (h : Findings.Clean (addComponent d s scope a c) b) : TermsUsed d scope.numbers b := by
  unfold addComponent at h
  rw [ht, placeFor, hi] at h
  obtain ⟨⟨placed, a₁⟩, h₁, h⟩ := (Findings.clean_bind fun p => by
    dsimp only
    split
    · exact grows_bindComponent _ _ _ _ _ _
    · exact Findings.grows_pure _).mp h
  obtain ⟨j, x, rfl, -, -, -, -, hterms, -, -⟩ := clean_placeInteraction hi hsound.interactions h₁
  obtain ⟨binding, k, node, a₂, -, hplaced, -, rfl⟩ := clean_bindComponent h
  have ha₁ : TermsUsed d scope.numbers a₁ := by
    intro node hnode
    rw [hterms] at hnode
    exact ha node hnode
  have ha₂ := termsUsed_placeTerm hc ht (boundOf t x) ha₁
  rw [hplaced] at ha₂
  exact ha₂

/-- All nodes of terms, after all components were added without a mistake. -/
theorem termsUsed_components {scope : Scope} {a : Assembly} (hd : Closed d)
    (h : Findings.Clean (d.components.foldlM (addComponent d s scope) .empty) a) :
    TermsUsed d scope.numbers a := by
  have hboth : Sound d s scope d.components a ∧ TermsUsed d scope.numbers a := by
    refine Findings.clean_foldlM (P := fun done a => Sound d s scope done a ∧
      TermsUsed d scope.numbers a) (fun b c => grows_addComponent b c) ?_ ?_ h
    · exact ⟨sound_empty, fun _ hnode => nomatch hnode⟩
    · rintro done c b b' hc ⟨hb, hused⟩ hadded
      obtain ⟨t, ht⟩ := hd.terms c hc
      obtain ⟨i, hi⟩ := hd.interactions c hc
      exact ⟨sound_addComponent ht hi hb hadded, termsUsed_addComponent hc ht hi hb hused hadded⟩
  exact hboth.2

theorem formulas_termNode (numbers : Numbers) (t : TermDecl) (bound : List String) :
    (termNode numbers t bound).formulas = (termFormulas t).map (·.substitute numbers bound) := by
  unfold termFormulas TermNode.formulas
  rw [List.map_append]
  cases h : t.expr <;> simp [termNode, h]

/-- Every formula of a graph that was built is one that the document reads, with parameters
replaced. -/
theorem formulas_of_clean {parameters : ResolvedParameters} {g : Graph}
    (h : Findings.Clean (assemble d parameters s) g) {f : Formula} (hf : f ∈ g.formulas) :
    ∃ f' ∈ readFormulas d, ∃ values kept, f = f'.substitute values kept := by
  obtain ⟨dataShapes, a, hg⟩ := assembled_of_clean h
  obtain ⟨vars, _, a', hamiltonians, ensemble, -, -, hadded, hlinked, rfl⟩ := parts_of_clean h
  have hd : Closed d := (clean_linkUses (fun hd => (sound_components hd hadded).map_id) hlinked).1
  have hused := termsUsed_components hd hadded
  unfold formulas weights at hf
  unfold readFormulas
  simp only [List.mem_append, List.mem_flatMap, List.mem_map, List.mem_filterMap] at hf ⊢
  rcases hf with ⟨node, hnode, hf⟩ | ⟨n, hn, r, hr, rfl⟩ | ⟨r, hr, rfl⟩
  · obtain ⟨c, hc, t, bound, ht, rfl⟩ := hused node hnode
    rw [formulas_termNode, List.mem_map] at hf
    obtain ⟨f', hf', rfl⟩ := hf
    exact ⟨f', Or.inl (Or.inl ⟨t, ⟨c, hc, ht⟩, hf'⟩), _, _, rfl⟩
  · obtain ⟨h, hmem, hstores⟩ := exists_of_mem_right hg.hamiltonians hn
    obtain ⟨u, hu, hrefers⟩ := exists_of_mem_right hstores.refs hr
    exact ⟨u.weight, Or.inl (Or.inr ⟨h, hmem, u, hu, rfl⟩), _, _, hrefers.weight⟩
  · obtain ⟨u, hu, hrefers⟩ := exists_of_mem_right hg.ensemble hr
    exact ⟨u.weight, Or.inr ⟨u, hu, rfl⟩, _, _, hrefers.weight⟩

/-- The data that an evaluation loads are in the footprint of the document. -/
theorem referencedArrays_subset {o : BuildOptions} {g : Graph} (h : build d o = .ok g) :
    g.referencedArrays ⊆ footprint d := by
  obtain ⟨parameters, data, -, -, hclean⟩ := build_eq_ok.mp h
  intro name hname
  unfold referencedArrays at hname
  rw [Expr.mem_firsts, List.mem_flatMap] at hname
  obtain ⟨f, hf, hname⟩ := hname
  obtain ⟨f', hf', values, kept, rfl⟩ := formulas_of_clean hclean hf
  exact mentioned_footprint hf' (names_substitute hname)

end Graph

namespace Energy

open EnergyGraph.Graph (footprint)

variable {d : Document} {x y : Lookup} {g : Graph}

/-- The same arrays are loaded, or the same is missing. -/
theorem loadData_alike (h : Lookup.AlikeOn g.referencedArrays x y) :
    loadData g (feedOf x) = loadData g (feedOf y) := by
  unfold loadData
  apply mapM_congr
  intro name hname
  have hneeded : name ∈ g.referencedArrays := by simpa using (List.mem_filter.mp hname).2
  rcases h name hneeded with hsame | ⟨e, f, hx, hy, he, hf⟩
  · simp only [feedOf, hsame]
  · simp only [feedOf, hx, hy, bind, Except.bind, he, hf, if_true]

/-- The same audit comes out, or the evaluation fails in the same way. -/
theorem evaluate_alike (h : Lookup.AlikeOn g.referencedArrays x y) (a : Assignment Float)
    (registry : Option (Registry Float)) (o : Options) :
    evaluate g a (feedOf x) registry o = evaluate g a (feedOf y) registry o := by
  unfold evaluate
  rw [loadData_alike h]

end Energy

namespace Graph

/-- Two stores that answer alike on the footprint of a document cannot be told apart: the same
graph is built with both of them or the same is found to be wrong, and every evaluation of the
graph gives the same audit or fails in the same way. What the stores answer for other names, be
they declared or not, counts for nothing. -/
theorem data_outside_footprint_inert (d : Document) (o : BuildOptions) (x y : Lookup)
    (h : Lookup.AlikeOn (footprint d) x y) :
    build d { o with data := some x } = build d { o with data := some y } ∧
    ∀ g, build d { o with data := some x } = .ok g →
      ∀ (a : Assignment Float) (registry : Option (Registry Float)) (options : Energy.Options),
        Energy.evaluate g a (Energy.feedOf x) registry options =
          Energy.evaluate g a (Energy.feedOf y) registry options := by
  refine ⟨build_alike h o, ?_⟩
  intro g hg a registry options
  apply Energy.evaluate_alike
  intro name hname
  exact h name (referencedArrays_subset hg hname)

/-- The sum of `w[i]` over places that data tell; nothing refers to `spare`. -/
def measured : Document :=
  { sample with
    data := [⟨"w", none, .ints [1, 2, 3], none⟩, ⟨"places", none, .ints [2], none⟩,
      ⟨"spare", some "spare.csv", .null, some [.size 7]⟩]
    interactions := [⟨"some", .sparse, none, [("source", .text "data:places")], false⟩]
    terms := [⟨"cell", .analytic, .unspecified,
      some ⟨"w[i]", .ref "w" [.symbol "i" ⟨2, 3⟩] ⟨0, 4⟩, .unspecified⟩, none, [], [], false⟩]
    components := [⟨"total", .named "cell", .named "some", some (Aggregator.ofKind .sum)⟩] }

/-- A store of the data of that document, with some answer for what nothing refers to. -/
def measuredData (spare : Except Failure Payload) : Lookup := fun name =>
  match name with
  | "w" => Payload.ofValue (.ints [1, 2, 3])
  | "places" => Payload.ofValue (.ints [2])
  | "spare" => spare
  | _ => Lookup.nothing name

/-- Neither the build nor the evaluation notices that data cannot be read. -/
theorem data_outside_footprint_inert_measured :
    ∃ (x y : Lookup) (g : Graph), Lookup.AlikeOn (footprint measured) x y ∧
      ¬ Alike (x "spare") (y "spare") ∧ build measured { alone with data := some x } = .ok g ∧
      build measured { alone with data := some y } = .ok g ∧
      ∀ (a : Assignment Float) (registry : Option (Registry Float)) (options : Energy.Options),
        Energy.evaluate g a (Energy.feedOf x) registry options =
          Energy.evaluate g a (Energy.feedOf y) registry options := by
  let x := measuredData (.ok (.listed []))
  let y := measuredData (Failure.refuse .missingFile)
  have halike : Lookup.AlikeOn (footprint measured) x y := by
    have hnames : footprint measured = ["w", "i", "places"] := by decide +kernel
    intro name hname
    rw [hnames] at hname
    simp only [List.mem_cons, List.not_mem_nil, or_false] at hname
    rcases hname with rfl | rfl | rfl <;> exact Or.inl rfl
  obtain ⟨g, hg⟩ := exists_eq_ok
    (show (build measured { alone with data := some x }).isOk = true by decide +kernel)
  obtain ⟨hbuild, henergy⟩ := data_outside_footprint_inert measured alone x y halike
  refine ⟨x, y, g, halike, ?_, hg, hbuild ▸ hg, henergy g hg⟩
  rintro (h | ⟨e, f, h, -⟩) <;> cases h

end Graph

end EnergyGraph
