-- The two modes of reading a document, of settling its parameters and of building its graph.
-- The mode that goes on after a mistake has a result exactly if the other one has, and the
-- same one; otherwise the first of all its mistakes is the only one that the other tells.
import EnergyGraph.Proofs.BuildModes
import EnergyGraph.Proofs.ParserModes

namespace EnergyGraph

open Findings

theorem Document.sameAnswer_parse (v : Value) (h : Carried (parse v true)) :
    SameAnswer (parse v false) (parse v true) :=
  sameAnswer_of_agrees (agrees_check v) h

theorem Parameter.sameAnswer_resolve (parameters : List Parameter) (overrides : Object)
    (h : Carried (resolve parameters overrides true)) :
    SameAnswer (resolve parameters overrides false) (resolve parameters overrides true) :=
  sameAnswer_of_agrees (agrees_checkAll parameters overrides) h

namespace Graph

/-- The data of a document are there or refused, and fail one diagnostic at a time, as long as
those that the caller brings do. -/
theorem dataFor_cases (d : Document) {o : BuildOptions}
    (hdata : ∀ data, o.data = some data → ∀ name, Singly (data name)) :
    (∃ data, o.dataFor d = .ok data ∧ ∀ name, Singly (data name)) ∨
      o.dataFor d = Failure.refuse .badType := by
  unfold BuildOptions.dataFor
  cases hgiven : o.data with
  | some data => exact .inl ⟨data, rfl, hdata data hgiven⟩
  | none =>
    rcases d.ok_or_refused_store o.baseDir with ⟨store, hstore, hreaders⟩ | hrefused
    · refine .inl ⟨store.lookup o.files, ?_, Store.singly_lookup ?_ o.files⟩
      · rw [hstore]
        rfl
      · rw [hreaders]
        exact Readers.standard_failSingly
    · refine .inr ?_
      rw [hrefused]
      rfl

theorem sameAnswer_parametersFor (d : Document) (o : BuildOptions)
    (h : Carried ({ o with collect := true }.parametersFor d)) :
    SameAnswer ({ o with collect := false }.parametersFor d)
      ({ o with collect := true }.parametersFor d) := by
  unfold BuildOptions.parametersFor at h ⊢
  cases hgiven : o.parameters with
  | some parameters => exact .ok parameters
  | none =>
    rw [hgiven] at h
    exact Parameter.sameAnswer_resolve d.parameters [] h

theorem sameAnswer_build (d : Document) {o : BuildOptions}
    (hdata : ∀ data, o.data = some data → ∀ name, Singly (data name))
    (h : Carried (build d { o with collect := true })) :
    SameAnswer (build d { o with collect := false }) (build d { o with collect := true }) := by
  refine sameAnswer_bind (sameAnswer_parametersFor d o) (fun parameters _ hcarried => ?_) h
  -- The data do not depend on the mode; those that are refused are refused in either.
  refine sameAnswer_bind (fun hfound => ?_) (fun data hfound hcarried => ?_) hcarried
  · rcases dataFor_cases d hdata with ⟨data, hdata, -⟩ | hrefused
    · change SameAnswer (o.dataFor d) (o.dataFor d)
      rw [hdata]
      exact .ok data
    · exact absurd hrefused (hfound _)
  · rcases dataFor_cases d hdata with ⟨given, hgiven, hsingly⟩ | hrefused
    · cases hgiven.symm.trans hfound
      exact sameAnswer_of_agrees (agrees_putTogether (fun _ => hsingly) parameters) hcarried
    · cases hrefused.symm.trans hfound

end Graph

/-! ## The modes agree -/

/-- Whatever is parsed, resolved or built, and not refused: both modes come to the same result,
or one mode tells the first of the mistakes that the other tells, each of them a single one. Data
that the caller brings fail as those of the library do, with one diagnostic at a time. -/
theorem modes_agree :
    (∀ v, Carried (Document.parse v true) →
      SameAnswer (Document.parse v false) (Document.parse v true)) ∧
    (∀ parameters overrides, Carried (Parameter.resolve parameters overrides true) →
      SameAnswer (Parameter.resolve parameters overrides false)
        (Parameter.resolve parameters overrides true)) ∧
    ∀ (d : Document) (o : Graph.BuildOptions),
      (∀ data, o.data = some data → ∀ name, Singly (data name)) →
      Carried (Graph.build d { o with collect := true }) →
      SameAnswer (Graph.build d { o with collect := false })
        (Graph.build d { o with collect := true }) :=
  ⟨Document.sameAnswer_parse, Parameter.sameAnswer_resolve,
    fun d _ hdata h => Graph.sameAnswer_build d hdata h⟩

/-- A document of which the version is all that is right. -/
def nameless : Value := .object [("version", .text "1.0.0"), ("extra", .null), ("terms", .int 1)]

/-- A temperature that has to be given. -/
def temperature : Parameter := ⟨"T", .float, .null, true, none, ""⟩

/-- A component of a term that is not there, and no hamiltonian. -/
def loose : Document where
  version := "1.0.0"
  name := "loose"
  indexBase := 0
  exprLang := exprLanguage
  parameters := []
  vars := []
  data := [⟨"blocks", none, .null, none⟩]
  functions := []
  interactions := [⟨"blocks", .groups, none, [("source", .text "data:blocks")], false⟩]
  terms := []
  components := [⟨"total", .named "gone", .named "blocks", none⟩]
  hamiltonians := []
  ensemble := []

/-- A store of two groups, of different lengths. -/
def blocks : Store :=
  ⟨[("blocks", .listed [.list [.int 0, .int 1], .list [.int 2]])], [], none, .standard⟩

/-- Each of them has more than one mistake, and both modes tell the first. -/
theorem modes_agree_mistaken :
    SameAnswer (Document.parse nameless false) (Document.parse nameless true) ∧
    SameAnswer (Parameter.resolve [temperature] [("U", .int 1)] false)
      (Parameter.resolve [temperature] [("U", .int 1)] true) ∧
    SameAnswer (Graph.build loose ⟨none, some (blocks.lookup default), default, none, false⟩)
      (Graph.build loose ⟨none, some (blocks.lookup default), default, none, true⟩) := by
  refine ⟨modes_agree.1 nameless (by decide +kernel),
    modes_agree.2.1 [temperature] [("U", .int 1)] (by decide +kernel),
    modes_agree.2.2 loose ⟨none, some (blocks.lookup default), default, none, false⟩ ?_
      (by decide +kernel)⟩
  rintro _ ⟨⟩
  exact Store.singly_lookup Readers.standard_failSingly default

end EnergyGraph
