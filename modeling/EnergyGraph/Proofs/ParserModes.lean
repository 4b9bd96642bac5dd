-- Reading a document in two ways, entry by entry, and settling its parameters. An entry
-- that could not be read is left out; what is read after it is the same under both readings,
-- only that the one that ends at its first report does not get there.
import EnergyGraph.Document.Parser
import EnergyGraph.Proofs.Couplings
import EnergyGraph.Proofs.SingleFailures

namespace EnergyGraph

open Findings

variable {strict : Prop}

namespace Document

variable {m n : Type → Type} [Monad m] [Monad n] [Reports m] [Reports n] {R : Coupling m n}
  {α : Type}

theorem related_report (f : Fault) (path : List String) :
    R.Rel (report f path) (report f path) :=
  R.ofReport _ nofun

theorem related_reportIf (p : Prop) [Decidable p] (f : Fault) (path : List String) :
    R.Rel (if p then report f path else pure ()) (if p then report f path else pure ()) := by
  split
  · exact related_report f path
  · exact R.ofPure ()

/-- What is reported leaves nothing, or what stands in for it. -/
theorem related_reportThen (f : Fault) (path : List String) (a : α) :
    R.Rel (report f path >>= fun _ => pure a) (report f path >>= fun _ => pure a) :=
  R.ofBind (related_report f path) fun _ => R.ofPure a

/-! ## Entries of a section -/

theorem related_listEntries (part : String) (place : Nat) (items : List Value) :
    R.Rel (listEntries part place items) (listEntries part place items) := by
  induction items generalizing place with
  | nil => exact R.ofPure _
  | cons item rest ih =>
    unfold listEntries
    dsimp only
    split
    · split
      · exact R.ofBind (ih _) fun _ => R.ofPure _
      · exact R.ofBind (related_report _ _) fun _ => ih _
    · exact R.ofBind (related_report _ _) fun _ => ih _

theorem related_distinctEntries (part : String) (seen : List String) (members : Object) :
    R.Rel (distinctEntries part seen members) (distinctEntries part seen members) := by
  induction members generalizing seen with
  | nil => exact R.ofPure _
  | cons entry rest ih =>
    unfold distinctEntries
    split
    · exact R.ofBind (related_report _ _) fun _ => ih _
    · exact R.ofBind (ih _) fun _ => R.ofPure _

theorem related_entries (raw : Value) (part : String) :
    R.Rel (entries raw part) (entries raw part) := by
  unfold entries
  split
  · exact R.ofPure _
  · exact related_distinctEntries _ _ _
  · exact R.ofBind (related_listEntries _ _ _) fun _ => related_distinctEntries _ _ _
  · exact related_reportThen _ _ _

theorem related_readSection [LawfulMonad m] [LawfulMonad n]
    {read : String → Value → List String → m (Option α)}
    {readAll : String → Value → List String → n (Option α)} (raw : Value) (part : String)
    (h : ∀ key body path, R.Rel (read key body path) (readAll key body path)) :
    R.Rel (readSection raw part read) (readSection raw part readAll) :=
  R.ofBind (related_entries raw part) fun _ => R.filterMapM _ fun _ => h _ _ _

theorem related_readWord (what : String) (expected : List String) (ofName? : String → Option α)
    (given : Value) (path : List String) :
    R.Rel (readWord what expected ofName? given path)
      (readWord what expected ofName? given path) := by
  unfold readWord
  dsimp only
  split
  · exact R.ofPure _
  · exact related_reportThen _ _ _

theorem related_readFormula (v : Value) (arity : Arity) (path : List String) :
    R.Rel (readFormula v arity path) (readFormula v arity path) :=
  R.attempt (Formula.singly_under v arity path)

/-! ## Parameters, variables, data and functions -/

theorem related_readBounds (raw : Value) (path : List String) :
    R.Rel (readBounds raw path) (readBounds raw path) := by
  unfold readBounds
  split
  · exact R.ofPure _
  · exact R.ofPure _
  · exact related_reportThen _ _ _

theorem related_readParameter (name : String) (body : Value) (path : List String) :
    R.Rel (readParameter name body path) (readParameter name body path) := by
  unfold readParameter
  split
  · exact related_reportThen _ _ _
  · dsimp only
    split
    · split
      · exact related_reportThen _ _ _
      · exact R.ofBind (related_readBounds _ _) fun _ => R.ofPure _
    · exact R.ofPure _

theorem related_readShape (raw : Value) (path : List String) :
    R.Rel (readShape raw path) (readShape raw path) := by
  unfold readShape
  dsimp only
  split
  · exact R.ofPure _
  · exact related_reportThen _ _ _

theorem related_readVariable (name : String) (body : Value) (path : List String) :
    R.Rel (readVariable name body path) (readVariable name body path) := by
  unfold readVariable
  split
  · exact related_reportThen _ _ _
  refine R.bindSome (related_readWord _ _ _ _ _) rfl rfl fun type => ?_
  refine R.bindSome (related_readShape _ _) rfl rfl fun shape => ?_
  exact R.ofBind (related_readBounds _ _) fun _ => R.ofPure _

theorem related_readData (name : String) (body : Value) (path : List String) :
    R.Rel (readData name body path) (readData name body path) := by
  unfold readData
  split
  · exact R.ofPure _
  · split
    · exact related_reportThen _ _ _
    · dsimp only
      split
      · exact R.ofBind (related_readShape _ _) fun _ => R.ofPure _
      · exact R.ofBind (R.ofPure _) fun _ => R.ofPure _
  · exact R.ofPure _

theorem related_readFunction (id : String) (body : Value) (path : List String) :
    R.Rel (readFunction id body path) (readFunction id body path) := by
  unfold readFunction
  split
  · dsimp only
    split
    · exact related_reportThen _ _ _
    · exact R.bindSome (related_readWord _ _ _ _ _) rfl rfl fun _ => R.ofPure _
  · exact related_reportThen _ _ _

theorem related_checkNamespaces (named : List (String × List String)) :
    R.Rel (checkNamespaces named) (checkNamespaces named) := by
  refine R.ofBind (R.foldlM _ _ fun owners entry => ?_) fun _ => R.ofPure _
  dsimp only
  split
  · exact related_reportThen _ _ _
  · exact R.ofPure _

/-! ## Interactions and terms -/

theorem related_readBind (raw : Value) (path : List String) :
    R.Rel (readBind raw path) (readBind raw path) := by
  unfold readBind
  dsimp only
  split
  · exact R.ofPure _
  · split
    · exact related_reportThen _ _ _
    · split
      · exact R.ofPure _
      · exact related_reportThen _ _ _

theorem related_readInteraction (id : String) (body : Value) (path : List String) (inline : Bool) :
    R.Rel (readInteraction id body path inline) (readInteraction id body path inline) := by
  unfold readInteraction
  split
  · dsimp only
    split
    · exact related_reportThen _ _ _
    · refine R.bindSome (related_readWord _ _ _ _ _) rfl rfl fun kind => ?_
      exact R.ofBind (related_readBind _ _) fun _ => R.ofPure _
  · exact related_reportThen _ _ _

theorem related_readArity (raw : Value) (path : List String) :
    R.Rel (readArity raw path) (readArity raw path) := by
  unfold readArity
  split
  · exact R.ofPure _
  · exact R.ofPure _
  · split
    · exact R.ofPure _
    · exact related_reportThen _ _ _
  · exact related_reportThen _ _ _

theorem related_readTexts (raw : Value) : R.Rel (readTexts raw) (readTexts raw) := by
  unfold readTexts
  split
  · exact R.ofPure _
  · exact R.ofPure _
  · exact R.ofPure _
  · exact R.ofRefuse _

theorem related_readArgs (arity : Arity) (path : List String) (place : Nat) (items : List Value) :
    R.Rel (readArgs arity path place items) (readArgs arity path place items) := by
  induction items generalizing place with
  | nil => exact R.ofPure _
  | cons v rest ih =>
    refine R.bindSome (related_readFormula _ _ _) rfl rfl fun f => ?_
    exact R.bindSome (ih _) rfl rfl fun _ => R.ofPure _

theorem related_readTerm (id : String) (body : Value) (path : List String) (inline : Bool) :
    R.Rel (readTerm id body path inline) (readTerm id body path inline) := by
  unfold readTerm
  dsimp only
  split
  · refine R.bindSome (related_readWord _ _ _ _ _) rfl rfl fun kind => ?_
    refine R.bindSome (related_readArity _ _) rfl rfl fun arity => ?_
    refine R.ofBind (related_readTexts _) fun compat => ?_
    cases kind with
    | constant =>
      dsimp only
      split
      · exact R.bindSome (related_readFormula _ _ _) rfl rfl fun _ => R.ofPure _
      · exact related_reportThen _ _ _
    | analytic =>
      dsimp only
      split
      · exact related_reportThen _ _ _
      · exact R.bindSome (related_readFormula _ _ _) rfl rfl fun _ => R.ofPure _
    | functional =>
      dsimp only
      split
      · exact related_reportThen _ _ _
      · split
        · exact R.bindSome (related_readArgs _ _ _ _) rfl rfl fun _ => R.ofPure _
        · exact related_reportThen _ _ _
  · exact related_reportThen _ _ _

/-! ## Components -/

theorem related_readAggregatorOf (o : Object) (path : List String) :
    R.Rel (readAggregatorOf o path) (readAggregatorOf o path) := by
  refine R.bindSome (related_readWord _ _ _ _ _) rfl rfl fun kind => ?_
  dsimp only
  split
  · exact R.ofPure _
  · split
    · exact related_reportThen _ _ _
    · exact R.ofRefuse _

theorem related_readAggregator (raw : Value) (path : List String) :
    R.Rel (readAggregator raw path) (readAggregator raw path) := by
  unfold readAggregator
  split
  · exact related_readAggregatorOf _ _
  · exact related_readAggregatorOf _ _
  · exact related_reportThen _ _ _

theorem related_readReference
    {read : String → Value → List String → Bool → m (Option α)}
    {readAll : String → Value → List String → Bool → n (Option α)} (raw : Value)
    (owner role : String) (path : List String)
    (h : ∀ key body path inline, R.Rel (read key body path inline)
      (readAll key body path inline)) :
    R.Rel (readReference raw owner role path read)
      (readReference raw owner role path readAll) := by
  unfold readReference
  split
  · exact R.ofBind (h _ _ _ _) fun _ => R.ofPure _
  · exact R.ofPure _

theorem related_readComponent (id : String) (body : Value) (path : List String) :
    R.Rel (readComponent id body path) (readComponent id body path) := by
  unfold readComponent
  split
  · dsimp only
    split
    · refine R.bindSome (related_readReference _ _ _ _ related_readTerm) rfl rfl fun term => ?_
      refine R.bindSome (related_readReference _ _ _ _ related_readInteraction) rfl rfl
        fun interaction => ?_
      dsimp only
      split
      · exact R.ofPure _
      · exact R.bindSome (related_readAggregator _ _) rfl rfl fun _ => R.ofPure _
    · exact related_reportThen _ _ _
  · exact related_reportThen _ _ _

/-! ## Hamiltonians and the ensemble -/

theorem related_readUse (item : Value) (key : String) (path : List String) :
    R.Rel (readUse item key path) (readUse item key path) := by
  unfold readUse
  split
  · exact R.ofPure _
  · dsimp only
    split
    · exact R.bindSome (related_readFormula _ _ _) rfl rfl fun _ => R.ofPure _
    · exact related_reportThen _ _ _
  · exact related_reportThen _ _ _

theorem related_readUses (key : String) (path : List String) (place : Nat) (items : List Value) :
    R.Rel (readUses key path place items) (readUses key path place items) := by
  induction items generalizing place with
  | nil => exact R.ofPure _
  | cons item rest ih =>
    exact R.ofBind (related_readUse _ _ _) fun _ => R.ofBind (ih _) fun _ => R.ofPure _

theorem related_readCouples (raw : Value) : R.Rel (readCouples raw) (readCouples raw) := by
  unfold readCouples
  split
  · exact related_readTexts _
  · exact R.ofPure _

theorem related_readHamiltonian (id : String) (body : Value) (path : List String) :
    R.Rel (readHamiltonian id body path) (readHamiltonian id body path) := by
  unfold readHamiltonian
  split
  · dsimp only
    split
    · exact related_reportThen _ _ _
    · split
      · refine R.ofBind (related_readUses _ _ _ _) fun uses => ?_
        split
        · refine R.ofBind (related_readCouples _) fun couples => ?_
          split
          · exact R.ofPure _
          · exact R.bindSome (related_readWord _ _ _ _ _) rfl rfl fun _ => R.ofPure _
        · exact R.ofPure _
      · exact related_reportThen _ _ _
  · exact related_reportThen _ _ _

theorem related_readEnsemble (raw : Value) :
    R.Rel (readEnsemble raw) (readEnsemble raw) := by
  unfold readEnsemble
  split
  · exact R.ofPure _
  · dsimp only
    split
    · exact R.ofBind (related_readUses _ _ _ _) fun _ => R.ofPure _
    · exact related_reportThen _ _ _

/-! ## Documents -/

theorem related_readConventions (raw : Value) :
    R.Rel (readConventions raw) (readConventions raw) := by
  unfold readConventions
  split
  · exact R.ofPure _
  · refine R.ofBind ?_ fun base => R.ofBind (related_reportIf _ _ _) fun _ => R.ofPure _
    unfold readIndexBase
    split
    · exact R.ofPure _
    · exact related_reportThen _ _ _
  · exact related_reportThen _ _ _

theorem related_checkVersion (version : Value) :
    R.Rel (checkVersion version) (checkVersion version) := by
  unfold checkVersion
  split
  · exact related_report _ _
  · exact related_reportIf _ _ _

theorem related_checkName (name : Value) : R.Rel (checkName name) (checkName name) := by
  unfold checkName
  split
  · exact related_report _ _
  · exact related_reportIf _ _ _
  · exact related_report _ _

theorem related_checkHeader (o : Object) : R.Rel (checkHeader o) (checkHeader o) := by
  refine R.ofBind (R.forIn _ _ fun entry _ => ?_) fun _ =>
    R.ofBind (related_checkVersion _) fun _ => related_checkName _
  dsimp only
  split
  · exact related_reportThen _ _ _
  · exact R.ofPure _

theorem related_check [LawfulMonad m] [LawfulMonad n] (v : Value) : R.Rel (check v) (check v) := by
  unfold check
  split
  · refine R.ofBind (related_checkHeader _) fun _ => ?_
    refine R.ofBind (related_readConventions _) fun ⟨_, _⟩ => ?_
    refine R.ofBind (related_readSection _ _ related_readParameter) fun _ => ?_
    refine R.ofBind (related_readSection _ _ related_readVariable) fun _ => ?_
    refine R.ofBind (related_readSection _ _ related_readData) fun _ => ?_
    refine R.ofBind (related_readSection _ _ related_readFunction) fun _ => ?_
    refine R.ofBind (related_checkNamespaces _) fun _ => ?_
    refine R.ofBind (related_readSection _ _ fun _ _ _ => related_readInteraction _ _ _ _)
      fun _ => ?_
    refine R.ofBind (related_readSection _ _ fun _ _ _ => related_readTerm _ _ _ _) fun _ => ?_
    refine R.ofBind (related_readSection _ _ related_readComponent) fun _ => ?_
    refine R.ofBind (related_readSection _ _ related_readHamiltonian) fun _ => ?_
    exact R.ofBind (related_readEnsemble _) fun _ => R.ofPure _
  · exact related_reportThen _ _ _

theorem agrees_check (v : Value) : Agrees strict (check v) (check v) :=
  related_check (R := modes strict) v

end Document

/-! ## Parameters -/

namespace Parameter

theorem agrees_resolveOne (overrides : Object) (p : Parameter) :
    Agrees strict (resolveOne overrides p) (resolveOne overrides p) := by
  unfold resolveOne
  dsimp only
  split
  · exact agrees_bind (agrees_report fun _ => nofun) fun _ => agrees_pure _
  · exact agrees_bind (agrees_attempt fun _ => singly_accept _ _) fun _ => agrees_pure _

theorem agrees_checkAll (parameters : List Parameter) (overrides : Object) :
    Agrees strict (checkAll parameters overrides) (checkAll parameters overrides) := by
  unfold checkAll
  refine agrees_bind ((modes strict).forIn _ _ fun entry _ => ?_) fun _ =>
    (modes strict).filterMapM _ (agrees_resolveOne overrides)
  dsimp only
  split
  · exact agrees_bind (agrees_report fun _ => nofun) fun _ => agrees_pure _
  · exact agrees_pure _

end Parameter

end EnergyGraph
