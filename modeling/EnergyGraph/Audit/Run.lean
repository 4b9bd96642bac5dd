-- Audit runs. A run reads a configuration, evaluates the document that it names at
-- every assignment, checks the audits, and writes the configuration and the report
-- into its directory. Diagnostics go into the report; a refusal ends the run.
import EnergyGraph.Audit.Report
import EnergyGraph.Document.Load
import EnergyGraph.Functions
import EnergyGraph.Graph.Build
import EnergyGraph.Json.Writer

namespace EnergyGraph.Audit

/-! ## Evaluation -/

/-- Values for parameters; what is empty gives none. -/
def overridesOf (v : Value) : Except Failure Object :=
  if v.truthy then Config.mapping v else .ok []

/-- An assignment that is no object has no variables to look up. -/
def assignmentOf : Value → Assignment Float
  | .object members => .ofObject members
  | _ => fun _ => some (Failure.refuse .unknownAttribute)

/-- The audits of a document at all assignments. -/
def evaluateDocument (files : Files) (c : Config) (d : Document) :
    Except Failure (List (Tree Float)) := do
  let parameters ← Parameter.resolve d.parameters (← overridesOf c.parameters) c.collect
  let baseDir := some (files.resolve c.document).parent.text
  let data := (← d.store baseDir).lookup files
  let graph ← Graph.build d ⟨some parameters, some data, files, baseDir, c.collect⟩
  let functions ← Functions.ofDocument .standard d []
  Energy.evaluateBatch graph (c.assignments.map assignmentOf) (Energy.feedOf data)
    (some functions.invoke) c.options

/-- An audit with its mismatches, if it is to be checked. -/
def checkTree (check : Option (Value × Value)) (t : Tree Float) : Except Failure Entry := do
  match check with
  | none => .ok ⟨t, none⟩
  | some (relative, absolute) =>
    let relative ← (Payload.number relative).mapError .refusal
    let absolute ← (Payload.number absolute).mapError .refusal
    .ok ⟨t, some (← verify ⟨relative, absolute⟩ t)⟩

/-- The entries of audits up to the first that cannot be checked. -/
def checkTrees (check : Option (Value × Value)) :
    List (Tree Float) → List Entry × Option Failure
  | [] => ([], none)
  | t :: rest =>
    match checkTree check t with
    | .error e => ([], some e)
    | .ok entry =>
      let (entries, e) := checkTrees check rest
      (entry :: entries, e)

/-- What a run comes to: the document, the entries, and what put an end to it. -/
def findings (files : Files) (c : Config) : Option Document × List Entry × Option Failure :=
  match Document.load files c.document c.collect with
  | .error e => (none, [], some e)
  | .ok d =>
    match evaluateDocument files c d with
    | .error e => (some d, [], some e)
    | .ok trees => (some d, checkTrees c.check trees)

/-- The report of a run that has written nothing yet. -/
def reportOf (files : Files) (c : Config) : Except Failure Report :=
  let (document, entries, failure) := findings files c
  match failure with
  | none => .ok ⟨c, document, entries, none, ⟨none, none⟩⟩
  | some e =>
    match Breakdown.ofFailure e with
    | .ok b => .ok ⟨c, document, entries, some b, ⟨none, none⟩⟩
    | .error r => .error (.refusal r)

/-! ## Reading and writing -/

/-- Work that writes files. What was written stays, however the work ends. -/
abbrev Saving (α : Type) := ExceptT Failure (StateM Files) α

def saveValue (p : Path) (v : Value) : Saving Unit := do
  let files ← (← get).save p (Json.write (Json.spelledOut v))
  set files

/-- A text without the mark of the byte order that it may begin with. -/
def withoutMark (text : String) : String :=
  match text.toList with
  | '\uFEFF' :: rest => String.ofList rest
  | _ => text

/-- The object in a configuration file. -/
def readConfig (files : Files) (path : Path) : Except Failure Object := do
  match ← Reader.valueOf (withoutMark (← Reader.textOf (← files.contents path))) with
  | .object members => .ok members
  | _ => Failure.refuseWith .badValue "Input config must be a JSON object."

/-- Writes the configuration of a run beside its report. -/
def saveInput (r : Report) : Saving Report := do
  if r.config.writesInput then
    let p := r.config.outputDir.below (.ofText "input.json")
    saveValue p (.object r.config.source)
    pure { r with outputs := { r.outputs with input := some p } }
  else pure r

/-- Writes a report, which names its own file. -/
def saveReport (r : Report) : Saving Report := do
  if r.config.writesReport then
    let p ← Config.pathOf r.config.outputDir r.config.reportName
    let r := { r with outputs := { r.outputs with report := some p } }
    saveValue p r.toValue
    pure r
  else pure r

/-- The run that a configuration file asks for. -/
def run (path : Path) (stamp : String) : Saving Report := do
  let files ← get
  let source ← readConfig files path
  let config ← Config.ofObject (files.resolve path).parent stamp source
  let report ← reportOf files config
  saveReport (← saveInput report)

/-- Writes a configuration to start from. -/
def saveTemplate (path : Path) : Saving Unit := saveValue path Config.template

end EnergyGraph.Audit
