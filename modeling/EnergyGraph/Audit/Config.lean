-- What an audit run is asked to do, as a configuration file tells it: which document
-- is evaluated at which assignments and how, and where the report goes.
import EnergyGraph.Audit.Verify
import EnergyGraph.Data.Payload
import EnergyGraph.Energy.Options
import EnergyGraph.Files

namespace EnergyGraph.Audit

structure Config where
  /-- The members of the file. -/
  source : Object
  /-- The name of the run, fit to be part of a file's name. -/
  name : String
  document : Path
  /-- Values for the parameters of the document, as they are given. -/
  parameters : Value
  /-- All mistakes are looked for, not only the first. -/
  collect : Bool
  assignments : List Value
  outputDir : Path
  options : Energy.Options
  /-- The limit of evaluations at a time, as it is given. -/
  workers : Value
  /-- The relative and the absolute tolerance, if the values are to be checked. -/
  check : Option (Value × Value)
  writesInput : Bool
  writesReport : Bool
  /-- The name of the report's file, as it is given. -/
  reportName : Value
deriving Inhabited

namespace Config

/-! ## Sections -/

/-- The name and the value of a member: a list of two, a text of two characters, or
the two names of an object. -/
def memberOf : Value → Except Failure (Value × Value)
  | .list [name, v] => .ok (name, v)
  | .object [(name, _), (v, _)] => .ok (.text name, .text v)
  | .text s =>
    match s.toList with
    | [a, b] => .ok (.text (String.singleton a), .text (String.singleton b))
    | _ => Failure.refuse .badValue
  | .list _ | .object _ => Failure.refuse .badValue
  | _ => Failure.refuse .badType

/-- The text that names a member. -/
def nameOf : Value → Except Failure String
  | .list _ | .object _ => Failure.refuse .badType
  | v => .ok v.plain

/-- The members of an object, or those that a list of names and values makes. -/
def mapping : Value → Except Failure Object
  | .object members => .ok members
  | .list items =>
    items.foldlM (fun o item => do
      let (name, v) ← memberOf item
      .ok (Object.set o (← nameOf name) v)) []
  | .text s => if s == "" then .ok [] else Failure.refuse .badValue
  | _ => Failure.refuse .badType

/-- A section of the file; one that is missing is empty. -/
def part (o : Object) (name : String) : Except Failure Object :=
  mapping ((Object.get? o name).getD (.object []))

/-- A member, or the value that it usually has. -/
def valueOr (o : Object) (name : String) (usual : Value) : Value := (Object.get? o name).getD usual

/-- Whether a member says yes, or what it usually says. -/
def flag (o : Object) (name : String) (usual : Bool) : Bool :=
  (valueOr o name (.bool usual)).truthy

/-! ## Members -/

/-- Characters that may stand in the name of a run. -/
def isNameChar (c : Char) : Bool := c.isAlphanum || c == '.' || c == '_' || c == '-'

/-- One underscore for every stretch of other characters. -/
def squeezed (afterOther : Bool) : List Char → List Char
  | [] => []
  | c :: rest =>
    if isNameChar c then c :: squeezed false rest
    else if afterOther then squeezed true rest
    else '_' :: squeezed true rest

/-- The name of a run out of any text. -/
def runName (s : String) : String :=
  let name := String.ofList (squeezed false (Text.trimmed s.toList))
  if name == "" then "unnamed" else name

/-- A path seen from the directory of the file. -/
def pathOf (base : Path) : Value → Except Failure Path
  | .text s => .ok (base.below (.ofText s))
  | _ => Failure.refuse .badType

def documentPath (base : Path) (document : Object) : Except Failure Path :=
  match Object.get? document "path" with
  | none => Failure.refuseWith .badValue "Config 'document.path' is required."
  | some v => pathOf base v

/-- All assignments, or the only one. -/
def assignmentsOf (o : Object) : Except Failure (List Value) :=
  let given := match valueOr o "assignments" .null with
    | .null => Value.list (Object.get? o "assignment").toList
    | v => v
  match given with
  | .list (a :: more) => .ok (a :: more)
  | _ =>
    Failure.refuseWith .badValue
      "Config needs a non-empty 'assignments' list (or one 'assignment')."

/-- The directory of the output; a stamp gives every run its own. -/
def outputDirOf (base : Path) (stamp name : String) (run : Object) : Except Failure Path := do
  let dir ← pathOf base (valueOr run "output_dir" (.text "outputs/febo_audit"))
  .ok (if flag run "timestamped_run_dir" false then dir.below (.ofText s!"{stamp}_{name}") else dir)

def optionsOf (evaluation : Object) : Except Failure Energy.Options := do
  let cap ← (Payload.integer (valueOr evaluation "audit_instance_cap" (.int 10000))).mapError .refusal
  Energy.Options.ofDecl
    ⟨cap, flag evaluation "check_variable_bounds" false, valueOr evaluation "max_workers" .null⟩

/-- The tolerances of the check, unless there is none. -/
def checkOf (evaluation : Object) : Option (Value × Value) :=
  if flag evaluation "verify" true then
    some (valueOr evaluation "rtol" (.float Tolerance.usual.relative),
      valueOr evaluation "atol" (.float Tolerance.usual.absolute))
  else none

/-! ## The whole -/

/-- The configuration that an object holds. Paths in it start at a base directory. -/
def ofObject (base : Path) (stamp : String) (o : Object) : Except Failure Config := do
  let run ← part o "run"
  let document ← part o "document"
  let evaluation ← part o "evaluation"
  let name := runName (valueOr run "name" (.text "febo_audit")).plain
  let path ← documentPath base document
  let assignments ← assignmentsOf o
  let outputDir ← outputDirOf base stamp name run
  let options ← optionsOf evaluation
  .ok {
    source := o
    name
    document := path
    parameters := valueOr document "parameters" (.object [])
    collect := flag document "collect_errors" false
    assignments
    outputDir
    options
    workers := valueOr evaluation "max_workers" .null
    check := checkOf evaluation
    writesInput := flag run "write_input_snapshot" true
    writesReport := flag run "write_report" true
    reportName := valueOr run "report_filename" (.text s!"{name}_report.json") }

/-- A configuration to start from. -/
def template : Value := .object
  [("run", .object
    [("name", .text "febo_audit"), ("output_dir", .text "outputs/febo_audit"),
     ("timestamped_run_dir", .bool false), ("write_report", .bool true),
     ("write_input_snapshot", .bool true)]),
   ("document", .object
    [("path", .text "griewank.febo.yaml"), ("parameters", .object []),
     ("collect_errors", .bool false)]),
   ("assignments", .list
    [.object [("x", .list [.float 0.0, .float 0.0])],
     .object [("x", .list [.float 1.0, .float 1.0])]]),
   ("evaluation", .object
    [("audit_instance_cap", .int 10000), ("check_variable_bounds", .bool false),
     ("max_workers", .null), ("verify", .bool true),
     ("rtol", .float Tolerance.usual.relative), ("atol", .float Tolerance.usual.absolute)])]

end Config

end EnergyGraph.Audit
