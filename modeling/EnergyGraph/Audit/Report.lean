-- The report of an audit run: what was evaluated and how, the audit of every
-- assignment, and the diagnostics of a run that failed.
import EnergyGraph.Audit.Config

namespace EnergyGraph

def Diagnostic.toValue (d : Diagnostic) : Value :=
  .object [("kind", .text d.kind), ("path", .texts d.path), ("message", .text d.message),
    ("context", .object d.context)]

namespace Audit

/-- The audit of one assignment. -/
structure Entry where
  tree : Tree Float
  /-- The values that do not fit together, if that was checked. -/
  mismatches : Option (List (Mismatch Float))
deriving Inhabited

/-- The diagnostics of a failed run, and the kind that they have together. -/
structure Breakdown where
  kind : String
  found : List Diagnostic
deriving Inhabited

/-- A failure as a report tells it; a refusal has no place in a report. -/
def Breakdown.ofFailure : Failure → Except Refusal Breakdown
  | .diagnostic d => .ok ⟨d.kind, [d]⟩
  | .collected found => .ok ⟨(Failure.group found).kind, found⟩
  | .refusal r => .error r

/-- The files that a run wrote. -/
structure Outputs where
  input : Option Path
  report : Option Path
deriving Inhabited

structure Report where
  config : Config
  /-- Nothing if the document is at fault. -/
  document : Option Document
  entries : List Entry
  breakdown : Option Breakdown
  outputs : Outputs
deriving Inhabited

/-! ## As values -/

/-- The entry of the assignment at a place. -/
def Entry.toValue (e : Entry) (place : Nat) : Value :=
  .object ([("index", .int place), ("total", .float e.tree.total), ("audit", e.tree.toValue)] ++
    match e.mismatches with
    | none => []
    | some ms =>
      [("verified", .bool ms.isEmpty), ("mismatches", .list (ms.map Mismatch.toValue))])

def Breakdown.toValue (b : Breakdown) : Value :=
  .object [("kind", .text b.kind), ("errors", .list (b.found.map Diagnostic.toValue))]

def Outputs.toValue (o : Outputs) : Value :=
  let member (name : String) (p : Option Path) : List (String × Value) :=
    (p.map fun p => (name, .text p.text)).toList
  .object (member "input_snapshot" o.input ++ member "report" o.report)

namespace Report

def status (r : Report) : String := if r.breakdown.isSome then "failed" else "ok"

def documentValue (r : Report) : Value :=
  .object [("path", .text r.config.document.text),
    ("name", Value.ofOption (fun (d : Document) => .text d.name) r.document),
    ("version", Value.ofOption (fun (d : Document) => .text d.version) r.document),
    ("parameters", r.config.parameters)]

def evaluationValue (r : Report) : Value :=
  .object [("audit_instance_cap", .int r.config.options.instanceCap),
    ("check_variable_bounds", .bool r.config.options.checkBounds),
    ("max_workers", r.config.workers)]

def toValue (r : Report) : Value :=
  .object [("run", .object [("name", .text r.config.name), ("status", .text r.status)]),
    ("document", r.documentValue), ("evaluation", r.evaluationValue),
    ("results", .list (r.entries.zipIdx.map fun (e, k) => e.toValue k)),
    ("error", Value.ofOption Breakdown.toValue r.breakdown), ("outputs", r.outputs.toValue)]

/-! ## In lines -/

def entryLine (e : Entry) (place : Nat) : String :=
  s!"assignment[{place}] total={numberText e.tree.total}"

/-- A diagnostic in one line; an empty path leaves its place empty. -/
def diagnosticLine (d : Diagnostic) : String :=
  let place := "/".intercalate d.path
  s!"{d.kind} at {place}: {d.message}"

/-- What is told of a run that took so many seconds. -/
def lines (r : Report) (seconds : String) : List String :=
  [s!"Run complete: {r.config.name} ({r.status})", s!"runtime_seconds={seconds}"] ++
    r.entries.zipIdx.map (fun (e, k) => entryLine e k) ++
    (match r.breakdown with
    | some b => b.found.map diagnosticLine
    | none => []) ++
    [s!"outputs={r.outputs.toValue.shown}"]

end Report

end Audit

end EnergyGraph
