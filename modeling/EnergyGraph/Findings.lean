-- Checks of what has many parts. A check reports every diagnostic that it meets and
-- leaves to where it reports to what comes of that: either it ends there, and the
-- diagnostic is the answer, or it goes on, and in the end all of them together are.
import EnergyGraph.Diagnostic

namespace EnergyGraph

/-! ## The sink -/

/-- Where diagnostics are reported to: the first is raised, or all are kept. -/
structure Sink where
  collect : Bool
  found : List Diagnostic
deriving Inhabited

namespace Sink

def empty (collect : Bool) : Sink := ⟨collect, []⟩

/-- Reports one diagnostic. -/
def report (s : Sink) (d : Diagnostic) : Except Failure Sink :=
  if s.collect then .ok { s with found := s.found ++ [d] } else .error (.diagnostic d)

/-- Reports a group; its members are kept one by one. -/
def reportGroup (s : Sink) (ds : List Diagnostic) : Except Failure Sink :=
  if s.collect then .ok { s with found := s.found ++ ds } else .error (.collected ds)

def raiseIfAny (s : Sink) : Except Failure Unit :=
  if s.found.isEmpty then .ok () else .error (.collected s.found)

end Sink

/-! ## Checks -/

/-- Checks that report what they find, and are refused where they cannot go on. -/
class Reports (m : Type → Type) where
  report : Diagnostic → m Unit
  /-- Diagnostics that were found together. -/
  reportGroup : List Diagnostic → m Unit
  refuse : {α : Type} → Refusal → m α

/-- A check ends with the first that it reports. -/
instance : Reports (Except Failure) where
  report d := .error (.diagnostic d)
  reportGroup ds := .error (.collected ds)
  refuse r := .error (.refusal r)

/-- A check gathers what it reports and goes on; a refusal ends it. -/
abbrev Findings : Type → Type := ExceptT Refusal (StateM (List Diagnostic))

instance : Reports Findings where
  report d := modify (· ++ [d])
  reportGroup ds := modify (· ++ ds)
  refuse := throw

namespace Findings

/-- Runs a step that fails at its first diagnostic; the failure is reported and leaves nothing. -/
def attempt {m : Type → Type} [Monad m] [Reports m] {α : Type} : Except Failure α → m (Option α)
  | .ok a => pure (some a)
  | .error (.diagnostic d) => do Reports.report d; pure none
  | .error (.collected []) => Reports.refuse .emptyGroup
  | .error (.collected ds) => do Reports.reportGroup ds; pure none
  | .error (.refusal r) => Reports.refuse r

/-- The answer of a check that gathers: the result counts if nothing was found. -/
def gathered {α : Type} (check : Findings α) : Except Failure α :=
  match check.run.run [] with
  | (.error r, _) => .error (.refusal r)
  | (.ok a, found) => do
    (⟨true, found⟩ : Sink).raiseIfAny
    .ok a

/-- The answer of a check: the first that is found, or else everything together. -/
def settle {α : Type} (collect : Bool)
    (check : (m : Type → Type) → [Monad m] → [Reports m] → m α) : Except Failure α :=
  if collect then gathered (check Findings) else check (Except Failure)

end Findings

end EnergyGraph
