-- Stores of named data. Inline values are at hand; a source file is read when its
-- name is first asked for, and kept from then on. A failed reading leaves the
-- store as it was.
import EnergyGraph.Data.Reader

namespace EnergyGraph

/-- A payload by name, or the reason why there is none. -/
abbrev Lookup := String → Except Failure Payload

namespace Lookup

/-- Nothing is known by any name. -/
def nothing : Lookup := fun name =>
  Failure.refuseWith .unknownName s!"Unknown data source '{name}'."

end Lookup

/-- A data declaration: values, or the file that holds them. -/
structure DataSource where
  name : String
  source : Option String
  values : Value
deriving Inhabited

structure Store where
  /-- Payloads that were given, or that have been read, in that order. -/
  known : List (String × Payload)
  /-- The files of the other names. A name without a file cannot be read. -/
  sources : List (String × Option String)
  baseDir : Option String
  readers : Readers

namespace Store

/-- A store of values that are all given. -/
def ofArrays (arrays : Object) : Except Failure Store := do
  let known ← arrays.mapM fun (name, v) => do .ok (name, ← Payload.ofValue v)
  .ok ⟨known, [], none, .standard⟩

/-- The store of a document's data declarations. -/
def ofDeclarations (declared : List DataSource) (baseDir : Option String) (readers : Readers) :
    Except Failure Store := do
  let given ← (declared.filter fun d => !d.values.isNull).mapM fun d => do
    .ok (d.name, ← Payload.ofValue d.values)
  let sources := (declared.filter (·.values.isNull)).map fun d => (d.name, d.source)
  .ok ⟨given, sources, baseDir, readers⟩

def names (s : Store) : List String :=
  let given := s.known.map (·.1)
  given ++ (s.sources.map (·.1)).filter fun n => !given.contains n

def contains (s : Store) (name : String) : Bool :=
  (s.known.lookup name).isSome || (s.sources.lookup name).isSome

/-- What is told when a name is not known. -/
def unknown (s : Store) (name : String) : Except Failure Payload :=
  let names := (s.known.map (·.1)).mergeSort fun a b => a ≤ b
  Failure.refuseWith .unknownName
    s!"Unknown data source '{name}'. Available: {Readers.available names}"

/-- The diagnostic of a source file that cannot be read. -/
def unreadable (name source : String) (cause : Refusal) : Diagnostic :=
  (resolveError "BadSourceReference"
    s!"Cannot read data '{name}' from '{source}': {cause.quotedText}"
    ["data", name] [("data", .text name), ("source", .text source)]).causedBy cause

/-- Reads the file of a name. -/
def readSource (s : Store) (files : Files) (name : String) (source : Option String) :
    Except Failure Payload :=
  match source with
  | none => Failure.refuse .badType
  | some source =>
    match s.readers.read files source none s.baseDir with
    | .error (.refusal r) =>
      if r.isAboutFile then .error (.diagnostic (unreadable name source r))
      else .error (.refusal r)
    | result => result

/-- The payload of a name, and the store that remembers it. -/
def get (s : Store) (files : Files) (name : String) : Except Failure Payload × Store :=
  match s.known.lookup name with
  | some p => (.ok p, s)
  | none =>
    match s.sources.lookup name with
    | none => (s.unknown name, s)
    | some source =>
      match s.readSource files name source with
      | .ok p => (.ok p, { s with known := s.known ++ [(name, p)] })
      | .error e => (.error e, s)

def getShape (s : Store) (files : Files) (name : String) : Except Failure Shape × Store :=
  let (result, s) := s.get files name
  (result.map Payload.shape, s)

/-- What a store answers while the files stay as they are. -/
def lookup (s : Store) (files : Files) : Lookup := fun name => (s.get files name).1

end Store

end EnergyGraph
