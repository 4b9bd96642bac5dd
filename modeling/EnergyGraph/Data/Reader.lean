-- Readers of data files, chosen by name or by the suffix of a path.
import EnergyGraph.Data.Csv
import EnergyGraph.Data.Npy
import EnergyGraph.Files
import EnergyGraph.Json.Reader
import EnergyGraph.Text.LowerCase

namespace EnergyGraph

/-- Takes the path for messages, and the contents. -/
abbrev Reader := Path → ByteArray → Except Failure Payload

namespace Reader

def textOf (contents : ByteArray) : Except Failure String :=
  match String.fromUTF8? contents with
  | some s => .ok s
  | none => Failure.refuse .badEncoding

/-- The value of a JSON text. -/
def valueOf (text : String) : Except Failure Value :=
  let text := String.ofList (Text.unifyLineEnds text.toList)
  match Json.read text with
  | .ok v => .ok v
  | .error .longInteger => Failure.refuse .badValue
  | .error flaw => Failure.refuse (.malformedJson (flaw.place? text))

/-- The value in a JSON file. -/
def jsonOf (contents : ByteArray) : Except Failure Value := do valueOf (← textOf contents)

def csv : Reader := fun _ contents => do Csv.read (← textOf contents)

/-- A value, or an object with the payload under `values`. -/
def json : Reader := fun path contents => do
  match ← jsonOf contents with
  | .object members =>
    match Object.get? members "values" with
    | some v => Payload.ofValue v
    | none =>
      Failure.refuseWith .badValue
        s!"JSON data file '{path.text}' must be an array or an object with 'values'."
  | v => Payload.ofValue v

def npy : Reader := fun _ contents => Npy.read contents

end Reader

/-- Refusals of reading that tell of the file or of what it holds. -/
def Refusal.isAboutFile (r : Refusal) : Bool :=
  match r.kind with
  | .missingFile | .nameTooLong | .unknownName | .badValue | .malformedJson _ | .badEncoding => true
  | _ => false

/-! ## The registry -/

/-- Readers by key, in the order in which they were registered. -/
abbrev Readers := List (String × Reader)

namespace Readers

def standard : Readers := [("csv", Reader.csv), ("json", Reader.json), ("npy", Reader.npy)]

/-- The key of a name: in lower case, without blanks around it and points before it. -/
def key (name : String) : String :=
  String.ofList ((Text.lower (Text.trim name)).toList.dropWhile (· == '.'))

def keys (rs : Readers) : List String := (rs.map (·.1)).mergeSort fun a b => a ≤ b

/-- Names in a message, or the word for none. -/
def available (names : List String) : String :=
  if names.isEmpty then "<none>" else ", ".intercalate names

def get (rs : Readers) (name : String) : Except Failure Reader :=
  match rs.lookup (key name) with
  | some r => .ok r
  | none =>
    Failure.refuseWith .unknownName
      s!"Unknown data reader '{name}'. Available readers: {available rs.keys}"

def register (rs : Readers) (name : String) (r : Reader) : Except Failure Readers :=
  let k := key name
  if k == "" then Failure.refuseWith .badValue "Reader name must be non-empty."
  else .ok (rs.filter (fun (n, _) => n != k) ++ [(k, r)])

/-- Reads a file with the named reader, or with the one for its suffix. -/
def read (rs : Readers) (files : Files) (source : String) (reader baseDir : Option String) :
    Except Failure Payload := do
  let path := Path.ofText source
  let path := match baseDir with
    | some base => (Path.ofText base).below path
    | none => path
  match files.contents path with
  | .ok contents => (← rs.get (reader.getD path.suffix)) path contents
  | .error (.refusal ⟨.nameTooLong, _⟩) => Failure.refuse .nameTooLong
  | .error _ => Failure.refuseWith .missingFile s!"Data source '{path.text}' does not exist."

end Readers

end EnergyGraph
