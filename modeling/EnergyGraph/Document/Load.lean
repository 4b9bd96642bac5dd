-- Documents in files. The suffix of the path tells the format; a document is
-- written as JSON, whatever its suffix says.
import EnergyGraph.Document.Parser

namespace EnergyGraph.Document

def suffixes : List String := [".yaml", ".yml", ".json"]

/-- What is told of a file whose value has no members. -/
def notMapping (path : Path) : Diagnostic :=
  validationError "InvalidField" s!"Document '{path.text}' must decode to a mapping." []
    [("path", .text path.text)]

/-- The members of the object in a file. The file is opened before its suffix is looked at. -/
def loadMembers (files : Files) (path : Path) : Except Failure Object := do
  let contents ← files.contents path
  if !suffixes.contains (Text.lower path.suffix) then
    Failure.refuseWith .badValue
      s!"Unsupported document suffix '{path.suffix}' for '{path.text}'."
  else
    match ← Reader.jsonOf contents with
    | .object members => .ok members
    | _ => .error (.diagnostic (notMapping path))

/-- The document in a file. -/
def load (files : Files) (path : Path) (collect : Bool) : Except Failure Document := do
  parse (.object (← loadMembers files path)) collect

end EnergyGraph.Document
