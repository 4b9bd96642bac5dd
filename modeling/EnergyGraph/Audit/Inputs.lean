-- The files that an audit run can read. It reads its configuration, a document that
-- the configuration names, and files that the document names; so the texts in a file
-- tell which other files may be needed.
import EnergyGraph.Audit.Run

namespace EnergyGraph.Audit

mutual

/-- The texts in a value, from left to right. -/
def textsOf : Value → List String
  | .text s => [s]
  | .list items => textsOfItems items
  | .object members => textsOfMembers members
  | _ => []

def textsOfItems : List Value → List String
  | [] => []
  | v :: rest => textsOf v ++ textsOfItems rest

def textsOfMembers : List (String × Value) → List String
  | [] => []
  | (_, v) :: rest => textsOf v ++ textsOfMembers rest

end

/-- The paths that a JSON file may name, seen from its directory. -/
def mentioned (files : Files) (path : Path) : List Path :=
  let value := do
    let text ← Reader.textOf (← files.contents path)
    Reader.valueOf (withoutMark text)
  match value with
  | .ok v => (textsOf v).map fun s => (files.resolve path).parent.below (.ofText s)
  | .error _ => []

/-- What is yet to be read: the configuration, what it mentions, and what that mentions,
one step of the way for each round. -/
def wanted (files : Files) (config : Path) : Nat → List Path
  | 0 => [config]
  | rounds + 1 => (wanted files config rounds).flatMap (mentioned files)

end EnergyGraph.Audit
