-- Paths, and files by place. A snapshot of the files is all that reading needs; what
-- is written goes into the next snapshot.
import EnergyGraph.Diagnostic

namespace EnergyGraph

/-! ## Paths -/

/-- Where a path starts. -/
inductive Path.Start where
  /-- In the directory that relative paths are seen from. -/
  | here
  | top
  /-- At the top, too, but written with two separators, which it keeps. -/
  | doubleTop
deriving DecidableEq, Inhabited

def Path.Start.text : Path.Start → String
  | .here => ""
  | .top => "/"
  | .doubleTop => "//"

/-- Three separators and more are written as one. -/
def Path.Start.ofText (s : String) : Path.Start :=
  if s.startsWith "///" then .top
  else if s.startsWith "//" then .doubleTop
  else if s.startsWith "/" then .top
  else .here

/-- A path taken apart: where it starts, and its parts. Parts that are empty or a
single point say nothing and are left out. -/
structure Path where
  start : Path.Start
  parts : List String
deriving DecidableEq, Inhabited

namespace Path

/-- The stretches of a text between separators. -/
def splitAt (separator : Char) : List Char → List (List Char)
  | [] => [[]]
  | c :: rest =>
    match splitAt separator rest with
    | [] => [[]]
    | part :: parts => if c = separator then [] :: part :: parts else (c :: part) :: parts

def ofText (s : String) : Path where
  start := .ofText s
  parts := ((splitAt '/' s.toList).map String.ofList).filter fun p => p != "" && p != "."

def text (p : Path) : String :=
  let whole := p.start.text ++ "/".intercalate p.parts
  if whole == "" then "." else whole

def isAbsolute (p : Path) : Bool := p.start != .here

/-- A path seen from a directory. -/
def below (base p : Path) : Path :=
  if p.isAbsolute then p else ⟨base.start, base.parts ++ p.parts⟩

def name (p : Path) : String := p.parts.getLastD ""

def parent (p : Path) : Path := ⟨p.start, p.parts.dropLast⟩

/-- The last point of a name and what follows it, if there is something on both sides. -/
def suffix (p : Path) : String :=
  let cs := p.name.toList
  let extension := (cs.reverse.takeWhile (· != '.')).reverse
  let stem := cs.length - extension.length - 1
  if extension.length < cs.length ∧ 0 < stem ∧ extension ≠ [] then
    String.ofList ('.' :: extension)
  else ""

/-- The most bytes of a part of a path. -/
def longestPart : Nat := 255

/-- The most bytes of a whole path. -/
def longestWhole : Nat := 4095

def isTooLongFor (limit : Nat) (s : String) : Bool := s.utf8ByteSize > limit

/-- Neither the path nor a part of it is too long. -/
def isUsable (p : Path) : Bool :=
  !isTooLongFor longestWhole p.text && !p.parts.any (isTooLongFor longestPart)

end Path

/-! ## Snapshots -/

structure Files where
  /-- The directory in which relative paths start, by its parts from the top. -/
  root : List String
  /-- Contents by place: the parts of an absolute path without steps up. -/
  entries : List (List String × ByteArray)
deriving Inhabited

namespace Files

/-- The directory in which relative paths start lies here, or some file does. -/
def isDirectory (f : Files) (place : List String) : Bool :=
  place.isPrefixOf f.root ||
    f.entries.any fun (q, _) => q.length > place.length && place.isPrefixOf q

def isFileAt (f : Files) (place : List String) : Bool := f.entries.any fun (q, _) => q == place

/-- Some part of the way to this place is a file. -/
def passesFile (f : Files) (place : List String) : Bool :=
  f.entries.any fun (q, _) => q.length < place.length && q.isPrefixOf place

/-- One part further, or up. -/
def step (here : List String) (part : String) : List String :=
  if part == ".." then here.dropLast else here ++ [part]

/-- Where a path starts. -/
def start (f : Files) (p : Path) : List String := if p.isAbsolute then [] else f.root

/-- The place of a path, whatever is there. -/
def placeOf (f : Files) (p : Path) : List String := p.parts.foldl step (f.start p)

/-- The absolute form of a path, steps up resolved. -/
def resolve (f : Files) (p : Path) : Path := ⟨.top, f.placeOf p⟩

/-! ### Reading -/

/-- What is told of a place that holds nothing. -/
def nothingAt {α : Type} (f : Files) (place : List String) : Except Failure α :=
  if f.isFileAt place || f.passesFile place then Failure.refuse .notDirectory
  else Failure.refuse .missingFile

/-- Follows the parts from a directory on. A step up needs a directory to step out of, and
a part too long to be a name a directory to look for it in. -/
def follow (f : Files) (here : List String) : List String → Except Failure (List String)
  | [] => .ok here
  | part :: rest =>
    if part == ".." && !f.isDirectory here then f.nothingAt here
    else if Path.isTooLongFor Path.longestPart part then
      if f.isDirectory here then Failure.refuse .nameTooLong else f.nothingAt here
    else follow f (step here part) rest

/-- The contents of a file that has to be there. -/
def contents (f : Files) (p : Path) : Except Failure ByteArray := do
  if p.parts.any (·.contains '\x00') then Failure.refuse .badValue
  if Path.isTooLongFor Path.longestWhole p.text then Failure.refuse .nameTooLong
  let place ← f.follow (f.start p) p.parts
  match f.entries.lookup place with
  | some contents => .ok contents
  | none => if f.isDirectory place then Failure.refuse .isDirectory else f.nothingAt place

/-! ### Writing -/

/-- Puts a file in its place, over one that is there. -/
def put (f : Files) (place : List String) (contents : ByteArray) : Files :=
  { f with entries := f.entries.filter (fun (q, _) => q != place) ++ [(place, contents)] }

/-- The directory of a path can be there: no file lies on the way to it. -/
def checkDirectory (f : Files) (p : Path) : Except Failure Unit :=
  let places := (List.range p.parts.length).map fun k => f.placeOf ⟨p.start, p.parts.take k⟩
  if places.any f.isFileAt then Failure.refuse .notDirectory
  else if f.isFileAt (f.placeOf p) then Failure.refuse .alreadyThere
  else .ok ()

/-- Writes a file; directories that are missing are made. -/
def save (f : Files) (p : Path) (text : String) : Except Failure Files := do
  if p.parts.any (·.contains '\x00') then Failure.refuse .badValue
  f.checkDirectory p.parent
  if !p.isUsable then Failure.refuse .nameTooLong
  let place := f.placeOf p
  if f.isDirectory place then Failure.refuse .isDirectory
  .ok (f.put place text.toUTF8)

end Files

end EnergyGraph
