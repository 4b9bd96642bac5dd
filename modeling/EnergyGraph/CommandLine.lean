-- The command line: which command some arguments stand for, and how it ends. Options
-- may be shortened as long as one name alone begins so, and a value may follow its
-- option or be joined to it by an equals sign.
import EnergyGraph.Audit.Run

namespace EnergyGraph.CommandLine

/-! ## Options -/

inductive Switch where
  | help
  | input
  | template
  | verbose
deriving DecidableEq, Repr, Inhabited

/-- The letter that stands for the help. -/
def helpLetter : Char := 'h'

def switches : List (String × Switch) :=
  [("-h", .help), ("--help", .help), ("--input", .input), ("--write-template", .template),
   ("--verbose", .verbose)]

/-- What a single argument is. -/
inductive Argument where
  | value (s : String)
  /-- A switch, and the text joined to it. -/
  | switch (s : Switch) (joined : Option String)
  /-- The letter for help and more letters behind it. -/
  | letters (rest : List Char)
  | unknown
  | ambiguous
deriving DecidableEq, Inhabited

/-- The stretches before and after the first equals sign, if there is one. -/
def splitJoined (s : String) : String × Option String :=
  let cs := s.toList
  match cs.dropWhile (· != '=') with
  | [] => (s, none)
  | _ :: rest => (String.ofList (cs.takeWhile (· != '=')), some (String.ofList rest))

/-- A number below zero, without an exponent. -/
def isNegativeNumber (s : String) : Bool :=
  match s.toList with
  | '-' :: cs =>
    let whole := cs.takeWhile Text.isDecimal
    match cs.dropWhile Text.isDecimal with
    | [] | ['\n'] => !whole.isEmpty
    | '.' :: places =>
      let digits := places.takeWhile Text.isDecimal
      let rest := places.dropWhile Text.isDecimal
      !digits.isEmpty && (rest == [] || rest == ['\n'])
    | _ => false
  | _ => false

/-- An argument that looks like an option and is none. -/
def otherArgument (s : String) : Argument :=
  if isNegativeNumber s || s.contains ' ' then .value s else .unknown

/-- The switch that a long name begins. -/
def shortened (s : String) : Argument :=
  let (name, joined) := splitJoined s
  match switches.filter fun (full, _) => full.startsWith name with
  | [] => otherArgument s
  | [(_, switch)] => .switch switch joined
  | _ => .ambiguous

/-- What an argument is that stands before any pair of dashes. -/
def classify (s : String) : Argument :=
  match switches.lookup s with
  | some switch => .switch switch none
  | none =>
    let (name, joined) := splitJoined s
    match switches.lookup name, s.toList with
    | some .help, '-' :: '-' :: _ => .switch .help joined
    | some .help, _ => .letters (joined.getD "").toList
    | some switch, _ => .switch switch joined
    | none, '-' :: '-' :: _ => shortened s
    | none, '-' :: c :: rest => if c = helpLetter then .letters rest else otherArgument s
    | none, _ => .value s

/-- Arguments one by one; a pair of dashes makes values of all that follow it. -/
def classifyAll : List String → List Argument
  | [] => []
  | s :: rest => if s == "--" then .unknown :: rest.map .value else classify s :: classifyAll rest

/-! ## Commands -/

inductive Command where
  | help
  /-- The arguments make no sense. -/
  | misuse
  | template (path : Path)
  | audit (config : Path)
deriving DecidableEq, Inhabited

/-- What the options say so far. -/
structure Settings where
  input : Option Path
  template : Option Path
  /-- Some argument belongs to no option. -/
  hasExtra : Bool

def Settings.empty : Settings := ⟨none, none, false⟩

def Settings.take (s : Settings) (switch : Switch) (value : String) : Settings :=
  match switch with
  | .input => { s with input := some (.ofText value) }
  | .template => { s with template := some (.ofText value) }
  | .help | .verbose => s

/-- A template wins over a run. -/
def Settings.command (s : Settings) : Command :=
  if s.hasExtra then .misuse
  else
    match s.template, s.input with
    | some path, _ => .template path
    | none, some path => .audit path
    | none, none => .misuse

/-- Takes the arguments from left to right. Help, and an option that is used wrongly,
end it at once. -/
def read (s : Settings) : List Argument → Command
  | [] => s.command
  | .switch .help none :: _ => .help
  | .switch .help (some _) :: _ => .misuse
  | .switch .verbose none :: rest => read s rest
  | .switch .verbose (some _) :: _ => .misuse
  | .switch switch (some value) :: rest => read (s.take switch value) rest
  | .switch switch none :: .value value :: rest => read (s.take switch value) rest
  | .switch _ none :: _ => .misuse
  | .letters cs :: _ => if !cs.isEmpty && cs.all (· = helpLetter) then .help else .misuse
  | .value _ :: rest | .unknown :: rest => read { s with hasExtra := true } rest
  | .ambiguous :: _ => .misuse

/-- The command that arguments stand for. -/
def Command.ofArguments (arguments : List String) : Command :=
  let found := classifyAll arguments
  if found.contains .ambiguous then .misuse else read .empty found

/-! ## Endings -/

/-- How a command ends. -/
inductive Ending where
  | helped
  | misused
  | wroteTemplate (path : Path)
  | audited (report : Audit.Report)
deriving Inhabited

/-- Carries out a command. -/
def Command.perform (stamp : String) : Command → Audit.Saving Ending
  | .help => pure .helped
  | .misuse => pure .misused
  | .template path => do
    Audit.saveTemplate path
    pure (.wroteTemplate path)
  | .audit config => do pure (.audited (← Audit.run config stamp))

def usage : List String :=
  ["usage: febo-audit [-h] [--input INPUT] [--write-template WRITE_TEMPLATE]",
   "                  [--verbose]"]

def help : List String :=
  usage ++ ["", "JSON-configured FEBO energy audit: parse, build, evaluate, report.", "", "options:",
    "  -h, --help            show this help message and exit",
    "  --input INPUT         Path to JSON run configuration.",
    "  --write-template WRITE_TEMPLATE",
    "                        Write template config and exit.",
    "  --verbose             Enable debug logging."]

/-- Milliseconds as seconds with three places. -/
def secondsText (milliseconds : Nat) : String :=
  let places := (toString (milliseconds % 1000)).toList
  let zeros := List.replicate (3 - places.length) '0'
  s!"{milliseconds / 1000}." ++ String.ofList (zeros ++ places)

namespace Ending

/-- What is told in the end, of a command that took so many seconds. -/
def lines (seconds : String) : Ending → List String
  | .helped => help
  | .misused => []
  | .wroteTemplate path => [s!"Wrote template: {path.text}"]
  | .audited report => report.lines seconds

/-- The lines as one text. -/
def output (seconds : String) (e : Ending) : String :=
  String.join ((e.lines seconds).map (· ++ "\n"))

/-- The status that a command leaves behind. -/
def status : Ending → Nat
  | .helped | .wroteTemplate _ => 0
  | .misused => 2
  | .audited report => if report.breakdown.isSome then 1 else 0

end Ending

end EnergyGraph.CommandLine
