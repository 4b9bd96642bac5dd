-- The program. It reads the files that a command can need, carries the command out on
-- that snapshot, and writes the files that are new in the snapshot afterwards.
import Std.Time
import EnergyGraph.Audit.Inputs
import EnergyGraph.CommandLine

namespace EnergyGraph.CommandLine

/-- The snapshot with the files at some paths, as far as they can be read. -/
def readFiles (files : Files) (paths : List Path) : IO Files :=
  paths.foldlM (fun files path => do
    try
      let contents ← IO.FS.readBinFile (files.resolve path).text
      return files.put (files.placeOf path) contents
    catch _ => return files) files

/-- The files that a command can need. -/
def snapshot (command : Command) : IO Files := do
  let root := Path.ofText (← IO.currentDir).toString
  let mut files : Files := ⟨root.parts, []⟩
  if let .audit config := command then
    for rounds in [0, 1, 2] do
      files ← readFiles files (Audit.wanted files config rounds)
  return files

/-- Writes the files that differ from those before. -/
def writeFiles (before after : Files) : IO Unit :=
  after.entries.forM fun (place, contents) => do
    if before.entries.lookup place != some contents then
      let path : Path := ⟨.top, place⟩
      IO.FS.createDirAll path.parent.text
      IO.FS.writeBinFile path.text contents

/-- The time in digits, to the second. -/
def stampNow : IO String := do
  let now := Std.Time.DateTime.ofTimestamp (← Std.Time.Timestamp.now) Std.Time.TimeZone.ZoneRules.UTC
  return now.format "uuuuMMdd_HHmmss" ++ "Z"

/-- Words for a refusal that has none of its own. -/
def refusalWords : Refusal.Kind → String
  | .badValue => "A value makes no sense."
  | .badType => "A value is of the wrong kind."
  | .unknownName => "A name is not known."
  | .badPosition => "A position lies outside of a list."
  | .tooLarge => "A number is too large."
  | .divisionByZero => "A number was divided by zero."
  | .missingFile => "A file is missing."
  | .isDirectory => "A directory stands in the place of a file."
  | .notDirectory | .alreadyThere => "A file stands in the place of a directory."
  | .nameTooLong => "The name of a file is too long."
  | .emptyFile => "A file is empty."
  | .malformedJson _ => "A file is not JSON."
  | .badEncoding => "A file is no text."
  | .cellTooLong => "A cell of a table is too long."
  | .unknownAttribute => "An attribute is not known."
  | .unknownModule => "A module is not known."

def failureText : Failure → String
  | .diagnostic d => d.text
  | .collected found => (Failure.group found).text
  | .refusal r => r.message.getD (refusalWords r.kind)

end EnergyGraph.CommandLine

open EnergyGraph.CommandLine in
def main (arguments : List String) : IO UInt32 := do
  let start ← IO.monoMsNow
  let command := Command.ofArguments arguments
  let before ← snapshot command
  let (result, after) := (command.perform (← stampNow)).run.run before
  writeFiles before after
  match result with
  | .ok ending =>
    let stop ← IO.monoMsNow
    IO.print (ending.output (secondsText (stop - start)))
    if ending.status = 2 then IO.eprintln ("\n".intercalate usage)
    return ending.status.toUInt32
  | .error e =>
    IO.eprintln (failureText e)
    return 1
