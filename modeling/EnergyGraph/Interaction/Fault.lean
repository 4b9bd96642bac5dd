-- What can be wrong with the declaration of an interaction, and how it is told.
import EnergyGraph.Interaction.Basic

namespace EnergyGraph.Interaction

inductive Fault where
  | unknownKind (name : String)
  /-- Symbols where there is nothing to bind. -/
  | bindsSymbols
  | badRange (given : Value)
  | otherSymbols (bind ranges : List String)
  | badRanges
  | noRanges
  | wrongWidth (bind : List String) (width : Nat)
  | noSource (fields : List String)
  | unknownKey (name source : String)
  | unreadable (source : String) (cause : Refusal)
  | notList (typeName : String)
  | notIndex (given : Value)
  | mixedWidths (widths : List Nat)
  | needsBind (width : Nat)
  | notGroup (place : Nat)
  | repeatedIndex (place : Nat) (k : Int)
  | noDims
  | badDims
  | badConnectivity (given : String) (rank : Nat)
  | noFactor
  | unknownFactor (name source : String)
  | badFactor (shape : Shape)
deriving Inhabited

namespace Fault

def code : Fault → String
  | .bindsSymbols | .wrongWidth .. => "ArityMismatch"
  | .noRanges | .needsBind _ | .noDims | .noFactor => "MissingField"
  | .noSource _ | .unknownKey .. | .unreadable .. | .notList _ | .notGroup _ | .unknownFactor .. =>
    "BadSourceReference"
  | .notIndex _ => "TypeMismatch"
  | .mixedWidths _ | .badFactor _ => "ShapeMismatch"
  | .repeatedIndex .. => "DuplicateIndex"
  | _ => "InvalidField"

/-- Faults of what a declaration refers to; the others are of the declaration itself. -/
def isOfSource : Fault → Bool
  | .noSource _ | .unknownKey .. | .unreadable .. | .notList _ | .notGroup _ | .unknownFactor ..
  | .notIndex _ | .repeatedIndex .. => true
  | _ => false

def message (id : String) : Fault → String
  | .unknownKind name => s!"Unknown interaction type '{name}'."
  | .bindsSymbols => s!"Interaction '{id}' of type none cannot bind symbols."
  | .badRange _ => "range must be [lo, hi]."
  | .otherSymbols bind ranges =>
    s!"Interaction '{id}': bind {Text.quotedList bind} does not match ranges {Text.quotedList ranges}."
  | .badRanges => "ranges must be a mapping or a list."
  | .noRanges => s!"Interaction '{id}' needs 'range' or 'ranges'."
  | .wrongWidth bind width =>
    s!"Interaction '{id}' binds {bind.length} symbol(s) {Text.quotedList bind} but its domain has width {width}."
  | .noSource fields => s!"Interaction '{id}': needs one of {Text.quotedList fields} or 'source'."
  | .unknownKey name _ => s!"Interaction '{id}': unknown data key '{name}'."
  | .unreadable source cause => s!"Interaction '{id}': cannot read '{source}': {cause.quotedText}"
  | .notList typeName => s!"Interaction '{id}': expected a list, got {typeName}"
  | .notIndex given => s!"Interaction '{id}': index {given.shown} is not an integer."
  | .mixedWidths widths =>
    s!"Interaction '{id}' mixes tuple widths {Text.bracketed (widths.map toString)}."
  | .needsBind width => s!"Interaction '{id}' has {width}-tuples and needs an explicit 'bind'."
  | .notGroup place => s!"Interaction '{id}': group {place} is not a list of indices."
  | .repeatedIndex place k => s!"Interaction '{id}': group {place} lists index {k} more than once."
  | .noDims => s!"Interaction '{id}' needs 'dims'."
  | .badDims => s!"Interaction '{id}': dims must be positive."
  | .badConnectivity given rank =>
    s!"Interaction '{id}': connectivity '{given}' is not valid for a {rank}-D grid."
  | .noFactor => s!"Interaction '{id}' needs 'factor'."
  | .unknownFactor name _ => s!"Interaction '{id}': unknown factor data '{name}'."
  | .badFactor shape =>
    s!"Interaction '{id}': low-rank factor must be 2-D (r, n), got shape {shape.tuple}."

def context (id : String) (f : Fault) : Object :=
  let own : String × Value := ("interaction", .text id)
  match f with
  | .badRange given => [("value", given)]
  | .wrongWidth bind width => [own, ("expected", .int width), ("actual", .int bind.length)]
  | .noSource _ | .notList _ => [own]
  | .unknownKey _ source | .unreadable source _ | .unknownFactor _ source =>
    [own, ("source", .text source)]
  | .notIndex given => [own, ("value", given)]
  | .mixedWidths widths => [own, ("widths", Shape.value widths)]
  | .needsBind width => [own, ("width", .int width)]
  | .notGroup place => [own, ("group", .int place)]
  | .repeatedIndex place k => [own, ("group", .int place), ("index", .int k)]
  | .badConnectivity given rank => [("connectivity", .text given), ("ndim", .int rank)]
  | .badFactor shape => [own, ("shape", shape.value)]
  | _ => []

end Fault

/-- The path of a declaration, and of a place in it. -/
def path (id : String) (place : List String) : List String := "interactions" :: id :: place

def Fault.diagnostic (f : Fault) (id : String) (place : List String) : Diagnostic :=
  let tell := if f.isOfSource then resolveError else validationError
  let d := tell f.code (f.message id) (path id place) (f.context id)
  match f with
  | .unreadable _ cause => d.causedBy cause
  | _ => d

def fail {α : Type} (f : Fault) (id : String) : Except Failure α :=
  .error (.diagnostic (f.diagnostic id []))

end EnergyGraph.Interaction
