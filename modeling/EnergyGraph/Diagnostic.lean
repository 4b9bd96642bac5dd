-- What is told about a document or an evaluation that fails. A diagnostic has a
-- category and a code, a message, the path of ids to the declaration at fault,
-- and a context of named values.
import EnergyGraph.Value

namespace EnergyGraph

/-- Where a stretch of a text begins and ends, counted in characters. -/
structure Span where
  start : Nat
  stop : Nat
deriving DecidableEq, Repr, Inhabited

def Span.value (s : Span) : Value := .ints [s.start, s.stop]

/-- An expression text and the stretch of it that is at fault. -/
structure Location where
  source : String
  span : Span
deriving DecidableEq, Inhabited

inductive Category where
  | general
  | compile
  | resolve
  | validation
  | eval
  | group
deriving DecidableEq, Repr, Inhabited

def Category.name : Category → String
  | .general => "FeboError"
  | .compile => "CompileError"
  | .resolve => "ResolveError"
  | .validation => "ValidationError"
  | .eval => "EvalError"
  | .group => "FeboErrorGroup"

/-! ## Refusals -/

/-- Why an operation could not be carried out at all, for a reason that the rules
of energy documents do not name. -/
inductive Refusal.Kind where
  /-- A value of the right kind that makes no sense here. -/
  | badValue
  /-- A value of the wrong kind. -/
  | badType
  /-- A name that nothing is known by. -/
  | unknownName
  /-- A position outside of a list. -/
  | badPosition
  /-- A number beyond the range of doubles. -/
  | tooLarge
  | divisionByZero
  | missingFile
  /-- A directory where a file is wanted. -/
  | isDirectory
  /-- A file where a directory is wanted. -/
  | notDirectory
  /-- A file where a directory is to be made. -/
  | alreadyThere
  /-- A path that no file can have. -/
  | nameTooLong
  | emptyFile
  /-- A text that is not JSON, and the place where a value is missing if that is why. -/
  | malformedJson (place : Option Nat)
  /-- Bytes that are no text. -/
  | badEncoding
  /-- A cell of a table that is not read to its end. -/
  | cellTooLong
  | unknownAttribute
  | unknownModule
deriving DecidableEq, Repr, Inhabited

structure Refusal where
  kind : Refusal.Kind
  /-- The library's own words, where it has any. -/
  message : Option String
deriving DecidableEq, Inhabited

/-- Stands for the words of a failure whose text is not this library's. -/
def foreignCause : String := "<cause>"

namespace Refusal

def plain (kind : Kind) : Refusal := ⟨kind, none⟩

/-- The refusal's words, or the stand-in for words that are not the library's. -/
def text (r : Refusal) : String := r.message.getD foreignCause

/-- A group of diagnostics has at least one member. -/
def emptyGroup : Refusal := ⟨.badValue, some "FeboErrorGroup requires at least one error."⟩

/-- The words of a failed look-up are quoted. -/
def quotedText (r : Refusal) : String :=
  match r.kind, r.message with
  | .unknownName, some m => Text.quoted m
  | _, _ => r.text

end Refusal

/-! ## Diagnostics -/

structure Diagnostic where
  category : Category
  code : String
  message : String
  path : List String
  context : Object
  /-- Only diagnostics of expression texts have one. -/
  location : Option Location
  /-- The refusal that the diagnostic passes on, if it tells of one. -/
  cause : Option Refusal
deriving Inhabited

namespace Diagnostic

/-- The category and the code in one word. -/
def kind (d : Diagnostic) : String := d.category.name ++ ":" ++ d.code

/-- The kind, the path if there is one, and the message. -/
def text (d : Diagnostic) : String :=
  let place := "/".intercalate d.path
  if place == "" then s!"{d.kind}: {d.message}" else s!"{d.kind} at {place}: {d.message}"

/-- The same diagnostic, seen from further out. -/
def under (d : Diagnostic) (outer : List String) : Diagnostic := { d with path := outer ++ d.path }

/-- The same diagnostic, told because of a refusal. -/
def causedBy (d : Diagnostic) (r : Refusal) : Diagnostic := { d with cause := some r }

/-- A diagnostic of an expression text; its context tells the place. -/
def ofExpression (code message : String) (place : Location) (path : List String) (context : Object) :
    Diagnostic where
  category := .compile
  code := code
  message := message
  path := path
  context :=
    Object.setAll [("source", .text place.source), ("span", place.span.value)] context
  location := some place
  cause := none

end Diagnostic

def resolveError (code message : String) (path : List String) (context : Object) : Diagnostic :=
  ⟨.resolve, code, message, path, context, none, none⟩

def validationError (code message : String) (path : List String) (context : Object) : Diagnostic :=
  ⟨.validation, code, message, path, context, none, none⟩

def evalError (code message : String) (path : List String) (context : Object) : Diagnostic :=
  ⟨.eval, code, message, path, context, none, none⟩

/-! ## Failures -/

/-- How an operation fails: with one diagnostic, with all that were found, or by refusal. -/
inductive Failure where
  | diagnostic (d : Diagnostic)
  | collected (found : List Diagnostic)
  | refusal (r : Refusal)
deriving Inhabited

namespace Failure

def refuse {α : Type} (kind : Refusal.Kind) : Except Failure α := .error (.refusal (.plain kind))

def refuseWith {α : Type} (kind : Refusal.Kind) (message : String) : Except Failure α :=
  .error (.refusal ⟨kind, some message⟩)

/-- The same failure, seen from further out. A refusal has no place. -/
def under (f : Failure) (outer : List String) : Failure :=
  match f with
  | .diagnostic d => .diagnostic (d.under outer)
  | .collected found => .collected (found.map (·.under outer))
  | .refusal r => .refusal r

/-- Whether an operation failed for no other reason than that a name is not known. -/
def isUnknownName : Failure → Bool
  | .refusal r => r.kind = .unknownName
  | _ => false

/-- A summary names the first five diagnostics and counts the others. -/
def summary (found : List Diagnostic) : String :=
  let named := "; ".intercalate ((found.take 5).map Diagnostic.text)
  let rest := if found.length > 5 then s!"; ... ({found.length - 5} more)" else ""
  s!"{found.length} error(s): {named}{rest}"

/-- Diagnostics found together, as one diagnostic. -/
def group (found : List Diagnostic) : Diagnostic :=
  ⟨.group, "Collected", summary found, [], [], none, none⟩

/-- Diagnostics found together; there is at least one. -/
def collect (found : List Diagnostic) : Except Failure (List Diagnostic) :=
  if found.isEmpty then .error (.refusal .emptyGroup) else .ok found

end Failure

end EnergyGraph
