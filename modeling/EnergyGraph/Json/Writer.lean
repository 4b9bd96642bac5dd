-- Writing JSON text: two blanks a level, members in the order of their names,
-- and escapes for everything beyond ASCII.
import EnergyGraph.Value

namespace EnergyGraph.Json

/-- One unit of sixteen bits as an escape. -/
def escapedUnit (n : Nat) : List Char := '\\' :: 'u' :: Text.hexDigits 4 n

def escapedChar (c : Char) : List Char :=
  match c with
  | '"' => ['\\', '"']
  | '\\' => ['\\', '\\']
  | '\n' => ['\\', 'n']
  | '\r' => ['\\', 'r']
  | '\t' => ['\\', 't']
  | '\x08' => ['\\', 'b']
  | '\x0c' => ['\\', 'f']
  | c =>
    if 32 ≤ c.toNat ∧ c.toNat < 127 then [c]
    else if c.toNat < 0x10000 then escapedUnit c.toNat
    else
      let n := c.toNat - 0x10000
      escapedUnit (0xD800 + n / 0x400) ++ escapedUnit (0xDC00 + n % 0x400)

def stringText (s : String) : String :=
  String.ofList ('"' :: s.toList.flatMap escapedChar ++ ['"'])

/-- A double as JSON text; the values without digits have words. -/
def floatText (x : Float) : String :=
  if x.isNaN then "NaN" else if x.isInf then (if x < 0 then "-Infinity" else "Infinity")
  else numberText x

def indent (level : Nat) : String := "\n" ++ String.ofList (List.replicate (2 * level) ' ')

/-- Members in the order of their names. -/
def sortedMembers {α : Type} (ms : List (String × α)) : List (String × α) :=
  ms.mergeSort fun a b => a.1 ≤ b.1

mutual

def writeAt (level : Nat) : Value → String
  | .null => "null"
  | .bool b => if b then "true" else "false"
  | .int n => toString n
  | .float x => floatText x
  | .text s => stringText s
  | .list [] => "[]"
  | .list items =>
    "[" ++ indent (level + 1) ++
      ("," ++ indent (level + 1)).intercalate (writeItems (level + 1) items) ++ indent level ++ "]"
  | .object [] => "\x7b\x7d"
  | .object members =>
    "\x7b" ++ indent (level + 1) ++
      ("," ++ indent (level + 1)).intercalate
        ((sortedMembers (writeMembers (level + 1) members)).map fun (name, text) =>
          stringText name ++ ": " ++ text) ++ indent level ++ "\x7d"

def writeItems (level : Nat) : List Value → List String
  | [] => []
  | v :: rest => writeAt level v :: writeItems level rest

def writeMembers (level : Nat) : List (String × Value) → List (String × String)
  | [] => []
  | (name, v) :: rest => (name, writeAt level v) :: writeMembers level rest

end

/-- A whole file: the value and a line end. -/
def write (v : Value) : String := writeAt 0 v ++ "\n"

mutual

/-- The value with words in place of the doubles that have no digits. -/
def spelledOut : Value → Value
  | .float x => if x.isNaN || x.isInf then .text (numberText x) else .float x
  | .list items => .list (spelledOutItems items)
  | .object members => .object (spelledOutMembers members)
  | v => v

def spelledOutItems : List Value → List Value
  | [] => []
  | v :: rest => spelledOut v :: spelledOutItems rest

def spelledOutMembers : List (String × Value) → List (String × Value)
  | [] => []
  | (name, v) :: rest => (name, spelledOut v) :: spelledOutMembers rest

end

end EnergyGraph.Json
