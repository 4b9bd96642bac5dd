-- Values as documents hold them: nothing, truth values, integers, numbers,
-- texts, lists and objects. An object keeps the order of its members.
import EnergyGraph.Decimal.Shortest
import EnergyGraph.Text.Quoted

namespace EnergyGraph

/-- An integer of any size, or a double. -/
inductive Number where
  | int (n : Int)
  | float (x : Float)
deriving BEq, Inhabited

def Number.text : Number → String
  | .int n => toString n
  | .float x => numberText x

inductive Value where
  | null
  | bool (b : Bool)
  | int (n : Int)
  | float (x : Float)
  | text (s : String)
  | list (items : List Value)
  | object (members : List (String × Value))
deriving Inhabited

/-- Members in order, each name once. -/
abbrev Object := List (String × Value)

namespace Value

def ofNumber : Number → Value
  | .int n => .int n
  | .float x => .float x

/-- The value of what may be missing. -/
def ofOption {α : Type} (f : α → Value) : Option α → Value
  | none => .null
  | some a => f a

/-- Integers and doubles; a truth value is no number. -/
def number? : Value → Option Number
  | .int n => some (.int n)
  | .float x => some (.float x)
  | _ => none

def isNull : Value → Bool
  | .null => true
  | _ => false

def texts (items : List String) : Value := .list (items.map .text)

def ints (items : List Int) : Value := .list (items.map .int)

/-- The word for the kind of a value. -/
def typeName : Value → String
  | .null => "NoneType"
  | .bool _ => "bool"
  | .int _ => "int"
  | .float _ => "float"
  | .text _ => "str"
  | .list _ => "list"
  | .object _ => "dict"

mutual

/-- A value inside a message: texts are quoted. -/
def shown : Value → String
  | .null => "None"
  | .bool true => "True"
  | .bool false => "False"
  | .int n => toString n
  | .float x => numberText x
  | .text s => Text.quoted s
  | .list items => Text.bracketed (shownItems items)
  | .object members => "\x7b" ++ ", ".intercalate (shownMembers members) ++ "\x7d"

def shownItems : List Value → List String
  | [] => []
  | v :: rest => v.shown :: shownItems rest

def shownMembers : List (String × Value) → List String
  | [] => []
  | (name, v) :: rest => (Text.quoted name ++ ": " ++ v.shown) :: shownMembers rest

end

/-- A value as text: a text is itself. -/
def plain : Value → String
  | .text s => s
  | v => v.shown

/-- What counts as true where a truth value is wanted: all but nothing, zero and the empty. -/
def truthy : Value → Bool
  | .null => false
  | .bool b => b
  | .int n => n != 0
  | .float x => x != 0.0
  | .text s => s != ""
  | .list items => !items.isEmpty
  | .object members => !members.isEmpty

/-- The entry whose name is not an object's own: the empty object's members for any other value. -/
def members : Value → Object
  | .object ms => ms
  | _ => []

end Value

namespace Object

def get? (o : Object) (name : String) : Option Value := o.lookup name

def contains (o : Object) (name : String) : Bool := (o.lookup name).isSome

def names (o : Object) : List String := o.map (·.1)

/-- Sets a member; a new name goes to the end, a known one keeps its place. -/
def set : Object → String → Value → Object
  | [], name, v => [(name, v)]
  | (n, w) :: rest, name, v => if n == name then (n, v) :: rest else (n, w) :: set rest name v

/-- Sets several members, in order. -/
def setAll (o : Object) (members : Object) : Object := members.foldl (fun o m => set o m.1 m.2) o

end Object

end EnergyGraph
