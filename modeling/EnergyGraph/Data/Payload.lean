-- Data as it is delivered: rectangular arrays with cells of one kind, and lists
-- that are no arrays because their rows differ in length or their cells in kind.
import EnergyGraph.Diagnostic
import EnergyGraph.Tensor

namespace EnergyGraph

/-- The cells of an array in row-major order, all of one kind. -/
inductive Cells where
  | ints (cells : Array Int)
  | floats (cells : Array Float)
  | bools (cells : Array Bool)
  | texts (cells : Array String)
deriving Inhabited

namespace Cells

def values : Cells → List Value
  | .ints cells => cells.toList.map .int
  | .floats cells => cells.toList.map .float
  | .bools cells => cells.toList.map .bool
  | .texts cells => cells.toList.map .text

def count : Cells → Nat
  | .ints cells => cells.size
  | .floats cells => cells.size
  | .bools cells => cells.size
  | .texts cells => cells.size

theorem length_values (c : Cells) : c.values.length = c.count := by
  cases c <;> simp [values, count]

def kindName : Cells → String
  | .ints _ => "int"
  | .floats _ => "float"
  | .bools _ => "bool"
  | .texts _ => "str"

end Cells

structure DataArray where
  shape : Shape
  cells : Cells
  count_eq : cells.count = shape.cellCount

instance : Inhabited DataArray := ⟨⟨[0], .ints #[], rfl⟩⟩

/-- Cells in row-major order, nested by the axes of a shape. -/
def nested : Shape → List Value → Value
  | [], cells => cells.headD .null
  | d :: shape, cells =>
    let n := Shape.cellCount shape
    .list ((List.range d).map fun k => nested shape ((cells.drop (k * n)).take n))

/-- The array as nested lists; a single cell without axes is the bare value. -/
def DataArray.value (a : DataArray) : Value := nested a.shape a.cells.values

/-- What a name of a data source stands for. -/
inductive Payload where
  | array (a : DataArray)
  | listed (items : List Value)
deriving Inhabited

namespace Payload

/-- The length of each axis; of a list only the first one counts. -/
def shape : Payload → Shape
  | .array a => a.shape
  | .listed items => [items.length]

def value : Payload → Value
  | .array a => a.value
  | .listed items => .list items

/-! ## Arrays from values -/

mutual

/-- The shape of nested lists, unless some list has items of different shapes. -/
def shapeOf? : Value → Option Shape
  | .list items => (shapeOfItems? items).map (items.length :: ·)
  | _ => some []

/-- The shape that all items share. -/
def shapeOfItems? : List Value → Option Shape
  | [] => some []
  | [v] => shapeOf? v
  | v :: w :: rest =>
    match shapeOf? v, shapeOfItems? (w :: rest) with
    | some s, some t => if s = t then some s else none
    | _, _ => none

end

/-- The most axes that an array has. -/
def mostAxes : Nat := 32

/-- The shape of nested lists that are an array. -/
def arrayShape? (v : Value) : Option Shape := (shapeOf? v).filter fun s => s.length ≤ mostAxes

mutual

/-- The values that are no lists, from left to right. -/
def leaves : Value → List Value
  | .list items => leavesOf items
  | v => [v]

def leavesOf : List Value → List Value
  | [] => []
  | v :: rest => leaves v ++ leavesOf rest

end

mutual

/-- Nested lists of a shape hold as many values as an array of that shape has cells. -/
theorem length_leaves {v : Value} {shape : Shape} (h : shapeOf? v = some shape) :
    (leaves v).length = shape.cellCount := by
  cases v with
  | list items =>
    simp only [shapeOf?, Option.map_eq_some_iff] at h
    obtain ⟨inner, hi, rfl⟩ := h
    rw [leaves, length_leavesOf hi]
    rfl
  | _ =>
    simp only [shapeOf?, Option.some.injEq] at h
    subst h
    rfl

theorem length_leavesOf {items : List Value} {inner : Shape} (h : shapeOfItems? items = some inner) :
    (leavesOf items).length = items.length * inner.cellCount := by
  match items with
  | [] => simp [leavesOf]
  | [v] =>
    rw [shapeOfItems?] at h
    simp [leavesOf, length_leaves h]
  | v :: w :: rest =>
    rw [shapeOfItems?] at h
    split at h
    · rename_i s t hv hrest
      split at h
      · rename_i hst
        cases h
        subst hst
        rw [leavesOf, List.length_append, length_leaves hv, length_leavesOf hrest]
        simp only [List.length_cons, Nat.add_mul, Nat.one_mul]
        omega
      · cases h
    · cases h

end

theorem length_leaves_of_arrayShape {v : Value} {shape : Shape} (h : arrayShape? v = some shape) :
    (leaves v).length = shape.cellCount :=
  length_leaves (Option.eq_some_of_filter_eq_some h)

/-- Kinds of cells, and the kind of a mixture. Integers have 64 bits, with a sign
or, if they need the room, without. -/
inductive CellKind where
  | bool
  | int
  | natural
  | float
  | text
  | other
deriving DecidableEq

def cellKind : Value → CellKind
  | .bool _ => .bool
  | .int n =>
    if -0x8000000000000000 ≤ n ∧ n < 0x8000000000000000 then .int
    else if 0 ≤ n ∧ n < 0x10000000000000000 then .natural
    else .other
  | .float _ => .float
  | .text _ => .text
  | _ => .other

/-- The kind that holds cells of both kinds. -/
def CellKind.join : CellKind → CellKind → CellKind
  | .other, _ | _, .other => .other
  | .text, _ | _, .text => .text
  | .float, _ | _, .float => .float
  | .int, .natural | .natural, .int => .float
  | .natural, _ | _, .natural => .natural
  | .int, _ | _, .int => .int
  | .bool, .bool => .bool

def asInt : Value → Int
  | .int n => n
  | .bool b => if b then 1 else 0
  | _ => 0

def asFloat : Value → Float
  | .float x => x
  | v => Decimal.ofInt (asInt v)

/-- The text of a cell. Cells of one array take the same room, and what room is left is
filled with null characters, so that those at the end of a text are not kept. -/
def asText (v : Value) : String :=
  String.ofList (v.plain.toList.reverse.dropWhile (· == '\x00')).reverse

/-- Cells of one kind out of values that it can hold. -/
def cellsOf (kind : CellKind) (values : List Value) : Option Cells :=
  match kind with
  | .bool => some (.bools (values.map fun v => v.truthy).toArray)
  | .int | .natural => some (.ints (values.map asInt).toArray)
  | .float => some (.floats (values.map asFloat).toArray)
  | .text => some (.texts (values.map asText).toArray)
  | .other => none

theorem count_cellsOf {kind : CellKind} {values : List Value} {cells : Cells}
    (h : cellsOf kind values = some cells) : cells.count = values.length := by
  cases kind <;> simp only [cellsOf, Option.some.injEq, reduceCtorEq] at h <;> subst h <;>
    simp [Cells.count]

/-- The kind that holds all of some values. -/
def kindOf : List Value → CellKind
  | [] => .float
  | v :: rest => rest.foldl (fun k w => k.join (cellKind w)) (cellKind v)

/-- Rectangular values of one kind, or of kinds that go together, are an array, unless
they are nested too deeply. -/
def array? (v : Value) : Option DataArray :=
  match hs : arrayShape? v with
  | none => none
  | some shape =>
    match hc : cellsOf (kindOf (leaves v)) (leaves v) with
    | none => none
    | some cells => some ⟨shape, cells, by rw [count_cellsOf hc, length_leaves_of_arrayShape hs]⟩

/-- The payload of a value: an array if it is one, else the list of its items. -/
def ofValue (v : Value) : Except Failure Payload :=
  match array? v with
  | some a => .ok (.array a)
  | none =>
    match v with
    | .list items => .ok (.listed items)
    | .object members => .ok (.listed (members.map fun (name, _) => .text name))
    | _ => Failure.refuse .badType

/-! ## Numbers from values -/

/-- The double that a value stands for where one is needed. -/
def number : Value → Except Refusal Float
  | .bool b => .ok (if b then 1.0 else 0.0)
  | .int n =>
    match Decimal.ofInt? n with
    | some x => .ok x
    | none => .error (.plain .tooLarge)
  | .float x => .ok x
  | .text s =>
    match Decimal.readFloat? s with
    | some x => .ok x
    | none => .error (.plain .badValue)
  | _ => .error (.plain .badType)

/-- The integer that a value stands for where one is needed: a fraction is cut off. -/
def integer : Value → Except Refusal Int
  | .bool b => .ok (if b then 1 else 0)
  | .int n => .ok n
  | .float x =>
    if x.isNaN then .error (.plain .badValue)
    else if x.isInf then .error (.plain .tooLarge)
    else .ok (truncated x)
  | .text s =>
    match Decimal.readInt? s with
    | some n => .ok n
    | none => .error (.plain .badValue)
  | _ => .error (.plain .badType)

/-- The double of a cell. Nothing at all is not a number. -/
def toFloat : Value → Except Failure Float
  | .null => .ok (0.0 / 0.0)
  | v => (number v).mapError .refusal

theorem length_of_mapM {f : Value → Except Failure Float} {values : List Value} {xs : List Float}
    (h : values.mapM f = .ok xs) : xs.length = values.length := by
  induction values generalizing xs with
  | nil =>
    cases h
    rfl
  | cons v rest ih =>
    rw [List.mapM_cons] at h
    cases hv : f v with
    | error e => simp [hv, bind, Except.bind] at h
    | ok x =>
      cases hr : rest.mapM f with
      | error e => simp [hv, hr, bind, Except.bind] at h
      | ok ys =>
        simp only [hv, hr, bind, Except.bind, pure, Except.pure, Except.ok.injEq] at h
        subst h
        simp [ih hr]

/-- The doubles of some values, as the cells of an array. -/
def tensorOf (shape : Shape) (values : List Value) (h : values.length = shape.cellCount) :
    Except Failure (Tensor Float) :=
  match hx : values.mapM toFloat with
  | .ok xs => .ok ⟨shape, xs.toArray, by simp [length_of_mapM hx, h]⟩
  | .error e => .error e

/-- Nested values as an array of doubles. -/
def floatsOfValue (v : Value) : Except Failure (Tensor Float) :=
  match h : arrayShape? v with
  | none => Failure.refuse .badValue
  | some shape => tensorOf shape (leaves v) (length_leaves_of_arrayShape h)

/-- A payload as an array of doubles. -/
def floats : Payload → Except Failure (Tensor Float)
  | .array a => tensorOf a.shape a.cells.values (by rw [Cells.length_values, a.count_eq])
  | .listed items => floatsOfValue (.list items)

end Payload

end EnergyGraph
