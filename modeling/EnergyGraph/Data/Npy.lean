-- Binary array files: a magic word, a header that tells the kind of the cells,
-- their order and the shape, and the cells themselves, the lowest byte first.
import EnergyGraph.Data.Payload

namespace EnergyGraph.Npy

/-! ## Numbers of bytes -/

/-- The number of some bytes, the lowest first. -/
def littleEndian : List UInt8 → Nat
  | [] => 0
  | b :: rest => b.toNat + 256 * littleEndian rest

/-- The number of some bytes, the highest bit of which is a sign. -/
def signed (bytes : List UInt8) : Int :=
  let n := littleEndian bytes
  let bits := 8 * bytes.length
  if n < Nat.pow 2 (bits - 1) then n else (n : Int) - Nat.pow 2 bits

def bytesAt (data : ByteArray) (start count : Nat) : List UInt8 :=
  (data.extract start (start + count)).toList

/-! ## The header -/

inductive CellType where
  | float64
  | int64
  | int32
  | bool
deriving DecidableEq

def CellType.ofCode? : String → Option CellType
  | "<f8" => some .float64
  | "<i8" => some .int64
  | "<i4" => some .int32
  | "|b1" => some .bool
  | _ => none

def CellType.width : CellType → Nat
  | .float64 | .int64 => 8
  | .int32 => 4
  | .bool => 1

structure Header where
  cellType : CellType
  /-- The first axis runs fastest. -/
  columnMajor : Bool
  shape : Shape
  dataStart : Nat

/-- What follows the first occurrence of a word. -/
def after? (word : List Char) : List Char → Option (List Char)
  | [] => if word = [] then some [] else none
  | c :: rest =>
    if word.isPrefixOf (c :: rest) then some ((c :: rest).drop word.length) else after? word rest

/-- The numbers between parentheses. -/
def numbers (cs : List Char) : List Nat :=
  let inside := (cs.dropWhile (· != '(')).drop 1 |>.takeWhile (· != ')')
  let digits := inside.filter fun c => c.isDigit || c == ','
  (String.ofList digits).splitOn "," |>.filterMap String.toNat?

/-- The text between the next two quotes. -/
def quotedPart (cs : List Char) : String :=
  String.ofList (((cs.dropWhile (· != '\'')).drop 1).takeWhile (· != '\''))

def magic : List UInt8 := [0x93, 0x4E, 0x55, 0x4D, 0x50, 0x59]

def header? (data : ByteArray) : Option Header := do
  if bytesAt data 0 6 ≠ magic then none
  let length := littleEndian (bytesAt data 8 2)
  if data.size < 10 + length then none
  let cs := (bytesAt data 10 length).map fun b => Char.ofNat b.toNat
  let cellType ← CellType.ofCode? (quotedPart (← after? "'descr':".toList cs))
  let order := (← after? "'fortran_order':".toList cs).dropWhile (· == ' ')
  let shape := numbers (← after? "'shape':".toList cs)
  some ⟨cellType, order.take 4 == "True".toList, shape, 10 + length⟩

/-! ## The cells -/

/-- The place in row-major order that holds the cell at a place in column-major order of
the reversed shape. -/
def storedPlace (h : Header) (place : Nat) : Nat :=
  if h.columnMajor then
    (Shape.offset? h.shape.reverse (Shape.position h.shape place).reverse).getD place
  else place

def cells (h : Header) (data : ByteArray) : Cells :=
  let bytes (place : Nat) : List UInt8 :=
    bytesAt data (h.dataStart + storedPlace h place * h.cellType.width) h.cellType.width
  let places := Array.range h.shape.cellCount
  match h.cellType with
  | .float64 => .floats (places.map fun k => Float.ofBits (littleEndian (bytes k)).toUInt64)
  | .int64 | .int32 => .ints (places.map fun k => signed (bytes k))
  | .bool => .bools (places.map fun k => littleEndian (bytes k) != 0)

theorem count_cells (h : Header) (data : ByteArray) : (cells h data).count = h.shape.cellCount := by
  unfold cells
  split <;> simp [Cells.count]

def read (data : ByteArray) : Except Failure Payload :=
  if data.isEmpty then Failure.refuse .emptyFile
  else
    match header? data with
    | none => Failure.refuse .badValue
    | some h =>
      if data.size < h.dataStart + h.shape.cellCount * h.cellType.width
          ∨ h.shape.length > Payload.mostAxes then
        Failure.refuse .badValue
      else .ok (.array ⟨h.shape, cells h data, count_cells h data⟩)

end EnergyGraph.Npy
