-- Arrays with any number of axes, their cells in row-major order: the last axis
-- runs fastest.
import EnergyGraph.Scalar

namespace EnergyGraph

/-- The length of each axis; none at all for a single cell. -/
abbrev Shape := List Nat

/-- How many cells an array of this shape has. -/
def Shape.cellCount (shape : Shape) : Nat := shape.foldr (· * ·) 1

/-- A shape inside a message, as a sequence between parentheses. -/
def Shape.tuple (shape : Shape) : String := Text.tuple (shape.map toString)

/-- A shape inside a message, as a list. -/
def Shape.listed (shape : Shape) : String := Text.bracketed (shape.map toString)

def Shape.value (shape : Shape) : Value := .ints (shape.map fun (n : Nat) => (n : Int))

/-- The row-major place of a position, and whether every coordinate is within its axis. -/
def Shape.offset? : Shape → List Nat → Option Nat
  | [], [] => some 0
  | d :: shape, k :: rest =>
    if k < d then (Shape.offset? shape rest).map fun o => k * Shape.cellCount shape + o else none
  | _, _ => none

/-- The position of the cell at a row-major place. -/
def Shape.position : Shape → Nat → List Nat
  | [], _ => []
  | d :: shape, place =>
    (place / Shape.cellCount shape % d) :: Shape.position shape (place % Shape.cellCount shape)

structure Tensor (α : Type) where
  shape : Shape
  cells : Array α
  size_eq : cells.size = shape.cellCount

namespace Tensor

variable {α β : Type}

instance : Inhabited (Tensor α) := ⟨⟨[0], #[], rfl⟩⟩

def scalar (a : α) : Tensor α := ⟨[], #[a], rfl⟩

def rank (t : Tensor α) : Nat := t.shape.length

def map (f : α → β) (t : Tensor α) : Tensor β :=
  ⟨t.shape, t.cells.map f, by rw [Array.size_map, t.size_eq]⟩

/-- The cell at a position, if there is one. -/
def at? (t : Tensor α) (position : List Nat) : Option α := do
  let place ← t.shape.offset? position
  t.cells[place]?

/-- The only cell of an array that has one cell. -/
def only? (t : Tensor α) : Option α := if t.cells.size = 1 then t.cells[0]? else none

end Tensor

end EnergyGraph
